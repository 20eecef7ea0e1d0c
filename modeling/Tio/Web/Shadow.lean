import Tio.Shadow.DeltaMeaning

/-! The delta that the web console shows (`web/src/utils/shadow.js`): what its loops read
and assign in JavaScript, where a property that an object does not have itself is looked
up in its prototypes. -/

namespace Tio.Web

open Tio.Core Tio.Json Tio.Shadow

/-- A value in the console: `undefined`, a JSON value, or something that only the engine
has, such as a function or a prototype. -/
inductive Js (Builtin : Type)
  | undefined
  | value (v : Value)
  | builtin (b : Builtin)

variable {Builtin : Type}

def Js.isUndefined : Js Builtin → Bool
  | .undefined => true
  | _ => false

def Js.isNull : Js Builtin → Bool
  | .value .null => true
  | _ => false

/-- `undefined` or `null`: neither has properties. -/
def Js.nullish (x : Js Builtin) : Bool := x.isUndefined || x.isNull

/-- `TypeError`. -/
inductive Thrown
  | typeError
deriving DecidableEq

/-- The engine that runs the console. -/
structure Engine where
  Builtin : Type
  /-- A property that a value does not list among its own, such as the length of a list or
  what the prototypes have. -/
  inherited : Value → String → Js Builtin
  property : Builtin → String → Except Thrown (Js Builtin)
  /-- The code units of a text. -/
  units : String → List (Js Builtin)
  /-- What `JSON.stringify` writes; nothing for a function. -/
  json : Builtin → Option Value
  /-- Objects are JSON objects, arrays, or things of the engine. -/
  inherited_atom : ∀ v key found, inherited v key = .value found → isAtom found = true
  property_atom : ∀ b key found, property b key = .ok (.value found) → isAtom found = true
  units_atom : ∀ s found, .value found ∈ units s → isAtom found = true

/-- The keys of a list are its indices, as texts. -/
def indexed {Item : Type} : Nat → List Item → List (String × Item)
  | _, [] => []
  | index, item :: rest => (toString index, item) :: indexed (index + 1) rest

/-- The own properties of an object or a list. -/
def entries : Value → Fields
  | .obj fields => fields
  | .arr items => indexed 0 items
  | _ => []

section

variable (e : Engine)

/-- The own properties that `Object.keys` lists. -/
def Engine.own : Value → List (String × Js e.Builtin)
  | .str s => indexed 0 (e.units s)
  | v => (entries v).map fun entry => (entry.1, .value entry.2)

/-- `v[key]` for a value that has properties. -/
def Engine.read (v : Value) (key : String) : Js e.Builtin :=
  (Assoc.get key (e.own v)).getD (e.inherited v key)

/-- `x[key]` -/
def Engine.get : Js e.Builtin → String → Except Thrown (Js e.Builtin)
  | .undefined, _ | .value .null, _ => .error .typeError
  | .value v, key => .ok (e.read v key)
  | .builtin b, key => e.property b key

/-- `Object.keys(x)`, with what stands behind the keys; nothing that the engine has is
enumerable. -/
def Engine.keys : Js e.Builtin → Except Thrown (List (String × Js e.Builtin))
  | .undefined | .value .null => .error .typeError
  | .value v => .ok (e.own v)
  | .builtin _ => .ok []

/-- `JSON.stringify` of a property. -/
def Engine.jsonOf : Js e.Builtin → Option Value
  | .undefined => none
  | .value v => some v
  | .builtin b => e.json b

end

/-- `typeof v === "object"`, which null is too. -/
def typeofObject : Value → Bool
  | .null | .arr _ | .obj _ => true
  | _ => false

/-- `v === x` for a value `v` that is no object. -/
def identical (v : Value) : Js Builtin → Bool
  | .value w => equalScalar v w
  | _ => false

abbrev Delta (Builtin : Type) := List (String × Js Builtin)

/-- `delta[key] = x`; under this one name it sets the prototype of `delta`. -/
def assign (key : String) (x : Js Builtin) (delta : Delta Builtin) : Delta Builtin :=
  if key = "__proto__" then delta else Assoc.set key x delta

/-- The body of the first loop, for a key of `preState` and its value; `subDelta` is the
merge of the two values, which is made only where it is asked for. -/
def mergeExisted (key : String) (value : Value) (cur : Js Builtin)
    (subDelta : Except Thrown (Option Value)) (delta : Delta Builtin) : Except Thrown (Delta Builtin) :=
  if typeofObject value then
    if cur.nullish then .ok (assign key .undefined delta)
    else do
      match ← subDelta with
      | some sub => .ok (assign key (.value sub) delta)
      | none => .ok delta
  else if identical value cur then .ok delta
  else .ok (assign key cur delta)

section

variable (e : Engine)

/-- The second loop: what `preState` does not have. -/
def mergeUnexisted (preState : Value) : List (String × Js e.Builtin) → Delta e.Builtin → Delta e.Builtin
  | [], delta => delta
  | (key, cur) :: rest, delta =>
    mergeUnexisted preState rest
      (if (e.read preState key).isUndefined && !cur.isNull then assign key cur delta else delta)

/-- `JSON.parse(JSON.stringify(delta))`, and `undefined` where nothing is left. -/
def trimmed (delta : Delta e.Builtin) : Option Value :=
  created (delta.filterMap fun entry => (e.jsonOf entry.2).map fun v => (entry.1, v))

/-- From the second `Object.keys` on. -/
def finish (preState : Value) (curState : Js e.Builtin) (delta : Delta e.Builtin) :
    Except Thrown (Option Value) := do
  let keys ← e.keys curState
  .ok (trimmed e (mergeUnexisted e preState keys delta))

mutual

def mergeState : (preState : Value) → (curState : Js e.Builtin) → Except Thrown (Option Value)
  | .null, _ => .error .typeError
  | .obj fields, curState => do
    let delta ← mergeFields fields curState []
    finish e (.obj fields) curState delta
  | .arr items, curState => do
    let delta ← mergeItems 0 items curState []
    finish e (.arr items) curState delta
  -- `typeof` lets no other value through
  | preState, curState => finish e preState curState []
termination_by structural preState => preState

def mergeFields : Fields → Js e.Builtin → Delta e.Builtin → Except Thrown (Delta e.Builtin)
  | [], _, delta => .ok delta
  | (key, value) :: rest, curState, delta => do
    let cur ← e.get curState key
    let delta ← mergeExisted key value cur (mergeState value cur) delta
    mergeFields rest curState delta
termination_by structural fields => fields

def mergeItems : Nat → List Value → Js e.Builtin → Delta e.Builtin → Except Thrown (Delta e.Builtin)
  | _, [], _, delta => .ok delta
  | index, value :: rest, curState, delta => do
    let cur ← e.get curState (toString index)
    let delta ← mergeExisted (toString index) value cur (mergeState value cur) delta
    mergeItems (index + 1) rest curState delta
termination_by structural _ items => items

end

/-- Whether there is a delta, and the delta. -/
def diffState (desired reported : Fields) : Except Thrown (Bool × Option Value) := do
  let delta ← mergeState e (.obj reported) (.value (.obj desired))
  .ok (delta.isSome, delta)

/-- The console does not throw, reports a delta exactly when that of the server is not
empty, and then it is the same document. -/
def Agrees (desired reported : Document) : Prop :=
  ∃ hasDelta delta state metadata, diffState e desired.fields reported.fields = .ok (hasDelta, delta) ∧
    deltaState (some desired.fields) (some reported.fields) none = .ok (some state, metadata) ∧
    (hasDelta = true ↔ state ≠ []) ∧
    (hasDelta = true → ∃ found, delta = some found ∧ deepEqual found (.obj state) = true)

end

end Tio.Web
