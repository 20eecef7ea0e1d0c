import Tio.Json.Path

/-! Merging a request document into a stored one (`merge.go`): null deletes a
field, objects are merged field by field, anything else overwrites. The same
loop keeps the timestamps of the document and of the request. -/

namespace Tio.Shadow

open Tio.Core Tio.Json

inductive Panic where
  | typeAssertion
  deriving DecidableEq

theorem bind_eq_ok {first : Except ε α} {next : α → Except ε β} {result : β} :
    (first >>= next) = .ok result ↔ ∃ value, first = .ok value ∧ next value = .ok result := by
  cases first with
  | error err => simp [bind, Except.bind]
  | ok value => simp [bind, Except.bind]

/-- `v.(map[string]any)` without the second result. -/
def asMap : Value → Except Panic Fields
  | .obj fields => .ok fields
  | _ => .error .typeAssertion

/-- The map found under a key, asserted to be one, or a new map. -/
def subMap : Option Value → Except Panic Fields
  | some value => asMap value
  | none => .ok []

/-- What `time.Now().UnixMilli()` answers, by the path whose timestamp it
becomes; `all` and `updated` are read one after the other. -/
structure Clock where
  all : List String → Int
  updated : List String → Int

def Clock.under (clock : Clock) (key : String) : Clock where
  all path := clock.all (key :: path)
  updated path := clock.updated (key :: path)

def timestamp (now : Int) : Value := .obj [("timestamp", .num now)]

mutual

def deepCopyValue : Value → Value
  | .obj fields => .obj (deepCopyMap fields)
  | value => value
termination_by structural value => value

/-- Maps are copied at every depth; any other value, an array too, is shared. -/
def deepCopyMap : Fields → Fields
  | [] => []
  | (key, value) :: rest => (key, deepCopyValue value) :: deepCopyMap rest
termination_by structural fields => fields

end

mutual

/-- Null stands for the `nil` that a map left empty answers. -/
def removeNilFieldsForValue : Value → Value
  | .obj fields =>
    if (removeNilFields fields).isEmpty then .null else .obj (removeNilFields fields)
  | value => value
termination_by structural value => value

/-- The map as the helper leaves it, for it deletes in place. -/
def removeNilFields : Fields → Fields
  | [] => []
  | (key, value) :: rest =>
    match removeNilFieldsForValue value with
    | .null => removeNilFields rest
    | kept => (key, kept) :: removeNilFields rest
termination_by structural fields => fields

end

mutual

/-- The loop body of `genMeta`. Among the kinds that a decoder produces only an object is
no scalar, so the type assertion is the object pattern. -/
def genMetaField (clock : Clock) (key : String) : Value → Fields → Fields
  | .null, outMeta => outMeta
  | .obj sub, outMeta => Assoc.set key (.obj (genMeta (clock.under key) sub [])) outMeta
  | _, outMeta => Assoc.set key (timestamp (clock.all [key])) outMeta
termination_by structural value => value

def genMeta (clock : Clock) : Fields → Fields → Fields
  | [], outMeta => outMeta
  | (key, value) :: rest, outMeta => genMeta clock rest (genMetaField clock key value outMeta)
termination_by structural fields => fields

end

/-- The three maps that one call of `doMergeState` writes. -/
structure MergeMaps where
  tgt : Fields
  allMeta : Fields
  updatedMeta : Fields

mutual

/-- The body of the loop over the source. An absent field and a field that holds
no object take the same branch, as the two branches of the source do. -/
def mergeField (clock : Clock) (key : String) : Value → MergeMaps → Except Panic MergeMaps
  | .null, maps =>
    .ok { maps with tgt := Assoc.erase key maps.tgt, allMeta := Assoc.erase key maps.allMeta }
  | .obj subSrc, maps =>
    match Assoc.get key maps.tgt with
    | some (.obj subTgt) => do
      let mVal ← subMap (Assoc.get key maps.allMeta)
      let sub ← mergeLoop (clock.under key) subSrc ⟨subTgt, mVal, []⟩
      if sub.tgt.isEmpty then
        .ok ⟨Assoc.set key (.obj sub.tgt) maps.tgt, Assoc.erase key maps.allMeta,
          Assoc.erase key maps.updatedMeta⟩
      else
        .ok ⟨Assoc.set key (.obj sub.tgt) maps.tgt, Assoc.set key (.obj sub.allMeta) maps.allMeta,
          Assoc.set key (.obj sub.updatedMeta) maps.updatedMeta⟩
    | _ =>
      -- `genMeta` runs after the nulls were deleted from the source in place
      let fresh := genMeta (clock.under key) (removeNilFields subSrc) []
      .ok ⟨Assoc.set key (removeNilFieldsForValue (.obj subSrc)) maps.tgt,
        Assoc.set key (.obj fresh) maps.allMeta,
        Assoc.set key (.obj (deepCopyMap fresh)) maps.updatedMeta⟩
  | value, maps =>
    .ok ⟨Assoc.set key (removeNilFieldsForValue value) maps.tgt,
      Assoc.set key (timestamp (clock.all [key])) maps.allMeta,
      Assoc.set key (timestamp (clock.updated [key])) maps.updatedMeta⟩
termination_by structural value => value

def mergeLoop (clock : Clock) : Fields → MergeMaps → Except Panic MergeMaps
  | [], maps => .ok maps
  | (key, value) :: rest, maps => do
    let next ← mergeField clock key value maps
    mergeLoop clock rest next
termination_by structural fields => fields

end

/-- A Go map that may be `nil`. -/
abbrev GoMap := Option Fields

/-- Only a call from `mergeState` can pass `nil` maps, so the loop calls itself
past these checks. -/
def doMergeState (clock : Clock) (tgt : GoMap) (src : Fields) (allMeta updatedMeta : GoMap) :
    Except Panic (GoMap × Fields × Fields) :=
  match tgt with
  | none => .ok (some src, allMeta.getD [], genMeta clock src (updatedMeta.getD []))
  | some tg => do
    let maps ← mergeLoop clock src ⟨tg, allMeta.getD [], updatedMeta.getD []⟩
    .ok (some maps.tgt, maps.allMeta, maps.updatedMeta)

/-- What the caller sees in `tgt`, `allMeta` and `updatedMeta`: a `nil` target
stays `nil`, for only the local copy of the map is assigned. -/
def mergeState (clock : Clock) (tgt : GoMap) (src : Fields) (allMeta updatedMeta : GoMap) :
    Except Panic (GoMap × GoMap × GoMap) := do
  let (merged, am, um) ← doMergeState clock tgt (deepCopyMap src) allMeta updatedMeta
  .ok (tgt.bind fun _ => merged, some am, some um)

mutual

/-- What a source value leaves under its key, given what the target holds there. -/
def overlay : Value → Option Value → Option Value
  | .null, _ => none
  | .obj subSrc, some (.obj subTgt) => some (.obj (overlaid subSrc subTgt))
  | .obj subSrc, _ => some (removeNilFieldsForValue (.obj subSrc))
  | value, _ => some value
termination_by structural value => value

/-- The target of a merge, without its timestamps. -/
def overlaid : Fields → Fields → Fields
  | [], tgt => tgt
  | (key, value) :: rest, tgt =>
    overlaid rest (Assoc.put key (overlay value (Assoc.get key tgt)) tgt)
termination_by structural fields => fields

end

mutual

theorem deepCopyValue_eq : ∀ value : Value, deepCopyValue value = value
  | .obj fields => by rw [deepCopyValue, deepCopyMap_eq fields]
  | .null => rfl
  | .bool _ => rfl
  | .num _ => rfl
  | .str _ => rfl
  | .arr _ => rfl
termination_by structural value => value

theorem deepCopyMap_eq : ∀ fields : Fields, deepCopyMap fields = fields
  | [] => rfl
  | (key, value) :: rest => by rw [deepCopyMap, deepCopyValue_eq value, deepCopyMap_eq rest]
termination_by structural fields => fields

end

theorem removeNilFields_cons {key : String} {value : Value} {rest : Fields}
    (kept : removeNilFieldsForValue value ≠ .null) :
    removeNilFields ((key, value) :: rest) =
      (key, removeNilFieldsForValue value) :: removeNilFields rest := by
  rw [removeNilFields]
  split
  · rename_i gone
    exact absurd gone kept
  · rfl

theorem removeNilFields_cons_of_null {key : String} {value : Value} {rest : Fields}
    (gone : removeNilFieldsForValue value = .null) :
    removeNilFields ((key, value) :: rest) = removeNilFields rest := by
  rw [removeNilFields, gone]

theorem removeNilFieldsForValue_of_not_object {value : Value} (plain : value.isObject = false) :
    removeNilFieldsForValue value = value := by
  cases value <;> first | rfl | simp [Value.isObject] at plain

theorem removeNilFieldsForValue_obj (fields : Fields) :
    removeNilFieldsForValue (.obj fields) =
      if (removeNilFields fields).isEmpty then .null else .obj (removeNilFields fields) := rfl

/-- A value is kept under its key unless nothing of it is left. -/
def keptValue (value : Value) : Option Value :=
  match removeNilFieldsForValue value with
  | .null => none
  | kept => some kept

theorem keptValue_of_null {value : Value} (gone : removeNilFieldsForValue value = .null) :
    keptValue value = none := by simp [keptValue, gone]

theorem keptValue_of_ne {value : Value} (kept : removeNilFieldsForValue value ≠ .null) :
    keptValue value = some (removeNilFieldsForValue value) := by
  rw [keptValue]
  split
  · rename_i gone
    exact absurd gone kept
  · rfl

theorem get_removeNilFields {fields : Fields} (unique : Unique fields) (key : String) :
    Assoc.get key (removeNilFields fields) = (Assoc.get key fields).bind keptValue := by
  induction fields with
  | nil => rfl
  | cons entry rest ih =>
    obtain ⟨head, value⟩ := entry
    have later := ih unique.tail
    by_cases gone : removeNilFieldsForValue value = .null
    · rw [removeNilFields_cons_of_null gone, later, Assoc.get_cons]
      split
      · rename_i same
        subst same
        simp [unique.fresh, keptValue_of_null gone]
      · rfl
    · rw [removeNilFields_cons gone, Assoc.get_cons, Assoc.get_cons, later]
      split
      · simp [keptValue_of_ne gone]
      · rfl

/-- The merged target, field by field. -/
theorem get_overlaid {src : Fields} (unique : Unique src) (tgt : Fields) (key : String) :
    Assoc.get key (overlaid src tgt) =
      match Assoc.get key src with
      | some value => overlay value (Assoc.get key tgt)
      | none => Assoc.get key tgt := by
  induction src generalizing tgt with
  | nil => rfl
  | cons entry rest ih =>
    obtain ⟨head, value⟩ := entry
    rw [overlaid, ih unique.tail, Assoc.get_cons, Assoc.get_put]
    by_cases same : head = key
    · subst same
      simp [unique.fresh]
    · simp [same]

mutual

theorem removeNilFieldsForValue_unique : ∀ value : Value, value.unique = true →
    (removeNilFieldsForValue value).unique = true
  | .obj fields, unique => by
    rw [removeNilFieldsForValue_obj]
    split
    · rfl
    · exact removeNilFields_unique fields unique
  | .null, unique | .bool _, unique | .num _, unique | .str _, unique | .arr _, unique => unique
termination_by structural value => value

theorem removeNilFields_unique : ∀ fields : Fields, Unique fields → Unique (removeNilFields fields)
  | [], unique => unique
  | (key, value) :: rest, unique => by
    have later := removeNilFields_unique rest unique.tail
    have here := removeNilFieldsForValue_unique value unique.head
    by_cases gone : removeNilFieldsForValue value = .null
    · rw [removeNilFields_cons_of_null gone]
      exact later
    · rw [removeNilFields_cons gone]
      refine later.cons here ?_
      rw [get_removeNilFields unique.tail, unique.fresh]
      rfl
termination_by structural fields => fields

end

mutual

theorem overlay_unique : ∀ (value : Value) (held : Option Value), value.unique = true →
    (∀ old, held = some old → old.unique = true) →
    ∀ new, overlay value held = some new → new.unique = true
  | .obj subSrc, some (.obj subTgt), unique, fine => by
    rintro new ⟨⟩
    exact overlaid_unique subSrc subTgt unique (fine _ rfl)
  | .obj subSrc, none, unique, _
  | .obj subSrc, some .null, unique, _
  | .obj subSrc, some (.bool _), unique, _
  | .obj subSrc, some (.num _), unique, _
  | .obj subSrc, some (.str _), unique, _
  | .obj subSrc, some (.arr _), unique, _ => by
    rintro new ⟨⟩
    exact removeNilFieldsForValue_unique (.obj subSrc) unique
  | .null, _, _, _ => by simp [overlay]
  | .bool _, _, unique, _
  | .num _, _, unique, _
  | .str _, _, unique, _
  | .arr _, _, unique, _ => by
    rintro new ⟨⟩
    exact unique
termination_by structural value => value

theorem overlaid_unique : ∀ src tgt : Fields, Unique src → Unique tgt → Unique (overlaid src tgt)
  | [], _, _, fine => fine
  | (key, value) :: rest, tgt, unique, fine =>
    overlaid_unique rest _ unique.tail
      (fine.put (overlay_unique value (Assoc.get key tgt) unique.head
        fun _ found => fine.value found))
termination_by structural src => src

end

end Tio.Shadow
