import Tio.Json.Value

namespace Tio.Json

open Tio.Core

/-- The value reached along a path of keys; the walk stops at anything that is
not an object. -/
def Value.walk : Value → List String → Option Value
  | value, [] => some value
  | .obj fields, key :: path =>
    match Assoc.get key fields with
    | some value => value.walk path
    | none => none
  | _, _ :: _ => none

/-- The value at the end of the path is a leaf. -/
def LeafAt (value : Value) (path : List String) (leaf : Value) : Prop :=
  value.walk path = some leaf ∧ leaf.isLeaf = true

/-- No path through the value ends in a leaf. -/
def Leafless (value : Value) : Prop := ∀ path leaf, ¬ LeafAt value path leaf

@[simp] theorem walk_nil (value : Value) : value.walk [] = some value := by
  cases value <;> rfl

theorem walk_obj_cons (fields : Fields) (key : String) (path : List String) :
    (Value.obj fields).walk (key :: path) =
      (Assoc.get key fields).bind fun value => value.walk path := by
  rw [Value.walk]
  cases Assoc.get key fields <;> rfl

theorem walk_cons_of_not_object {value : Value} (plain : value.isObject = false) (key : String)
    (path : List String) : value.walk (key :: path) = none := by
  cases value <;> first | rfl | simp [Value.isObject] at plain

theorem isObject_eq_true {value : Value} : value.isObject = true ↔ ∃ fields, value = .obj fields := by
  cases value <;> simp [Value.isObject]

theorem walk_append (value : Value) (front back : List String) :
    value.walk (front ++ back) = (value.walk front).bind fun middle => middle.walk back := by
  induction front generalizing value with
  | nil => simp
  | cons key rest ih =>
    cases value with
    | obj fields =>
      rw [List.cons_append, walk_obj_cons, walk_obj_cons]
      cases Assoc.get key fields with
      | none => rfl
      | some value => exact ih value
    | _ => rfl

theorem leafAt_obj_cons {fields : Fields} {key : String} {path : List String} {leaf : Value} :
    LeafAt (.obj fields) (key :: path) leaf ↔
      ∃ value, Assoc.get key fields = some value ∧ LeafAt value path leaf := by
  simp only [LeafAt, walk_obj_cons, Option.bind_eq_some_iff]
  constructor
  · rintro ⟨⟨value, found, reached⟩, fine⟩
    exact ⟨value, found, reached, fine⟩
  · rintro ⟨value, found, reached, fine⟩
    exact ⟨⟨value, found, reached⟩, fine⟩

theorem not_leafAt_obj_nil {fields : Fields} {leaf : Value} : ¬ LeafAt (.obj fields) [] leaf := by
  rintro ⟨reached, fine⟩
  simp only [walk_nil, Option.some.injEq] at reached
  simp [← reached, Value.isLeaf] at fine

theorem leafless_null : Leafless .null := by
  rintro (_ | ⟨key, path⟩) leaf ⟨reached, fine⟩
  · simp only [walk_nil, Option.some.injEq] at reached
    simp [← reached, Value.isLeaf] at fine
  · simp [Value.walk] at reached

theorem leafAt_self {value : Value} (fine : value.isLeaf = true) : LeafAt value [] value :=
  ⟨walk_nil value, fine⟩

theorem leafless_obj_iff {fields : Fields} :
    Leafless (.obj fields) ↔ ∀ key value, Assoc.get key fields = some value → Leafless value := by
  constructor
  · intro none key value found path leaf reached
    exact none (key :: path) leaf (leafAt_obj_cons.mpr ⟨value, found, reached⟩)
  · rintro each (_ | ⟨key, path⟩) leaf reached
    · exact not_leafAt_obj_nil reached
    · obtain ⟨value, found, onward⟩ := leafAt_obj_cons.mp reached
      exact each key value found path leaf onward

theorem isLeaf_of_not {value : Value} (notNull : value ≠ .null) (plain : value.isObject = false) :
    value.isLeaf = true := by
  cases value <;> simp_all [Value.isLeaf, Value.isObject]

end Tio.Json
