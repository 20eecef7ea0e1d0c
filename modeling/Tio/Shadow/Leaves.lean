import Tio.Shadow.Merge

namespace Tio.Shadow

open Tio.Core Tio.Json

/-- No null is reached through objects. -/
def NullFree (value : Value) : Prop := ∀ path, value.walk path ≠ some .null

/-- An object stands at the path and no leaf is below it. -/
def HollowAt (value : Value) (path : List String) : Prop :=
  ∃ fields, value.walk path = some (.obj fields) ∧ Leafless (.obj fields)

/-- An object stands at the path. -/
def ObjectAt (held : Option Value) (path : List String) : Prop :=
  ∃ value fields, held = some value ∧ value.walk path = some (.obj fields)

theorem nullFree_obj_iff {fields : Fields} :
    NullFree (.obj fields) ↔ ∀ key value, Assoc.get key fields = some value → NullFree value := by
  constructor
  · intro free key value found path reached
    exact free (key :: path) (by rw [walk_obj_cons, found]; exact reached)
  · rintro each (_ | ⟨key, path⟩) reached
    · simp at reached
    · rw [walk_obj_cons, Option.bind_eq_some_iff] at reached
      obtain ⟨value, found, onward⟩ := reached
      exact each key value found path onward

theorem nullFree_of_leaf {value : Value} (fine : value.isLeaf = true) : NullFree value := by
  rintro (_ | ⟨key, path⟩) reached
  · simp only [walk_nil, Option.some.injEq] at reached
    simp [reached, Value.isLeaf] at fine
  · rw [walk_cons_of_not_object] at reached
    · cases reached
    · cases value <;> simp_all [Value.isLeaf, Value.isObject]

theorem not_nullFree_null : ¬ NullFree .null := fun free => free [] (walk_nil _)

theorem hollowAt_obj_cons {fields : Fields} {key : String} {path : List String} :
    HollowAt (.obj fields) (key :: path) ↔
      ∃ value, Assoc.get key fields = some value ∧ HollowAt value path := by
  simp only [HollowAt, walk_obj_cons, Option.bind_eq_some_iff]
  constructor
  · rintro ⟨below, ⟨value, found, reached⟩, none⟩
    exact ⟨value, found, below, reached, none⟩
  · rintro ⟨value, found, below, reached, none⟩
    exact ⟨below, ⟨value, found, reached⟩, none⟩

theorem hollowAt_obj_nil {fields : Fields} : HollowAt (.obj fields) [] ↔ Leafless (.obj fields) := by
  simp [HollowAt]

theorem not_hollowAt_of_not_object {value : Value} (plain : value.isObject = false)
    (path : List String) : ¬ HollowAt value path := by
  rintro ⟨fields, reached, -⟩
  cases path with
  | nil =>
    simp only [walk_nil, Option.some.injEq] at reached
    simp [reached, Value.isObject] at plain
  | cons key path =>
    rw [walk_cons_of_not_object plain] at reached
    cases reached

theorem objectAt_obj_nil (fields : Fields) : ObjectAt (some (.obj fields)) [] :=
  ⟨_, fields, rfl, walk_nil _⟩

theorem objectAt_obj_cons {fields : Fields} {key : String} {path : List String} :
    ObjectAt (some (.obj fields)) (key :: path) ↔ ObjectAt (Assoc.get key fields) path := by
  simp only [ObjectAt, Option.some.injEq]
  constructor
  · rintro ⟨value, below, rfl, reached⟩
    rw [walk_obj_cons, Option.bind_eq_some_iff] at reached
    obtain ⟨value, found, onward⟩ := reached
    exact ⟨value, below, found, onward⟩
  · rintro ⟨value, below, found, onward⟩
    exact ⟨_, below, rfl, by rw [walk_obj_cons, found]; exact onward⟩

/-- Below anything but an object there is no object. -/
theorem not_objectAt {held : Option Value} (plain : ∀ fields, held ≠ some (.obj fields))
    (path : List String) : ¬ ObjectAt held path := by
  rintro ⟨value, fields, rfl, reached⟩
  cases path with
  | nil =>
    simp only [walk_nil, Option.some.injEq] at reached
    exact plain fields (by rw [reached])
  | cons key path =>
    rw [walk_cons_of_not_object] at reached
    · cases reached
    · cases value <;> first | rfl | exact absurd rfl (plain _)

theorem keptValue_eq_some {value kept : Value} :
    keptValue value = some kept ↔ removeNilFieldsForValue value = kept ∧ kept ≠ .null := by
  by_cases gone : removeNilFieldsForValue value = .null
  · rw [keptValue_of_null gone]
    constructor
    · rintro ⟨⟩
    · rintro ⟨same, notNull⟩
      exact absurd (same.symm.trans gone) notNull
  · rw [keptValue_of_ne gone, Option.some.injEq]
    constructor
    · rintro rfl
      exact ⟨rfl, gone⟩
    · exact And.left

/-- Only a value without leaves is stripped to `nil`. -/
theorem removeNilFieldsForValue_eq_null {value : Value} (unique : value.unique = true) :
    removeNilFieldsForValue value = .null ↔ Leafless value := by
  induction value using Value.object_induction with
  | leaf value plain =>
    rw [removeNilFieldsForValue_of_not_object plain]
    constructor
    · rintro rfl
      exact leafless_null
    · intro none
      by_contra notNull
      exact none [] value (leafAt_self (isLeaf_of_not notNull plain))
  | obj fields ih =>
    rw [removeNilFieldsForValue_obj, leafless_obj_iff]
    have emptied : removeNilFields fields = [] ↔
        ∀ key value, Assoc.get key fields = some value → Leafless value := by
      rw [Assoc.eq_nil_iff_get]
      constructor
      · intro gone key value found
        have lost := gone key
        rw [get_removeNilFields unique, found, Option.bind_some] at lost
        refine (ih key value (Assoc.mem_of_get found) (Unique.value unique found)).mp ?_
        by_contra kept
        rw [keptValue_of_ne kept] at lost
        cases lost
      · intro each key
        rw [get_removeNilFields unique]
        cases found : Assoc.get key fields with
        | none => rfl
        | some value =>
          exact keptValue_of_null
            ((ih key value (Assoc.mem_of_get found) (Unique.value unique found)).mpr
              (each key value found))
    rw [← emptied]
    split
    · rename_i empty
      simpa using empty
    · rename_i some
      simpa using some

theorem removeNilFields_eq_nil {fields : Fields} (unique : Unique fields) :
    removeNilFields fields = [] ↔ Leafless (.obj fields) := by
  rw [← removeNilFieldsForValue_eq_null unique, removeNilFieldsForValue_obj]
  cases removeNilFields fields <;> simp

/-- Stripping an object that holds a leaf answers the object without its nulls. -/
theorem removeNilFieldsForValue_of_leaf {fields : Fields} (unique : Unique fields)
    (some : ¬ Leafless (.obj fields)) :
    removeNilFieldsForValue (.obj fields) = .obj (removeNilFields fields) := by
  rw [removeNilFieldsForValue_obj, if_neg]
  rw [List.isEmpty_iff, removeNilFields_eq_nil unique]
  exact some

theorem leafAt_removeNilFieldsForValue {value : Value} (unique : value.unique = true)
    (path : List String) (leaf : Value) :
    LeafAt (removeNilFieldsForValue value) path leaf ↔ LeafAt value path leaf := by
  induction value using Value.object_induction generalizing path with
  | leaf value plain => rw [removeNilFieldsForValue_of_not_object plain]
  | obj fields ih =>
    by_cases none : Leafless (.obj fields)
    · rw [(removeNilFieldsForValue_eq_null unique).mpr none]
      exact iff_of_false (leafless_null path leaf) (none path leaf)
    · rw [removeNilFieldsForValue_of_leaf unique none]
      cases path with
      | nil => exact iff_of_false not_leafAt_obj_nil not_leafAt_obj_nil
      | cons key path =>
        simp only [leafAt_obj_cons, get_removeNilFields unique, Option.bind_eq_some_iff,
          keptValue_eq_some]
        constructor
        · rintro ⟨_, ⟨value, found, rfl, -⟩, reached⟩
          exact ⟨value, found,
            (ih key value (Assoc.mem_of_get found) (Unique.value unique found) path).mp reached⟩
        · rintro ⟨value, found, reached⟩
          have kept :=
            (ih key value (Assoc.mem_of_get found) (Unique.value unique found) path).mpr reached
          refine ⟨_, ⟨value, found, rfl, ?_⟩, kept⟩
          intro gone
          rw [gone] at kept
          exact leafless_null path leaf kept

theorem nullFree_removeNilFields {fields : Fields} (unique : Unique fields) :
    NullFree (.obj (removeNilFields fields)) := by
  suffices kept : ∀ value : Value, value.unique = true →
      removeNilFieldsForValue value ≠ .null → NullFree (removeNilFieldsForValue value) by
    by_cases none : Leafless (.obj fields)
    · rw [(removeNilFields_eq_nil unique).mpr none, nullFree_obj_iff]
      simp
    · rw [← removeNilFieldsForValue_of_leaf unique none]
      exact kept _ unique fun gone => none ((removeNilFieldsForValue_eq_null unique).mp gone)
  intro value
  induction value using Value.object_induction with
  | leaf value plain =>
    intro _ notNull
    rw [removeNilFieldsForValue_of_not_object plain] at notNull ⊢
    exact nullFree_of_leaf (isLeaf_of_not notNull plain)
  | obj fields ih =>
    intro unique notNull
    have some : ¬ Leafless (.obj fields) := fun none =>
      notNull ((removeNilFieldsForValue_eq_null unique).mpr none)
    rw [removeNilFieldsForValue_of_leaf unique some, nullFree_obj_iff]
    intro key kept found
    rw [get_removeNilFields unique, Option.bind_eq_some_iff] at found
    obtain ⟨value, held, stays⟩ := found
    obtain ⟨rfl, apart⟩ := keptValue_eq_some.mp stays
    exact ih key value (Assoc.mem_of_get held) (Unique.value unique held) apart

end Tio.Shadow
