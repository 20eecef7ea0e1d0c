import Tio.Shadow.Delta

namespace Tio.Shadow

open Tio.Core Tio.Json

/-- Wherever the desired value holds an object without leaves, an object is held. -/
def Anchored (desired : Value) (held : Option Value) : Prop :=
  ∀ path, HollowAt desired path → ObjectAt held path

/-- What is held under a key once the difference there has been merged in. -/
def caughtUp (desired : Value) (held : Option Value) : Option Value :=
  match difference desired (held.getD .null) with
  | some delta => overlay delta held
  | none => held

theorem caughtUp_same {desired : Value} {held : Option Value}
    (same : difference desired (held.getD .null) = none) : caughtUp desired held = held := by
  rw [caughtUp, same]

theorem caughtUp_differs {desired delta : Value} {held : Option Value}
    (differs : difference desired (held.getD .null) = some delta) :
    caughtUp desired held = overlay delta held := by
  rw [caughtUp, differs]

theorem get_caughtUp {desired reported : Fields} (unique : Unique desired) (key : String) :
    Assoc.get key (overlaid (differences desired reported) reported) =
      match Assoc.get key desired with
      | some value => caughtUp value (Assoc.get key reported)
      | none => Assoc.get key reported := by
  rw [get_overlaid (differences_unique desired reported unique), get_differences unique]
  cases Assoc.get key desired with
  | none => rfl
  | some value => rfl

theorem differences_eq_nil_iff {targets source : Fields} (unique : Unique targets) :
    differences targets source = [] ↔ ∀ key target, Assoc.get key targets = some target →
      difference target ((Assoc.get key source).getD .null) = none := by
  rw [Assoc.eq_nil_iff_get]
  simp only [get_differences unique]
  constructor
  · intro gone key target found
    have here := gone key
    rwa [found] at here
  · intro same key
    cases found : Assoc.get key targets with
    | none => rfl
    | some target => exact same key target found

theorem difference_null (source : Value) : difference .null source = none := by
  rw [difference_atom rfl]
  split <;> rfl

theorem difference_self_of_leaf {value : Value} (fine : value.isLeaf = true)
    (unique : value.unique = true) : difference value value = none := by
  cases value with
  | arr items => rw [difference_arr, deepEqual_refl _ unique, if_pos rfl]
  | bool | num | str =>
    rw [difference_atom rfl, if_pos]
    simp [equalScalar]
  | null | obj => cases fine

/-- Only a leaf that is not held already makes a difference, and it is then held. -/
theorem difference_caughtUp_of_leaf {value : Value} (fine : value.isLeaf = true)
    (unique : value.unique = true) (held : Option Value) :
    difference value ((caughtUp value held).getD .null) = none := by
  cases differs : difference value (held.getD .null) with
  | none => rw [caughtUp_same differs, differs]
  | some delta =>
    have whole : delta = value ∧ overlay value held = some value := by
      cases value with
      | arr items =>
        rw [difference_arr] at differs
        split at differs
        · cases differs
        · exact ⟨(Option.some.inj differs).symm, by cases held <;> rfl⟩
      | bool | num | str =>
        rw [difference_atom rfl] at differs
        split at differs
        · cases differs
        · exact ⟨(notNil_eq_some.mp differs).2.symm, by cases held <;> rfl⟩
      | null | obj => cases fine
    rw [caughtUp_differs differs, whole.1, whole.2]
    exact difference_self_of_leaf fine unique

/-- A value differs from what stripping keeps of it by its objects without leaves. -/
theorem difference_keptValue_iff {value : Value} (unique : value.unique = true) :
    difference value ((keptValue value).getD .null) = none ↔ ∀ path, ¬ HollowAt value path := by
  induction value using Value.object_induction with
  | leaf value plain =>
    refine iff_of_true ?_ (not_hollowAt_of_not_object plain)
    by_cases null : value = .null
    · subst null
      exact difference_null _
    · have fine := isLeaf_of_not null plain
      have same := removeNilFieldsForValue_of_not_object plain
      rw [keptValue_of_ne (by rw [same]; exact null), same]
      exact difference_self_of_leaf fine unique
  | obj fields ih =>
    by_cases none : Leafless (.obj fields)
    · rw [keptValue_of_null ((removeNilFieldsForValue_eq_null unique).mpr none)]
      refine iff_of_false ?_ fun solid => solid [] (hollowAt_obj_nil.mpr none)
      simp [difference]
    · have stripped := removeNilFieldsForValue_of_leaf unique none
      rw [keptValue_of_ne (by rw [stripped]; simp), stripped]
      change difference (.obj fields) (.obj (removeNilFields fields)) = .none ↔ _
      rw [difference_obj, created_eq_none, differences_eq_nil_iff unique]
      simp only [get_removeNilFields unique]
      constructor
      · rintro same (_ | ⟨key, path⟩) hollow
        · exact none (hollowAt_obj_nil.mp hollow)
        · obtain ⟨value, found, below⟩ := hollowAt_obj_cons.mp hollow
          have here := same key value found
          rw [found] at here
          exact (ih key value (Assoc.mem_of_get found) (Unique.value unique found)).mp here path below
      · intro solid key value found
        rw [found]
        refine (ih key value (Assoc.mem_of_get found) (Unique.value unique found)).mpr ?_
        exact fun path hollow => solid (key :: path) (hollowAt_obj_cons.mpr ⟨value, found, hollow⟩)

theorem anchored_obj_iff {desired held : Fields} :
    Anchored (.obj desired) (some (.obj held)) ↔ ∀ key value,
      Assoc.get key desired = some value → Anchored value (Assoc.get key held) := by
  constructor
  · intro anchored key value found path hollow
    exact objectAt_obj_cons.mp
      (anchored (key :: path) (hollowAt_obj_cons.mpr ⟨value, found, hollow⟩))
  · rintro each (_ | ⟨key, path⟩) hollow
    · exact objectAt_obj_nil held
    · obtain ⟨value, found, below⟩ := hollowAt_obj_cons.mp hollow
      exact objectAt_obj_cons.mpr (each key value found path below)

theorem caughtUp_obj (desired held : Fields) : caughtUp (.obj desired) (some (.obj held)) =
    some (.obj (overlaid (differences desired held) held)) := by
  cases differs : differences desired held with
  | nil =>
    rw [caughtUp_same]
    · rfl
    · rw [Option.getD_some, difference_obj, differs]
      rfl
  | cons entry rest =>
    have delta : difference (.obj desired) ((some (.obj held)).getD .null) =
        some (.obj (entry :: rest)) := by
      rw [Option.getD_some, difference_obj, differs]
      rfl
    rw [caughtUp_differs delta]
    rfl

theorem caughtUp_bare {desired : Fields} {held : Option Value}
    (plain : ∀ fields, held ≠ some (.obj fields)) :
    caughtUp (.obj desired) held = some (removeNilFieldsForValue (.obj desired)) := by
  have whole : (held.getD .null).isObject = false := by
    rcases held with _ | (_ | _ | _ | _ | _ | below)
    case some.obj => exact absurd rfl (plain below)
    all_goals rfl
  rw [caughtUp_differs (difference_obj_bare whole)]
  rcases held with _ | (_ | _ | _ | _ | _ | below)
  case some.obj => exact absurd rfl (plain below)
  all_goals rfl

/-- After the difference was merged in, nothing differs exactly when every object
without leaves is anchored. -/
theorem difference_caughtUp_iff {value : Value} (unique : value.unique = true)
    (held : Option Value) :
    difference value ((caughtUp value held).getD .null) = none ↔ Anchored value held := by
  induction value using Value.object_induction generalizing held with
  | leaf value plain =>
    refine iff_of_true ?_ fun path hollow => absurd hollow (not_hollowAt_of_not_object plain path)
    by_cases null : value = .null
    · subst null
      exact difference_null _
    · exact difference_caughtUp_of_leaf (isLeaf_of_not null plain) unique held
  | obj fields ih =>
    by_cases whole : ∃ below, held = some (.obj below)
    · obtain ⟨below, rfl⟩ := whole
      rw [caughtUp_obj, Option.getD_some, difference_obj, created_eq_none,
        differences_eq_nil_iff unique, anchored_obj_iff]
      simp only [get_caughtUp unique]
      constructor
      · intro same key value found
        have here := same key value found
        rw [found] at here
        exact (ih key value (Assoc.mem_of_get found) (Unique.value unique found) _).mp here
      · intro anchored key value found
        rw [found]
        exact (ih key value (Assoc.mem_of_get found) (Unique.value unique found) _).mpr
          (anchored key value found)
    · have plain : ∀ below, held ≠ some (.obj below) := fun below same => whole ⟨below, same⟩
      have bare : Anchored (.obj fields) held ↔ ∀ path, ¬ HollowAt (.obj fields) path :=
        ⟨fun anchored path hollow => not_objectAt plain path (anchored path hollow),
          fun solid path hollow => absurd hollow (solid path)⟩
      rw [caughtUp_bare plain, bare, ← difference_keptValue_iff unique, Option.getD_some]
      by_cases gone : removeNilFieldsForValue (.obj fields) = .null
      · rw [gone, keptValue_of_null gone, Option.getD_none]
      · rw [keptValue_of_ne gone, Option.getD_some]

/-- The document form: once the device has merged the delta into its reported
document, the delta is empty exactly when the desired document is anchored. -/
theorem differences_caughtUp_iff {desired : Fields} (unique : Unique desired) (reported : Fields) :
    differences desired (overlaid (differences desired reported) reported) = [] ↔
      Anchored (.obj desired) (some (.obj reported)) := by
  have whole : (Value.obj desired).unique = true := unique
  rw [← difference_caughtUp_iff whole, caughtUp_obj, Option.getD_some,
    difference_obj, created_eq_none]

end Tio.Shadow
