import Tio.Shadow.Leaves

namespace Tio.Shadow

open Tio.Core Tio.Json

/-- The value holds an object without leaves at a path where the held value has
objects all the way down to the parent but no object at the path itself. -/
def PlantsNull (value : Value) (held : Option Value) : Prop :=
  ∃ path, HollowAt value path ∧ ¬ ObjectAt held path ∧
    ∀ front key, path = front ++ [key] → ObjectAt held front

theorem plantsNull_obj_iff {src tgt : Fields} :
    PlantsNull (.obj src) (some (.obj tgt)) ↔
      ∃ key value, Assoc.get key src = some value ∧ PlantsNull value (Assoc.get key tgt) := by
  constructor
  · rintro ⟨_ | ⟨key, path⟩, hollow, bare, above⟩
    · exact absurd (objectAt_obj_nil tgt) bare
    · obtain ⟨value, found, below⟩ := hollowAt_obj_cons.mp hollow
      refine ⟨key, value, found, path, below, fun there => bare (objectAt_obj_cons.mpr there), ?_⟩
      intro front last split
      exact objectAt_obj_cons.mp (above (key :: front) last (by rw [split]; rfl))
  · rintro ⟨key, value, found, path, hollow, bare, above⟩
    refine ⟨key :: path, hollowAt_obj_cons.mpr ⟨value, found, hollow⟩,
      fun there => bare (objectAt_obj_cons.mp there), ?_⟩
    rintro (_ | ⟨head, front⟩) last split
    · exact objectAt_obj_nil tgt
    · obtain ⟨rfl, rest⟩ := List.cons.inj split
      exact objectAt_obj_cons.mpr (above front last rest)

/-- Where the held value is no object, only the value itself can plant a null. -/
theorem plantsNull_bare_iff {value : Value} {held : Option Value}
    (plain : ∀ fields, held ≠ some (.obj fields)) :
    PlantsNull value held ↔ HollowAt value [] := by
  constructor
  · rintro ⟨path, hollow, -, above⟩
    rcases List.eq_nil_or_concat path with rfl | ⟨front, last, rfl⟩
    · exact hollow
    · exact absurd (above front last (List.concat_eq_append ..)) (not_objectAt plain front)
  · intro hollow
    exact ⟨[], hollow, not_objectAt plain [], by simp⟩

private theorem overlay_bare {value : Value} {held : Option Value} (unique : value.unique = true)
    (plain : ∀ fields, held ≠ some (.obj fields)) {new : Value}
    (left : overlay value held = some new) : NullFree new ↔ ¬ PlantsNull value held := by
  rw [plantsNull_bare_iff plain]
  cases value with
  | null => cases left
  | obj fields =>
    have stored : removeNilFieldsForValue (.obj fields) = new := by
      rcases held with _ | (_ | _ | _ | _ | _ | below)
      case some.obj => exact absurd rfl (plain below)
      all_goals exact Option.some.inj left
    rw [hollowAt_obj_nil, ← stored]
    by_cases none : Leafless (.obj fields)
    · rw [(removeNilFieldsForValue_eq_null unique).mpr none]
      exact iff_of_false not_nullFree_null fun apart => apart none
    · rw [removeNilFieldsForValue_of_leaf unique none]
      exact iff_of_true (nullFree_removeNilFields unique) none
  | bool | num | str | arr =>
    cases left
    exact iff_of_true (nullFree_of_leaf rfl) (not_hollowAt_of_not_object rfl [])

/-- A merge stores a null exactly when the source plants one. -/
theorem nullFree_overlaid_iff {src tgt : Fields} (unique : Unique src)
    (free : NullFree (.obj tgt)) :
    NullFree (.obj (overlaid src tgt)) ↔ ¬ PlantsNull (.obj src) (some (.obj tgt)) := by
  suffices each : ∀ value : Value, value.unique = true → ∀ held : Option Value,
      (∀ old, held = some old → NullFree old) →
      ((∀ new, overlay value held = some new → NullFree new) ↔ ¬ PlantsNull value held) from by
    have whole := each (.obj src) unique (some (.obj tgt)) (by rintro old ⟨⟩; exact free)
    simpa [overlay] using whole
  intro value
  induction value using Value.object_induction with
  | leaf value plain =>
    intro unique held old
    have calm : ¬ PlantsNull value held := by
      rintro ⟨path, hollow, -⟩
      exact not_hollowAt_of_not_object plain path hollow
    refine iff_of_true ?_ calm
    intro new left
    cases value with
    | null => cases left
    | obj fields => cases plain
    | bool | num | str | arr =>
      cases left
      exact nullFree_of_leaf rfl
  | obj fields ih =>
    intro unique held old
    by_cases whole : ∃ below, held = some (.obj below)
    · obtain ⟨below, rfl⟩ := whole
      have clean := nullFree_obj_iff.mp (old _ rfl)
      have fieldwise : NullFree (.obj (overlaid fields below)) ↔
          ∀ key value, Assoc.get key fields = some value →
            ∀ new, overlay value (Assoc.get key below) = some new → NullFree new := by
        rw [nullFree_obj_iff]
        constructor
        · intro each key value found new left
          refine each key new ?_
          rw [get_overlaid unique, found]
          exact left
        · intro each key new left
          rw [get_overlaid unique] at left
          split at left
          · rename_i value found
            exact each key value found new left
          · exact clean key new left
      have step : ∀ key value, Assoc.get key fields = some value →
          ((∀ new, overlay value (Assoc.get key below) = some new → NullFree new) ↔
            ¬ PlantsNull value (Assoc.get key below)) := fun key value found =>
        ih key value (Assoc.mem_of_get found) (Unique.value unique found) _ (clean key)
      rw [plantsNull_obj_iff]
      simp only [overlay, Option.some.injEq, forall_eq']
      rw [fieldwise]
      constructor
      · rintro each ⟨key, value, found, planted⟩
        exact (step key value found).mp (each key value found) planted
      · intro calm key value found
        exact (step key value found).mpr fun planted => calm ⟨key, value, found, planted⟩
    · have plain : ∀ below, held ≠ some (.obj below) := fun below same => whole ⟨below, same⟩
      have stored : ∃ new, overlay (.obj fields) held = some new := by
        rcases held with _ | (_ | _ | _ | _ | _ | below)
        case some.obj => exact absurd rfl (plain below)
        all_goals exact ⟨_, rfl⟩
      obtain ⟨new, left⟩ := stored
      rw [← overlay_bare unique plain left]
      simp [left]

end Tio.Shadow
