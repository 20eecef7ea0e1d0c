import Tio.Shadow.Mirror

namespace Tio.Shadow

open Tio.Core Tio.Json

/-- The walk along the path stops at a key that an object lacks. -/
def Untouched : Value → List String → Prop
  | .obj fields, key :: path =>
    match Assoc.get key fields with
    | some value => Untouched value path
    | none => True
  | _, _ => False

theorem untouched_obj_cons {fields : Fields} {key : String} {path : List String} :
    Untouched (.obj fields) (key :: path) ↔
      ∀ value, Assoc.get key fields = some value → Untouched value path := by
  rw [Untouched]
  cases Assoc.get key fields with
  | none => simp
  | some value => simp

theorem not_untouched_nil (value : Value) : ¬ Untouched value [] := by
  cases value <;> simp [Untouched]

theorem not_untouched_of_not_object {value : Value} (plain : value.isObject = false)
    (path : List String) : ¬ Untouched value path := by
  cases value with
  | obj => cases plain
  | _ => simp [Untouched]

mutual

/-- Whatever the metadata, a merged field leaves its overlay in the target. -/
theorem mergeField_tgt : ∀ (clock : Clock) (key : String) (value : Value) (maps next : MergeMaps),
    mergeField clock key value maps = .ok next →
      next.tgt = Assoc.put key (overlay value (Assoc.get key maps.tgt)) maps.tgt
  | _, key, .null, maps, next, merged => by
    cases merged
    rfl
  | clock, key, .obj src, maps, next, merged => by
    by_cases whole : ∃ tgt, Assoc.get key maps.tgt = some (.obj tgt)
    · obtain ⟨tgt, held⟩ := whole
      rw [mergeField, held] at merged
      obtain ⟨stamps, -, looping⟩ := bind_eq_ok.mp merged
      obtain ⟨sub, looped, done⟩ := bind_eq_ok.mp looping
      have below := mergeLoop_tgt (clock.under key) src ⟨tgt, stamps, []⟩ sub looped
      rw [held, overlay, ← below]
      split at done <;> cases done <;> rfl
    · have plain : ∀ fields, Assoc.get key maps.tgt ≠ some (.obj fields) :=
        fun fields held => whole ⟨fields, held⟩
      rw [mergeField_obj_bare plain] at merged
      rw [overlay_bare_obj plain]
      cases merged
      rfl
  | clock, key, .bool _, maps, next, merged | clock, key, .num _, maps, next, merged
  | clock, key, .str _, maps, next, merged | clock, key, .arr _, maps, next, merged => by
    cases merged
    rfl
termination_by structural _ _ value => value

theorem mergeLoop_tgt : ∀ (clock : Clock) (src : Fields) (maps next : MergeMaps),
    mergeLoop clock src maps = .ok next → next.tgt = overlaid src maps.tgt
  | _, [], maps, next, merged => by
    cases merged
    rfl
  | clock, (key, value) :: rest, maps, next, merged => by
    obtain ⟨middle, stepped, looped⟩ := bind_eq_ok.mp merged
    rw [overlaid, ← mergeField_tgt clock key value maps middle stepped]
    exact mergeLoop_tgt clock rest middle next looped
termination_by structural _ src => src

end

/-- The target after a merge that met no panic, whatever the metadata. -/
theorem mergeState_tgt {clock : Clock} {tgt src : Fields} {allMeta updatedMeta : GoMap}
    {merged : GoMap × GoMap × GoMap}
    (done : mergeState clock (some tgt) src allMeta updatedMeta = .ok merged) :
    merged.1 = some (overlaid src tgt) := by
  rw [mergeState, deepCopyMap_eq] at done
  obtain ⟨⟨held, am, um⟩, looping, done⟩ := bind_eq_ok.mp done
  cases done
  obtain ⟨maps, looped, done⟩ := bind_eq_ok.mp looping
  cases done
  exact congrArg some (mergeLoop_tgt clock src _ maps looped)

/-- The value under one key of the target after the merge, leaf by leaf. -/
theorem leafAt_overlay {value : Value} (unique : value.unique = true) (held : Option Value)
    (path : List String) (leaf : Value) :
    (∃ new, overlay value held = some new ∧ LeafAt new path leaf) ↔
      LeafAt value path leaf ∨ (∃ old, held = some old ∧ LeafAt old path leaf) ∧ Untouched value path := by
  induction value using Value.object_induction generalizing held path with
  | leaf value plain =>
    have touched := not_untouched_of_not_object plain path
    by_cases null : value = .null
    · subst null
      have gone := leafless_null path leaf
      simp [overlay, gone, touched]
    · have fine := isLeaf_of_not null plain
      simp [overlay_leaf fine, touched]
  | obj src ih =>
    by_cases whole : ∃ tgt, held = some (.obj tgt)
    · obtain ⟨tgt, rfl⟩ := whole
      rw [overlay]
      simp only [Option.some.injEq, exists_eq_left']
      cases path with
      | nil => simp [not_leafAt_obj_nil, not_untouched_nil]
      | cons key path =>
        rw [leafAt_obj_cons, leafAt_obj_cons, leafAt_obj_cons, untouched_obj_cons, get_overlaid unique]
        cases found : Assoc.get key src with
        | none => simp
        | some value =>
          have below := ih key value (Assoc.mem_of_get found) (Unique.value unique found)
            (Assoc.get key tgt) path
          simpa using below
    · have plain : ∀ tgt, held ≠ some (.obj tgt) := fun tgt same => whole ⟨tgt, same⟩
      rw [overlay_bare_obj plain]
      simp only [Option.some.injEq, exists_eq_left', leafAt_removeNilFieldsForValue unique]
      refine ⟨.inl, fun either => either.resolve_right ?_⟩
      -- a value that is no object has a leaf at the empty path only
      rintro ⟨⟨old, rfl, reached, -⟩, stops⟩
      cases path with
      | nil => exact not_untouched_nil _ stops
      | cons key path =>
        rw [walk_cons_of_not_object] at reached
        · cases reached
        · cases old with
          | obj fields => exact absurd rfl (plain fields)
          | _ => rfl

/-- The leaves of the target after the merge. -/
theorem leafAt_overlaid {src tgt : Fields} (unique : Unique src) (path : List String) (leaf : Value) :
    LeafAt (.obj (overlaid src tgt)) path leaf ↔
      LeafAt (.obj src) path leaf ∨ LeafAt (.obj tgt) path leaf ∧ Untouched (.obj src) path := by
  have whole : (Value.obj src).unique = true := unique
  simpa [overlay] using leafAt_overlay whole (some (.obj tgt)) path leaf

end Tio.Shadow
