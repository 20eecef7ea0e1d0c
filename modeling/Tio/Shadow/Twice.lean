import Mathlib.Data.List.Induction
import Tio.Shadow.Meaning

namespace Tio.Shadow

open Tio.Core Tio.Json

theorem put_get (key : String) (fields : Fields) : Assoc.put key (Assoc.get key fields) fields = fields := by
  cases held : Assoc.get key fields with
  | none => exact Assoc.erase_of_fresh (Assoc.get_eq_none_iff.mp held)
  | some value => exact Assoc.set_of_get held

/-- A merge leaves the target exactly when it leaves each of its fields. -/
theorem overlaid_eq_self_iff {src : Fields} (unique : Unique src) (tgt : Fields) :
    overlaid src tgt = tgt ↔ ∀ key value, Assoc.get key src = some value →
      overlay value (Assoc.get key tgt) = Assoc.get key tgt := by
  constructor
  · intro same key value found
    have here := get_overlaid unique tgt key
    rw [same, found] at here
    exact here.symm
  · intro each
    induction src with
    | nil => rfl
    | cons entry rest ih =>
      obtain ⟨head, first⟩ := entry
      have here := each head first (by rw [Assoc.get_cons, if_pos rfl])
      rw [overlaid, here, put_get]
      refine ih unique.tail fun key value found => each key value ?_
      rw [Assoc.get_cons, if_neg]
      · exact found
      · rintro rfl
        rw [unique.fresh] at found
        cases found

/-- A second merge of the value does not change what the first one left. -/
def Repeats (value : Value) (held : Option Value) : Prop :=
  overlay value (overlay value held) = overlay value held

/-- A second merge of the value puts a null where the first one left nothing. -/
def Regrows (value : Value) (held : Option Value) : Prop :=
  ∃ path again, overlay value (overlay value held) = some again ∧ again.walk path = some .null ∧
    ∀ once, overlay value held = some once → once.walk path = none

/-- Where the value has an object without leaves as a field of an object with leaves,
an object is held at the path of the latter. -/
def Settled (value : Value) (held : Option Value) : Prop :=
  ∀ front key, HollowAt value (front ++ [key]) → ¬ HollowAt value front → ObjectAt held front

theorem settled_obj_iff {src tgt : Fields} :
    Settled (.obj src) (some (.obj tgt)) ↔ ∀ key value, Assoc.get key src = some value →
      Settled value (Assoc.get key tgt) := by
  constructor
  · intro settled key value found front last hollow solid
    refine objectAt_obj_cons.mp (settled (key :: front) last ?_ ?_)
    · exact hollowAt_obj_cons.mpr ⟨value, found, hollow⟩
    · intro above
      obtain ⟨other, found', below⟩ := hollowAt_obj_cons.mp above
      rw [found] at found'
      cases found'
      exact solid below
  · rintro each (_ | ⟨key, front⟩) last hollow solid
    · exact objectAt_obj_nil tgt
    · obtain ⟨value, found, below⟩ := hollowAt_obj_cons.mp hollow
      refine objectAt_obj_cons.mpr (each key value found front last below fun above => solid ?_)
      exact hollowAt_obj_cons.mpr ⟨value, found, above⟩

/-- What lies below an object without leaves has none either. -/
theorem hollowAt_front {value : Value} {front back : List String}
    (hollow : HollowAt value (front ++ back)) (none : Leafless value) : HollowAt value front := by
  obtain ⟨fields, reached, -⟩ := hollow
  rw [walk_append, Option.bind_eq_some_iff] at reached
  obtain ⟨middle, there, onward⟩ := reached
  have object : middle.isObject = true := by
    by_contra plain
    rw [Bool.not_eq_true] at plain
    cases back with
    | nil =>
      rw [walk_nil, Option.some.injEq] at onward
      rw [onward] at plain
      cases plain
    | cons key path =>
      rw [walk_cons_of_not_object plain] at onward
      cases onward
  obtain ⟨fields', rfl⟩ := isObject_eq_true.mp object
  refine ⟨fields', there, fun path leaf reached => none (front ++ path) leaf ⟨?_, reached.2⟩⟩
  rw [walk_append, there]
  exact reached.1

theorem settled_bare_iff {value : Value} {held : Option Value} (plain : ∀ fields, held ≠ some (.obj fields)) :
    Settled value held ↔ ∀ front key, HollowAt value (front ++ [key]) → HollowAt value front := by
  constructor
  · intro settled front key hollow
    by_contra solid
    exact not_objectAt plain front (settled front key hollow solid)
  · intro each front key hollow solid
    exact absurd (each front key hollow) solid

/-- In an object with a leaf the first object without leaves on a path has a parent
that has one. -/
theorem no_hollow_iff {fields : Fields} (some : ¬ Leafless (.obj fields)) :
    (∀ front key, HollowAt (.obj fields) (front ++ [key]) → HollowAt (.obj fields) front) ↔
      ∀ path, ¬ HollowAt (.obj fields) path := by
  constructor
  · intro each path
    induction path using List.reverseRecOn with
    | nil => exact fun hollow => some (hollowAt_obj_nil.mp hollow)
    | append_singleton front key ih => exact fun hollow => ih (each front key hollow)
  · intro none front key hollow
    exact absurd hollow (none _)

theorem hollow_fields_iff {fields : Fields} (some : ¬ Leafless (.obj fields)) :
    (∀ path, ¬ HollowAt (.obj fields) path) ↔ ∀ key value, Assoc.get key fields = .some value →
      ∀ path, ¬ HollowAt value path := by
  constructor
  · intro none key value found path hollow
    exact none (key :: path) (hollowAt_obj_cons.mpr ⟨value, found, hollow⟩)
  · rintro each (_ | ⟨key, path⟩) hollow
    · exact some (hollowAt_obj_nil.mp hollow)
    · obtain ⟨value, found, below⟩ := hollowAt_obj_cons.mp hollow
      exact each key value found path below

/-- Merging a value into what stripping keeps of it changes nothing, unless the value
has an object without leaves, which then comes back as a null. -/
theorem overlay_keptValue {value : Value} (unique : value.unique = true) :
    (overlay value (keptValue value) = keptValue value ∧ ∀ path, ¬ HollowAt value path) ∨
      ((∃ path, HollowAt value path) ∧ ∃ path again, overlay value (keptValue value) = some again ∧
        again.walk path = some .null ∧ ∀ once, keptValue value = some once → once.walk path = none) := by
  induction value using Value.object_induction with
  | leaf value plain =>
    refine .inl ⟨?_, not_hollowAt_of_not_object plain⟩
    by_cases null : value = .null
    · subst null
      rfl
    · have fine := isLeaf_of_not null plain
      have same := removeNilFieldsForValue_of_not_object plain
      rw [overlay_leaf fine, keptValue_of_ne (by rw [same]; exact null), same]
  | obj fields ih =>
    by_cases none : Leafless (.obj fields)
    · have gone := (removeNilFieldsForValue_eq_null unique).mpr none
      refine .inr ⟨⟨[], hollowAt_obj_nil.mpr none⟩, [], .null, ?_, rfl, ?_⟩
      · rw [keptValue_of_null gone, overlay_bare_obj (by simp), gone]
      · rw [keptValue_of_null gone]
        simp
    · have stripped := removeNilFieldsForValue_of_leaf unique none
      have kept : keptValue (.obj fields) = some (.obj (removeNilFields fields)) := by
        rw [keptValue_of_ne (by rw [stripped]; simp), stripped]
      have each : ∀ key value, Assoc.get key fields = some value →
          Assoc.get key (removeNilFields fields) = keptValue value := fun key value found => by
        rw [get_removeNilFields unique, found, Option.bind_some]
      rw [kept, overlay]
      by_cases solid : ∀ key value, Assoc.get key fields = some value → ∀ path, ¬ HollowAt value path
      · refine .inl ⟨?_, (hollow_fields_iff none).mpr solid⟩
        have still : overlaid fields (removeNilFields fields) = removeNilFields fields := by
          refine (overlaid_eq_self_iff unique _).mpr fun key value found => ?_
          rw [each key value found]
          rcases ih key value (Assoc.mem_of_get found) (Unique.value unique found) with
            ⟨same, -⟩ | ⟨⟨path, hollow⟩, -⟩
          · exact same
          · exact absurd hollow (solid key value found path)
        rw [still]
      · push Not at solid
        obtain ⟨key, value, found, path, hollow⟩ := solid
        rcases ih key value (Assoc.mem_of_get found) (Unique.value unique found) with
          ⟨-, solid⟩ | ⟨-, down, again, regrown, planted, missing⟩
        · exact absurd hollow (solid path)
        · refine .inr ⟨⟨key :: path, hollowAt_obj_cons.mpr ⟨value, found, hollow⟩⟩, key :: down, _, rfl, ?_, ?_⟩
          · rw [walk_obj_cons, get_overlaid unique, found]
            dsimp only
            rw [each key value found, regrown]
            exact planted
          · rintro once ⟨⟩
            rw [walk_obj_cons, each key value found]
            cases left : keptValue value with
            | none => rfl
            | some once => exact missing once left

/-- Either a second merge changes nothing and the value is settled, or it is not and a
null comes back. -/
theorem repeats_or_regrows {value : Value} (unique : value.unique = true) (held : Option Value) :
    (Repeats value held ∧ Settled value held) ∨ (Regrows value held ∧ ¬ Settled value held) := by
  induction value using Value.object_induction generalizing held with
  | leaf value plain =>
    refine .inl ⟨?_, fun front key hollow => absurd hollow (not_hollowAt_of_not_object plain _)⟩
    by_cases null : value = .null
    · subst null
      rfl
    · have fine := isLeaf_of_not null plain
      rw [Repeats, overlay_leaf fine, overlay_leaf fine]
  | obj src ih =>
    by_cases whole : ∃ tgt, held = some (.obj tgt)
    · obtain ⟨tgt, rfl⟩ := whole
      have field : ∀ key value, Assoc.get key src = some value →
          Assoc.get key (overlaid src tgt) = overlay value (Assoc.get key tgt) := fun key value found => by
        rw [get_overlaid unique, found]
      rw [settled_obj_iff]
      by_cases settled : ∀ key value, Assoc.get key src = some value → Settled value (Assoc.get key tgt)
      · refine .inl ⟨?_, settled⟩
        have still : overlaid src (overlaid src tgt) = overlaid src tgt := by
          refine (overlaid_eq_self_iff unique _).mpr fun key value found => ?_
          rw [field key value found]
          rcases ih key value (Assoc.mem_of_get found) (Unique.value unique found) (Assoc.get key tgt) with
            ⟨same, -⟩ | ⟨-, unsettled⟩
          · exact same
          · exact absurd (settled key value found) unsettled
        rw [Repeats, overlay, overlay, still]
      · refine .inr ⟨?_, settled⟩
        push Not at settled
        obtain ⟨key, value, found, unsettled⟩ := settled
        rcases ih key value (Assoc.mem_of_get found) (Unique.value unique found) (Assoc.get key tgt) with
          ⟨-, settled⟩ | ⟨⟨path, again, regrown, planted, missing⟩, -⟩
        · exact absurd settled unsettled
        · refine ⟨key :: path, _, rfl, ?_, ?_⟩
          · rw [walk_obj_cons, get_overlaid unique, found]
            dsimp only
            rw [field key value found, regrown]
            exact planted
          · rintro once ⟨⟩
            rw [walk_obj_cons, field key value found]
            cases left : overlay value (Assoc.get key tgt) with
            | none => rfl
            | some once => exact missing once left
    · have plain : ∀ tgt, held ≠ some (.obj tgt) := fun tgt same => whole ⟨tgt, same⟩
      have first : overlay (.obj src) held = _ := overlay_bare_obj plain
      rw [settled_bare_iff plain, Repeats, Regrows, first]
      by_cases none : Leafless (.obj src)
      · rw [(removeNilFieldsForValue_eq_null unique).mpr none]
        refine .inl ⟨?_, fun front key hollow => hollowAt_front hollow none⟩
        rw [overlay_bare_obj (by simp), (removeNilFieldsForValue_eq_null unique).mpr none]
      · have notNull : removeNilFieldsForValue (.obj src) ≠ .null := fun gone =>
          none ((removeNilFieldsForValue_eq_null unique).mp gone)
        rw [no_hollow_iff none, ← keptValue_of_ne notNull]
        rcases overlay_keptValue unique with ⟨same, solid⟩ | ⟨⟨path, hollow⟩, regrown⟩
        · exact .inl ⟨same, solid⟩
        · exact .inr ⟨regrown, fun solid => solid path hollow⟩

/-- Equal documents hold their nulls at the same paths. -/
theorem walk_null_of_deepEqual {left right : Value} (same : deepEqual left right = true)
    {path : List String} (null : left.walk path = some .null) : right.walk path = some .null := by
  induction path generalizing left right with
  | nil =>
    rw [walk_nil, Option.some.injEq] at null
    subst null
    cases right <;> first | rfl | cases same
  | cons key path ih =>
    cases left with
    | obj lefts =>
      rw [walk_obj_cons, Option.bind_eq_some_iff] at null
      obtain ⟨left, found, onward⟩ := null
      cases right with
      | obj rights =>
        rw [deepEqual, Bool.and_eq_true] at same
        obtain ⟨right, found', equal⟩ := deepEqualFields_get same.2 found
        rw [walk_obj_cons, found']
        exact ih equal onward
      | _ => cases same
    | _ => cases null

/-- A merge that is made a second time leaves the document as it is exactly when the
source is settled in the target. -/
theorem merged_twice_iff_settled (t s : Document) {clock clock' : Clock}
    {allMeta updatedMeta allMeta' updatedMeta' : GoMap} {once again : GoMap × GoMap × GoMap}
    (first : mergeState clock (some t.fields) s.fields allMeta updatedMeta = .ok once)
    (second : mergeState clock' once.1 s.fields allMeta' updatedMeta' = .ok again) :
    ∃ t2 t3, once.1 = some t2 ∧ again.1 = some t3 ∧
      (deepEqual (.obj t3) (.obj t2) = true ↔ Settled (.obj s.fields) (some (.obj t.fields))) := by
  have merged := mergeState_tgt first
  rw [merged] at second
  refine ⟨_, _, merged, mergeState_tgt second, ?_⟩
  have whole : (Value.obj s.fields).unique = true := s.unique
  rcases repeats_or_regrows whole (some (.obj t.fields)) with
    ⟨same, settled⟩ | ⟨⟨path, again, regrown, planted, missing⟩, unsettled⟩
  · refine iff_of_true ?_ settled
    simp only [Repeats, overlay, Option.some.injEq, Value.obj.injEq] at same
    rw [same]
    have fine := overlaid_unique s.fields t.fields s.unique t.unique
    exact deepEqual_refl (.obj (overlaid s.fields t.fields)) fine
  · refine iff_of_false (fun same => ?_) unsettled
    cases regrown
    have there := walk_null_of_deepEqual same planted
    rw [missing _ rfl] at there
    cases there

/-- An object without leaves beside a leaf: created without it, entered at the second merge. -/
def hollowBeside : Document := ⟨[("a", .obj [("b", .obj []), ("c", .num 1)])], by decide⟩

def emptyDocument : Document := ⟨[], unique_nil⟩

def stillClock : Clock := ⟨fun _ => 0, fun _ => 0⟩

/-- What `{"a":{"b":{},"c":1}}` leaves in an empty document, and then in what it left. -/
theorem hollowBeside_merges :
    (∃ am um, mergeState stillClock (some emptyDocument.fields) hollowBeside.fields none none =
      .ok (some [("a", .obj [("c", .num 1)])], am, um)) ∧
    ∃ am um, mergeState stillClock (some [("a", .obj [("c", .num 1)])]) hollowBeside.fields none none =
      .ok (some [("a", .obj [("c", .num 1), ("b", .null)])], am, um) := by
  constructor <;> exact ⟨_, _, rfl⟩

theorem hollowBeside_merged_twice : ∃ t2 t3 : Fields,
    some [("a", .obj [("c", .num 1)])] = some t2 ∧
      some [("a", .obj [("c", .num 1), ("b", .null)])] = some t3 ∧
      (deepEqual (.obj t3) (.obj t2) = true ↔
        Settled (.obj hollowBeside.fields) (some (.obj emptyDocument.fields))) := by
  obtain ⟨⟨am, um, first⟩, am', um', second⟩ := hollowBeside_merges
  exact merged_twice_iff_settled emptyDocument hollowBeside first second

/-- A redelivered update can change the document. -/
theorem redelivery_changes_document : ¬ ∀ (t s : Document) (clock clock' : Clock)
    (allMeta updatedMeta allMeta' updatedMeta' : GoMap) (once again : GoMap × GoMap × GoMap),
    mergeState clock (some t.fields) s.fields allMeta updatedMeta = .ok once →
    mergeState clock' once.1 s.fields allMeta' updatedMeta' = .ok again → again.1 = once.1 := by
  intro idempotent
  obtain ⟨⟨am, um, first⟩, am', um', second⟩ := hollowBeside_merges
  have same := idempotent emptyDocument hollowBeside _ _ _ _ _ _ _ _ first second
  simp at same

end Tio.Shadow
