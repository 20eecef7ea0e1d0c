import Tio.Shadow.Delta

namespace Tio.Shadow

open Tio.Core Tio.Json

/-- What the metadata may hold under a key, given what the document holds there. -/
inductive Mirrors : Option Value → Option Value → Prop where
  | bare {held : Option Value} (hollow : ∀ value, held = some value → Leafless value) :
      Mirrors held none
  | null : Mirrors (some .null) (some (.obj []))
  | leaf {value : Value} (fine : value.isLeaf = true) (now : Int) :
      Mirrors (some value) (some (timestamp now))
  | obj {fields stamps : Fields}
      (each : ∀ key, Mirrors (Assoc.get key fields) (Assoc.get key stamps)) :
      Mirrors (some (.obj fields)) (some (.obj stamps))

/-- The metadata holds an object with a numeric `timestamp` at the path. -/
def Stamped (metadata : Option Value) (path : List String) : Prop :=
  ∃ value stamps now, metadata = some value ∧ value.walk path = some (.obj stamps) ∧
    Assoc.get "timestamp" stamps = some (.num now)

theorem Mirrors.absent : Mirrors none none := .bare (by simp)

theorem Mirrors.of_null : Mirrors (some .null) none :=
  .bare (by rintro value ⟨⟩; exact leafless_null)

theorem stamped_obj_cons {stamps : Fields} {key : String} {path : List String} :
    Stamped (some (.obj stamps)) (key :: path) ↔ Stamped (Assoc.get key stamps) path := by
  simp only [Stamped, Option.some.injEq]
  constructor
  · rintro ⟨_, below, now, rfl, reached, stamp⟩
    rw [walk_obj_cons, Option.bind_eq_some_iff] at reached
    obtain ⟨value, found, onward⟩ := reached
    exact ⟨value, below, now, found, onward, stamp⟩
  · rintro ⟨value, below, now, found, onward, stamp⟩
    exact ⟨_, below, now, rfl, by rw [walk_obj_cons, found]; exact onward, stamp⟩

theorem not_stamped_none (path : List String) : ¬ Stamped none path := by
  rintro ⟨_, _, _, ⟨⟩, _⟩

theorem stamped_obj_nil {stamps : Fields} :
    Stamped (some (.obj stamps)) [] ↔ ∃ now, Assoc.get "timestamp" stamps = some (.num now) := by
  simp [Stamped]

/-- The field under the name of a timestamp is never one: it mirrors a field. -/
private theorem Mirrors.not_num {held : Option Value} {now : Rat} :
    ¬ Mirrors held (some (.num now)) := by
  rintro (_ | _)

private theorem stamped_timestamp {now : Int} {path : List String} :
    Stamped (some (timestamp now)) path ↔ path = [] := by
  rcases path with _ | ⟨key, path⟩
  · exact iff_of_true (stamped_obj_nil.mpr ⟨now, rfl⟩) rfl
  · refine iff_of_false ?_ (by simp)
    rw [timestamp, stamped_obj_cons, Assoc.get_cons]
    split
    · rintro ⟨value, stamps, _, held, reached, -⟩
      cases held
      cases path <;> simp [Value.walk] at reached
    · exact not_stamped_none path

/-- Timestamps stand at the leaves and nowhere else. -/
theorem Mirrors.stamped_iff {held metadata : Option Value} (mirrors : Mirrors held metadata)
    (path : List String) :
    Stamped metadata path ↔ ∃ value leaf, held = some value ∧ LeafAt value path leaf := by
  induction mirrors generalizing path with
  | bare hollow =>
    refine iff_of_false (not_stamped_none path) ?_
    rintro ⟨value, leaf, found, reached⟩
    exact hollow value found path leaf reached
  | null =>
    refine iff_of_false ?_ ?_
    · rcases path with _ | ⟨key, path⟩
      · simp [stamped_obj_nil]
      · rw [stamped_obj_cons]
        exact not_stamped_none path
    · rintro ⟨_, leaf, ⟨⟩, reached⟩
      exact leafless_null path leaf reached
  | @leaf value fine now =>
    rw [stamped_timestamp]
    constructor
    · rintro rfl
      exact ⟨value, value, rfl, leafAt_self fine⟩
    · rintro ⟨_, leaf, ⟨⟩, reached, -⟩
      rcases path with _ | ⟨key, path⟩
      · rfl
      · rw [walk_cons_of_not_object] at reached
        · cases reached
        · cases value <;> simp_all [Value.isLeaf, Value.isObject]
  | @obj fields stamps each ih =>
    rcases path with _ | ⟨key, path⟩
    · refine iff_of_false ?_ ?_
      · rw [stamped_obj_nil]
        rintro ⟨now, found⟩
        have here := each "timestamp"
        rw [found] at here
        exact here.not_num
      · rintro ⟨_, leaf, ⟨⟩, reached⟩
        exact not_leafAt_obj_nil reached
    · rw [stamped_obj_cons, ih key path]
      simp only [Option.some.injEq, exists_eq_left', leafAt_obj_cons, exists_and_left]
      constructor
      · rintro ⟨value, found, leaf, reached⟩
        exact ⟨leaf, value, found, reached⟩
      · rintro ⟨leaf, value, found, reached⟩
        exact ⟨value, found, leaf, reached⟩

/-- The metadata of a document whose map may be `nil`. -/
def MirrorsMap (document : Fields) (metadata : GoMap) : Prop :=
  ∀ key, Mirrors (Assoc.get key document) (Assoc.get key (metadata.getD []))

theorem MirrorsMap.stamped_iff {document : Fields} {metadata : GoMap}
    (mirrors : MirrorsMap document metadata) (path : List String) :
    Stamped (metadata.map .obj) path ↔ ∃ leaf, LeafAt (.obj document) path leaf := by
  have whole := (Mirrors.obj mirrors).stamped_iff path
  simp only [Option.some.injEq, exists_eq_left', exists_and_left] at whole
  rw [← whole]
  cases metadata with
  | some stamps => rfl
  | none =>
    refine iff_of_false (not_stamped_none path) ?_
    rcases path with _ | ⟨key, path⟩
    · simp [stamped_obj_nil]
    · rw [Option.getD_none, stamped_obj_cons]
      exact not_stamped_none path

/-- Below a field that holds an object or no leaf there is a map to merge into. -/
theorem Mirrors.subMap {fields : Fields} {metadata : Option Value}
    (mirrors : Mirrors (some (.obj fields)) metadata) :
    ∃ stamps, subMap metadata = .ok stamps ∧
      ∀ key, Mirrors (Assoc.get key fields) (Assoc.get key stamps) := by
  cases mirrors with
  | bare hollow =>
    refine ⟨[], rfl, fun key => .bare fun value found => ?_⟩
    exact leafless_obj_iff.mp (hollow _ rfl) key value found
  | leaf fine => cases fine
  | obj each => exact ⟨_, rfl, each⟩

theorem get_genMetaField_other {clock : Clock} {key other : String} (apart : key ≠ other)
    (value : Value) (outMeta : Fields) :
    Assoc.get other (genMetaField clock key value outMeta) = Assoc.get other outMeta := by
  cases value with
  | null => rfl
  | _ => exact Assoc.get_set_other apart _ _

theorem get_genMeta_fresh {clock : Clock} {fields : Fields} {key : String}
    (fresh : Assoc.get key fields = none) (outMeta : Fields) :
    Assoc.get key (genMeta clock fields outMeta) = Assoc.get key outMeta := by
  induction fields generalizing outMeta with
  | nil => rfl
  | cons entry rest ih =>
    obtain ⟨head, value⟩ := entry
    rw [Assoc.get_cons] at fresh
    split at fresh
    · cases fresh
    · rename_i apart
      rw [genMeta, ih fresh, get_genMetaField_other apart]

theorem genMetaField_leaf {value : Value} (fine : value.isLeaf = true) (clock : Clock)
    (key : String) (outMeta : Fields) : genMetaField clock key value outMeta =
      Assoc.set key (timestamp (clock.all [key])) outMeta := by
  cases value <;> first | rfl | cases fine

mutual

theorem mirrors_genMetaField : ∀ (clock : Clock) (key : String) (value : Value) (outMeta : Fields),
    value.unique = true → Assoc.get key outMeta = none →
    Mirrors (some value) (Assoc.get key (genMetaField clock key value outMeta))
  | _, _, .null, _, _, fresh => by
    rw [genMetaField, fresh]
    exact .of_null
  | clock, key, .obj sub, outMeta, unique, _ => by
    rw [genMetaField, Assoc.get_set_self]
    refine .obj fun other => ?_
    cases found : Assoc.get other sub with
    | none =>
      rw [get_genMeta_fresh found]
      exact .absent
    | some value =>
      exact mirrors_genMeta (clock.under key) sub [] unique (fun _ _ _ => rfl) other value found
  | clock, key, .bool _, _, _, _ | clock, key, .num _, _, _, _ | clock, key, .str _, _, _, _
  | clock, key, .arr _, _, _, _ => by
    rw [genMetaField_leaf rfl, Assoc.get_set_self]
    exact .leaf rfl _
termination_by structural _ _ value => value

/-- New metadata mirrors the fields it was generated for. -/
theorem mirrors_genMeta : ∀ (clock : Clock) (fields outMeta : Fields), Unique fields →
    (∀ key value, Assoc.get key fields = some value → Assoc.get key outMeta = none) →
    ∀ key value, Assoc.get key fields = some value →
      Mirrors (some value) (Assoc.get key (genMeta clock fields outMeta))
  | _, [], _, _, _, _, _, found => by cases found
  | clock, (head, first) :: rest, outMeta, unique, fresh, key, value, found => by
    rw [genMeta]
    have here := fresh head first (by rw [Assoc.get_cons, if_pos rfl])
    rw [Assoc.get_cons] at found
    split at found
    · rename_i same
      subst same
      cases found
      rw [get_genMeta_fresh unique.fresh]
      exact mirrors_genMetaField clock head first outMeta unique.head here
    · rename_i apart
      refine mirrors_genMeta clock rest _ unique.tail ?_ key value found
      intro other held later
      have different : head ≠ other := by
        rintro rfl
        rw [unique.fresh] at later
        cases later
      rw [get_genMetaField_other different]
      exact fresh other held (by rw [Assoc.get_cons, if_neg different]; exact later)
termination_by structural _ fields => fields

end

theorem mirrors_genMeta_new (clock : Clock) {fields : Fields} (unique : Unique fields)
    (key : String) : Mirrors (Assoc.get key fields) (Assoc.get key (genMeta clock fields [])) := by
  cases found : Assoc.get key fields with
  | none =>
    rw [get_genMeta_fresh found]
    exact .absent
  | some value => exact mirrors_genMeta clock fields [] unique (fun _ _ _ => rfl) key value found

/-- What mirrors a value without its nulls mirrors the value. -/
theorem Mirrors.of_kept {value : Value} (unique : value.unique = true) {metadata : Option Value}
    (mirrors : Mirrors (keptValue value) metadata) : Mirrors (some value) metadata := by
  induction value using Value.object_induction generalizing metadata with
  | leaf value plain =>
    by_cases null : value = .null
    · subst null
      rw [keptValue_of_null rfl] at mirrors
      cases mirrors
      exact .of_null
    · have same := removeNilFieldsForValue_of_not_object plain
      rwa [keptValue_of_ne (by rw [same]; exact null), same] at mirrors
  | obj fields ih =>
    by_cases hollow : Leafless (.obj fields)
    · rw [keptValue_of_null ((removeNilFieldsForValue_eq_null unique).mpr hollow)] at mirrors
      cases mirrors
      exact .bare (by rintro value ⟨⟩; exact hollow)
    · have stripped := removeNilFieldsForValue_of_leaf unique hollow
      rw [keptValue_of_ne (by rw [stripped]; simp), stripped] at mirrors
      cases mirrors with
      | leaf fine => cases fine
      | bare none =>
        have empty := none _ rfl
        rw [← stripped] at empty
        refine absurd (fun path leaf reached => empty path leaf ?_) hollow
        exact (leafAt_removeNilFieldsForValue unique path leaf).mpr reached
      | obj each =>
        refine .obj fun key => ?_
        have here := each key
        rw [get_removeNilFields unique] at here
        cases found : Assoc.get key fields with
        | none => rwa [found] at here
        | some value =>
          rw [found] at here
          exact ih key value (Assoc.mem_of_get found) (Unique.value unique found) here

/-- What one field of the source does to the three maps. -/
structure FieldMerged (key : String) (value : Value) (maps next : MergeMaps) : Prop where
  tgt : next.tgt = Assoc.put key (overlay value (Assoc.get key maps.tgt)) maps.tgt
  allMeta : Mirrors (overlay value (Assoc.get key maps.tgt)) (Assoc.get key next.allMeta)
  updatedMeta : Mirrors (some value) (Assoc.get key next.updatedMeta)
  others : ∀ other, key ≠ other → Assoc.get other next.allMeta = Assoc.get other maps.allMeta ∧
    Assoc.get other next.updatedMeta = Assoc.get other maps.updatedMeta

/-- What the loop over the source does to the three maps. -/
structure Merged (src : Fields) (maps next : MergeMaps) : Prop where
  tgt : next.tgt = overlaid src maps.tgt
  allMeta : ∀ key, Mirrors (Assoc.get key next.tgt) (Assoc.get key next.allMeta)
  updatedMeta : ∀ key value, Assoc.get key src = some value →
    Mirrors (some value) (Assoc.get key next.updatedMeta)
  others : ∀ key, Assoc.get key src = none →
    Assoc.get key next.updatedMeta = Assoc.get key maps.updatedMeta

theorem leafless_obj_nil : Leafless (.obj []) := leafless_obj_iff.mpr (by simp)

theorem overlay_leaf {value : Value} (fine : value.isLeaf = true) (held : Option Value) :
    overlay value held = some value := by
  cases value <;> first | rfl | cases fine

theorem overlay_bare_obj {src : Fields} {held : Option Value}
    (plain : ∀ fields, held ≠ some (.obj fields)) :
    overlay (.obj src) held = some (removeNilFieldsForValue (.obj src)) := by
  rcases held with _ | (_ | _ | _ | _ | _ | below)
  case some.obj => exact absurd rfl (plain below)
  all_goals rfl

theorem overlay_eq_none {value : Value} {held : Option Value} :
    overlay value held = none ↔ value = .null := by
  cases value with
  | null => exact iff_of_true rfl rfl
  | obj src =>
    refine iff_of_false ?_ (by simp)
    by_cases whole : ∃ tgt, held = some (.obj tgt)
    · obtain ⟨tgt, rfl⟩ := whole
      simp [overlay]
    · rw [overlay_bare_obj fun tgt same => whole ⟨tgt, same⟩]
      simp
  | bool | num | str | arr =>
    rw [overlay_leaf rfl]
    simp

/-- A source that leaves nothing in the target holds no leaf. -/
theorem leafless_of_overlaid_nil {src tgt : Fields} (unique : Unique src)
    (empty : overlaid src tgt = []) : Leafless (.obj src) := by
  rw [leafless_obj_iff]
  intro key value found
  have gone := get_overlaid unique tgt key
  rw [empty, found] at gone
  rw [overlay_eq_none.mp gone.symm]
  exact leafless_null

theorem mergeField_leaf {value : Value} (fine : value.isLeaf = true) (clock : Clock)
    (key : String) (maps : MergeMaps) : mergeField clock key value maps =
      .ok ⟨Assoc.set key value maps.tgt, Assoc.set key (timestamp (clock.all [key])) maps.allMeta,
        Assoc.set key (timestamp (clock.updated [key])) maps.updatedMeta⟩ := by
  cases value <;> first | rfl | cases fine

theorem mergeField_obj_bare {src : Fields} {maps : MergeMaps} {key : String}
    (plain : ∀ fields, Assoc.get key maps.tgt ≠ some (.obj fields)) (clock : Clock) :
    mergeField clock key (.obj src) maps =
      .ok ⟨Assoc.set key (removeNilFieldsForValue (.obj src)) maps.tgt,
        Assoc.set key (.obj (genMeta (clock.under key) (removeNilFields src) [])) maps.allMeta,
        Assoc.set key (.obj (genMeta (clock.under key) (removeNilFields src) []))
          maps.updatedMeta⟩ := by
  rw [mergeField]
  rcases held : Assoc.get key maps.tgt with _ | (_ | _ | _ | _ | _ | below)
  case some.obj => exact absurd held (plain below)
  all_goals simp only [deepCopyMap_eq]

theorem mergeField_obj {src tgt stamps : Fields} {maps sub : MergeMaps} {key : String}
    {clock : Clock} (held : Assoc.get key maps.tgt = some (.obj tgt))
    (below : subMap (Assoc.get key maps.allMeta) = .ok stamps)
    (merged : mergeLoop (clock.under key) src ⟨tgt, stamps, []⟩ = .ok sub) :
    mergeField clock key (.obj src) maps = .ok (
      if sub.tgt.isEmpty then
        ⟨Assoc.set key (.obj sub.tgt) maps.tgt, Assoc.erase key maps.allMeta,
          Assoc.erase key maps.updatedMeta⟩
      else
        ⟨Assoc.set key (.obj sub.tgt) maps.tgt, Assoc.set key (.obj sub.allMeta) maps.allMeta,
          Assoc.set key (.obj sub.updatedMeta) maps.updatedMeta⟩) := by
  rw [mergeField, held]
  simp only [below, merged, bind, Except.bind]
  split <;> rfl

private theorem fieldMerged_leaf {value : Value} (fine : value.isLeaf = true) (clock : Clock)
    (key : String) (maps : MergeMaps) :
    ∃ next, mergeField clock key value maps = .ok next ∧ FieldMerged key value maps next := by
  refine ⟨_, mergeField_leaf fine clock key maps, ?_⟩
  exact {
    tgt := by rw [overlay_leaf fine, Assoc.put]
    allMeta := by
      rw [overlay_leaf fine, Assoc.get_set_self]
      exact .leaf fine _
    updatedMeta := by
      rw [Assoc.get_set_self]
      exact .leaf fine _
    others := fun other apart => ⟨Assoc.get_set_other apart _ _, Assoc.get_set_other apart _ _⟩ }

private theorem fieldMerged_bare {src : Fields} (unique : Unique src) (clock : Clock)
    {key : String} {maps : MergeMaps}
    (plain : ∀ fields, Assoc.get key maps.tgt ≠ some (.obj fields)) :
    ∃ next, mergeField clock key (.obj src) maps = .ok next ∧
      FieldMerged key (.obj src) maps next := by
  refine ⟨_, mergeField_obj_bare plain clock, ?_⟩
  have generated := mirrors_genMeta_new (clock.under key) (removeNilFields_unique src unique)
  exact {
    tgt := by rw [overlay_bare_obj plain, Assoc.put]
    allMeta := by
      rw [overlay_bare_obj plain, Assoc.get_set_self]
      by_cases hollow : Leafless (.obj src)
      · rw [(removeNilFieldsForValue_eq_null unique).mpr hollow,
          (removeNilFields_eq_nil unique).mpr hollow]
        exact .null
      · rw [removeNilFieldsForValue_of_leaf unique hollow]
        exact .obj generated
    updatedMeta := by
      rw [Assoc.get_set_self]
      by_cases hollow : Leafless (.obj src)
      · rw [(removeNilFields_eq_nil unique).mpr hollow]
        exact .obj fun other => .bare (leafless_obj_iff.mp hollow other)
      · have stripped := removeNilFieldsForValue_of_leaf unique hollow
        refine .of_kept unique ?_
        rw [keptValue_of_ne (by rw [stripped]; simp), stripped]
        exact .obj generated
    others := fun other apart => ⟨Assoc.get_set_other apart _ _, Assoc.get_set_other apart _ _⟩ }

private theorem fieldMerged_obj {src tgt stamps : Fields} {maps sub : MergeMaps} {key : String}
    {clock : Clock} (unique : Unique src) (held : Assoc.get key maps.tgt = some (.obj tgt))
    (below : subMap (Assoc.get key maps.allMeta) = .ok stamps)
    (looped : mergeLoop (clock.under key) src ⟨tgt, stamps, []⟩ = .ok sub)
    (merged : Merged src ⟨tgt, stamps, []⟩ sub) :
    ∃ next, mergeField clock key (.obj src) maps = .ok next ∧
      FieldMerged key (.obj src) maps next := by
  refine ⟨_, mergeField_obj held below looped, ?_⟩
  have laid : overlay (.obj src) (Assoc.get key maps.tgt) = some (.obj sub.tgt) := by
    rw [held, overlay, merged.tgt]
  by_cases empty : sub.tgt.isEmpty
  · rw [if_pos empty]
    rw [List.isEmpty_iff] at empty
    exact {
      tgt := by rw [laid, Assoc.put]
      allMeta := by
        rw [laid, Assoc.get_erase_self, empty]
        exact .bare (by rintro value ⟨⟩; exact leafless_obj_nil)
      updatedMeta := by
        rw [Assoc.get_erase_self]
        have hollow := leafless_of_overlaid_nil unique (merged.tgt.symm.trans empty)
        exact .bare (by rintro value ⟨⟩; exact hollow)
      others := fun other apart => ⟨Assoc.get_erase_other apart _, Assoc.get_erase_other apart _⟩ }
  · rw [if_neg empty]
    exact {
      tgt := by rw [laid, Assoc.put]
      allMeta := by
        rw [laid, Assoc.get_set_self]
        exact .obj merged.allMeta
      updatedMeta := by
        rw [Assoc.get_set_self]
        refine .obj fun other => ?_
        cases found : Assoc.get other src with
        | none =>
          rw [merged.others other found]
          exact .absent
        | some value => exact merged.updatedMeta other value found
      others := fun other apart => ⟨Assoc.get_set_other apart _ _, Assoc.get_set_other apart _ _⟩ }

mutual

theorem mergeField_mirrors : ∀ (clock : Clock) (key : String) (value : Value) (maps : MergeMaps),
    value.unique = true → Mirrors (Assoc.get key maps.tgt) (Assoc.get key maps.allMeta) →
    Assoc.get key maps.updatedMeta = none →
    ∃ next, mergeField clock key value maps = .ok next ∧ FieldMerged key value maps next
  | _, key, .null, maps, _, _, fresh => ⟨_, rfl, {
      tgt := rfl
      allMeta := by
        rw [Assoc.get_erase_self]
        exact .absent
      updatedMeta := by
        rw [fresh]
        exact .of_null
      others := fun _ apart => ⟨Assoc.get_erase_other apart _, rfl⟩ }⟩
  | clock, key, .obj src, maps, unique, mirrors, _ => by
    by_cases whole : ∃ tgt, Assoc.get key maps.tgt = some (.obj tgt)
    · obtain ⟨tgt, held⟩ := whole
      rw [held] at mirrors
      obtain ⟨stamps, below, each⟩ := mirrors.subMap
      obtain ⟨sub, looped, merged⟩ := mergeLoop_mirrors (clock.under key) src ⟨tgt, stamps, []⟩
        unique each (fun _ _ _ => rfl)
      exact fieldMerged_obj unique held below looped merged
    · exact fieldMerged_bare unique clock fun fields held => whole ⟨fields, held⟩
  | clock, key, .bool _, maps, _, _, _ | clock, key, .num _, maps, _, _, _
  | clock, key, .str _, maps, _, _, _ | clock, key, .arr _, maps, _, _, _ =>
    fieldMerged_leaf rfl clock key maps
termination_by structural _ _ value => value

/-- A merge into a mirrored target succeeds and leaves a mirrored target; the
metadata of the request mirrors the request. -/
theorem mergeLoop_mirrors : ∀ (clock : Clock) (src : Fields) (maps : MergeMaps), Unique src →
    (∀ key, Mirrors (Assoc.get key maps.tgt) (Assoc.get key maps.allMeta)) →
    (∀ key value, Assoc.get key src = some value → Assoc.get key maps.updatedMeta = none) →
    ∃ next, mergeLoop clock src maps = .ok next ∧ Merged src maps next
  | _, [], maps, _, mirrors, _ => ⟨maps, rfl, rfl, mirrors, by simp, fun _ _ => rfl⟩
  | clock, (head, first) :: rest, maps, unique, mirrors, fresh => by
    obtain ⟨middle, stepped, field⟩ := mergeField_mirrors clock head first maps unique.head
      (mirrors head) (fresh head first (by rw [Assoc.get_cons, if_pos rfl]))
    have kept : ∀ key, Mirrors (Assoc.get key middle.tgt) (Assoc.get key middle.allMeta) := by
      intro key
      rw [field.tgt, Assoc.get_put]
      split
      · rename_i same
        exact same ▸ field.allMeta
      · rename_i apart
        rw [(field.others key apart).1]
        exact mirrors key
    have apart : ∀ key value, Assoc.get key rest = some value → head ≠ key := by
      rintro key value later rfl
      rw [unique.fresh] at later
      cases later
    obtain ⟨next, looped, loop⟩ := mergeLoop_mirrors clock rest middle unique.tail kept (by
      intro key value later
      have different := apart key value later
      rw [(field.others key different).2]
      exact fresh key value (by rw [Assoc.get_cons, if_neg different]; exact later))
    refine ⟨next, bind_eq_ok.mpr ⟨middle, stepped, looped⟩, ?_, loop.allMeta, ?_, ?_⟩
    · rw [loop.tgt, field.tgt, overlaid]
    · intro key value found
      rw [Assoc.get_cons] at found
      split at found
      · rename_i same
        subst same
        cases found
        rw [loop.others head unique.fresh]
        exact field.updatedMeta
      · exact loop.updatedMeta key value found
    · intro key missing
      rw [Assoc.get_cons] at missing
      split at missing
      · cases missing
      · rename_i different
        rw [loop.others key missing, (field.others key different).2]
termination_by structural _ src => src

end

/-- The whole call: no type assertion fails, and both the stored metadata and
the metadata of the request mirror their documents. -/
theorem mergeState_mirrors {tgt src : Fields} {allMeta : GoMap} (unique : Unique src)
    (mirrors : MirrorsMap tgt allMeta) (clock : Clock) :
    ∃ am um, mergeState clock (some tgt) src allMeta none =
        .ok (some (overlaid src tgt), some am, some um) ∧
      MirrorsMap (overlaid src tgt) (some am) ∧ MirrorsMap src (some um) := by
  obtain ⟨next, looped, merged⟩ := mergeLoop_mirrors clock src ⟨tgt, allMeta.getD [], []⟩ unique
    mirrors (fun _ _ _ => rfl)
  refine ⟨next.allMeta, next.updatedMeta, ?_, ?_, ?_⟩
  · rw [← merged.tgt, mergeState, deepCopyMap_eq]
    simp only [doMergeState, Option.getD_none, looped, bind, Except.bind, Option.bind_some]
  · intro key
    rw [← merged.tgt]
    exact merged.allMeta key
  · intro key
    cases found : Assoc.get key src with
    | some value => exact merged.updatedMeta key value found
    | none =>
      have missing := merged.others key found
      rw [Option.getD_some, missing]
      exact .absent

mutual

theorem deltaDiff_mirrors : ∀ (key : String) (target source : Value) (metadata : Fields),
    target.unique = true → Mirrors (some target) (Assoc.get key metadata) →
    ∃ found, deltaDiff key target source metadata = .ok found
  | key, .obj t, .obj s, metadata, unique, mirrors => by
    obtain ⟨stamps, below, each⟩ := mirrors.subMap
    obtain ⟨found, looped⟩ := deltaLoop_mirrors t s stamps ([], []) unique
      (fun key value held => held ▸ each key)
    exact ⟨_, bind_eq_ok.mpr ⟨stamps, below, bind_eq_ok.mpr ⟨found, looped, rfl⟩⟩⟩
  | key, .obj t, .null, _, _, _ | key, .obj t, .bool _, _, _, _ | key, .obj t, .num _, _, _, _
  | key, .obj t, .str _, _, _, _ | key, .obj t, .arr _, _, _, _ => ⟨_, rfl⟩
  | key, .arr items, source, metadata, _, _ => by
    rw [deltaDiff_arr]
    split <;> exact ⟨_, rfl⟩
  | key, .null, source, metadata, _, _ | key, .bool _, source, metadata, _, _
  | key, .num _, source, metadata, _, _ | key, .str _, source, metadata, _, _ => by
    rw [deltaDiff_atom rfl]
    split <;> exact ⟨_, rfl⟩
termination_by structural _ target => target

/-- Nor does a delta of mirrored documents meet a timestamp in place of a map. -/
theorem deltaLoop_mirrors : ∀ (targets source metadata : Fields) (start : Fields × Fields),
    Unique targets → (∀ key target, Assoc.get key targets = some target →
      Mirrors (some target) (Assoc.get key metadata)) →
    ∃ found, deltaLoop targets source metadata start = .ok found
  | [], _, _, start, _, _ => ⟨start, rfl⟩
  | (head, target) :: rest, source, metadata, (delta, deltaMeta), unique, each => by
    obtain ⟨⟨d, dm⟩, diffed⟩ := deltaDiff_mirrors head target
      ((Assoc.get head source).getD .null) metadata unique.head
      (each head target (by rw [Assoc.get_cons, if_pos rfl]))
    obtain ⟨found, looped⟩ := deltaLoop_mirrors rest source metadata
      (addField head d delta, addField head dm deltaMeta) unique.tail (by
        intro key value later
        refine each key value ?_
        rw [Assoc.get_cons, if_neg]
        · exact later
        · rintro rfl
          rw [unique.fresh] at later
          cases later)
    exact ⟨found, bind_eq_ok.mpr ⟨(d, dm), diffed, looped⟩⟩
termination_by structural targets => targets

end

theorem deltaState_mirrors {desired : Fields} (reported : Fields) {metadata : GoMap} (unique : Unique desired)
    (mirrors : MirrorsMap desired metadata) :
    ∃ deltaMeta, deltaState (some desired) (some reported) metadata =
      .ok (some (differences desired reported), deltaMeta) := by
  obtain ⟨⟨delta, deltaMeta⟩, looped⟩ := deltaLoop_mirrors desired reported (metadata.getD []) ([], [])
    unique (fun key value found => found ▸ mirrors key)
  have answered : deltaState (some desired) (some reported) metadata =
      .ok (some delta, some deltaMeta) := by
    rw [deltaState, looped]
    rfl
  refine ⟨some deltaMeta, ?_⟩
  rw [answered, ← deltaState_fst unique answered]

end Tio.Shadow
