import Tio.Shadow.Mirror

namespace Tio.Shadow

open Tio.Core Tio.Json

/-- The document behind a map that may be `nil` has the leaf. -/
def LeafIn (document : GoMap) (path : List String) (leaf : Value) : Prop :=
  ∃ fields, document = some fields ∧ LeafAt (.obj fields) path leaf

/-- The document holds a value at the path that is deeply equal to the leaf. -/
def Reported (document : GoMap) (path : List String) (leaf : Value) : Prop :=
  ∃ fields held, document = some fields ∧ (Value.obj fields).walk path = some held ∧
    deepEqual leaf held = true

/-- The metadata holds this timestamp at the path. -/
def StampAt (metadata : Option Value) (path : List String) (now : Rat) : Prop :=
  ∃ value stamps, metadata = some value ∧ value.walk path = some (.obj stamps) ∧
    Assoc.get "timestamp" stamps = some (.num now)

/-- At a path where both documents hold an object, the metadata holds something else. -/
def Clash (target source : Value) (metadata : Option Value) : Prop :=
  ∃ path t s value entry, target.walk path = some (.obj t) ∧ source.walk path = some (.obj s) ∧
    metadata = some value ∧ value.walk path = some entry ∧ entry.isObject = false

theorem stamped_iff_stampAt {metadata : Option Value} {path : List String} :
    Stamped metadata path ↔ ∃ now, StampAt metadata path now := by
  constructor
  · rintro ⟨value, stamps, now, rest⟩
    exact ⟨now, value, stamps, rest⟩
  · rintro ⟨now, value, stamps, rest⟩
    exact ⟨value, stamps, now, rest⟩

theorem stampAt_obj_cons {stamps : Fields} {key : String} {path : List String} {now : Rat} :
    StampAt (some (.obj stamps)) (key :: path) now ↔ StampAt (Assoc.get key stamps) path now := by
  simp only [StampAt, Option.some.injEq]
  constructor
  · rintro ⟨_, below, rfl, reached, stamp⟩
    rw [walk_obj_cons, Option.bind_eq_some_iff] at reached
    obtain ⟨value, found, onward⟩ := reached
    exact ⟨value, below, found, onward, stamp⟩
  · rintro ⟨value, below, found, onward, stamp⟩
    exact ⟨_, below, rfl, by rw [walk_obj_cons, found]; exact onward, stamp⟩

theorem stampAt_obj_nil {stamps : Fields} {now : Rat} :
    StampAt (some (.obj stamps)) [] now ↔ Assoc.get "timestamp" stamps = some (.num now) := by
  simp [StampAt]

theorem not_stampAt_none {path : List String} {now : Rat} : ¬ StampAt none path now := by
  rintro ⟨_, _, ⟨⟩, _⟩

theorem not_stampAt_null {path : List String} {now : Rat} : ¬ StampAt (some .null) path now := by
  rintro ⟨_, stamps, ⟨⟩, reached, -⟩
  cases path <;> cases reached

theorem stampAt_notNil {held : Option Value} {path : List String} {now : Rat} :
    StampAt (held.bind notNil) path now ↔ StampAt held path now := by
  cases held with
  | none => rfl
  | some value =>
    cases value with
    | null => exact iff_of_false not_stampAt_none not_stampAt_null
    | _ => rfl

theorem deepEqual_atom {value : Value} (atom : isAtom value = true) (held : Value) :
    deepEqual value held = equalScalar value held := by
  cases value <;> cases held <;> first | rfl | cases atom

theorem isLeaf_not_null {leaf : Value} (fine : leaf.isLeaf = true) : deepEqual leaf .null = false := by
  cases leaf <;> first | rfl | cases fine

theorem leafAt_created_cons {fields : Fields} {key : String} {path : List String} {leaf : Value} :
    (∃ d, created fields = some d ∧ LeafAt d (key :: path) leaf) ↔
      ∃ d, Assoc.get key fields = some d ∧ LeafAt d path leaf := by
  constructor
  · rintro ⟨d, made, reached⟩
    obtain ⟨-, rfl⟩ := created_eq_some.mp made
    exact leafAt_obj_cons.mp reached
  · rintro ⟨d, found, reached⟩
    refine ⟨_, created_eq_some.mpr ⟨?_, rfl⟩, leafAt_obj_cons.mpr ⟨d, found, reached⟩⟩
    intro empty
    rw [empty] at found
    cases found

theorem not_leafAt_created_nil {fields : Fields} {leaf : Value} :
    ¬ ∃ d, created fields = some d ∧ LeafAt d [] leaf := by
  rintro ⟨d, made, reached⟩
  obtain ⟨-, rfl⟩ := created_eq_some.mp made
  exact not_leafAt_obj_nil reached

/-- The leaves of the difference of one field. -/
theorem leafAt_difference {target : Value} (unique : target.unique = true) (source : Value)
    (path : List String) (leaf : Value) :
    (∃ d, difference target source = some d ∧ LeafAt d path leaf) ↔
      LeafAt target path leaf ∧ ¬ ∃ held, source.walk path = some held ∧ deepEqual leaf held = true := by
  induction target using Value.object_induction generalizing source path with
  | leaf target plain =>
    by_cases null : target = .null
    · subst null
      have none : difference .null source = .none := by
        rw [difference_atom rfl]
        split <;> rfl
      simp [none, leafless_null path leaf]
    · have fine := isLeaf_of_not null plain
      have answer : difference target source = if deepEqual target source then none else some target := by
        cases target with
        | null => exact absurd rfl null
        | obj => cases plain
        | arr items => exact difference_arr items source
        | _ =>
          rw [difference_atom rfl, deepEqual_atom rfl]
          rfl
      rw [answer]
      cases path with
      | nil =>
        simp only [LeafAt, walk_nil, Option.some.injEq, exists_eq_left']
        split <;> rename_i same
        · simp only [reduceCtorEq, false_and, exists_false, false_iff, not_and, not_not]
          rintro ⟨rfl, -⟩
          exact same
        · simp only [Option.some.injEq, exists_eq_left']
          constructor
          · rintro ⟨rfl, fine⟩
            exact ⟨⟨rfl, fine⟩, same⟩
          · exact And.left
      | cons key path =>
        have stuck : ¬ LeafAt target (key :: path) leaf := by
          rintro ⟨reached, -⟩
          rw [walk_cons_of_not_object plain] at reached
          cases reached
        split <;> simp [stuck]
  | obj t ih =>
    by_cases whole : ∃ s, source = .obj s
    · obtain ⟨s, rfl⟩ := whole
      rw [difference_obj]
      cases path with
      | nil =>
        exact iff_of_false not_leafAt_created_nil fun both => not_leafAt_obj_nil both.1
      | cons key path =>
        rw [leafAt_created_cons, get_differences unique, leafAt_obj_cons, walk_obj_cons]
        cases found : Assoc.get key t with
        | none => simp
        | some value =>
          have below := ih key value (Assoc.mem_of_get found) (Unique.value unique found)
            ((Assoc.get key s).getD .null) path
          simp only [Option.bind_some, Option.some.injEq, exists_eq_left', below]
          refine and_congr_right fun reached => ?_
          cases held : Assoc.get key s with
          | some held => rfl
          | none =>
            -- an absent field reads as `nil`, which no leaf equals
            refine iff_of_true ?_ (by simp)
            rintro ⟨nothing, there, same⟩
            cases path with
            | nil =>
              cases there
              rw [Option.getD_none, isLeaf_not_null reached.2] at same
              cases same
            | cons => cases there
    · have plain : source.isObject = false := by
        cases source with
        | obj s => exact absurd ⟨s, rfl⟩ whole
        | _ => rfl
      rw [difference_obj_bare plain]
      simp only [Option.some.injEq, exists_eq_left']
      refine ⟨fun reached => ⟨reached, ?_⟩, And.left⟩
      cases path with
      | nil => exact absurd reached not_leafAt_obj_nil
      | cons key path => simp [walk_cons_of_not_object plain]

section

variable {key : String} {metadata subMeta : Fields}

/-- The map below a key holds the timestamps below it. -/
theorem stampAt_subMap (below : subMap (Assoc.get key metadata) = .ok subMeta) (next : String)
    (path : List String) (now : Rat) :
    StampAt (Assoc.get key metadata) (next :: path) now ↔ StampAt (Assoc.get next subMeta) path now := by
  cases held : Assoc.get key metadata with
  | none =>
    rw [held] at below
    cases below
    exact iff_of_false not_stampAt_none not_stampAt_none
  | some value =>
    rw [held] at below
    cases value with
    | obj stamps =>
      cases below
      exact stampAt_obj_cons
    | _ => cases below

theorem stampAt_subMap_nil (below : subMap (Assoc.get key metadata) = .ok subMeta) {now : Rat}
    (stamp : Assoc.get "timestamp" subMeta = some (.num now)) : StampAt (Assoc.get key metadata) [] now := by
  cases held : Assoc.get key metadata with
  | none =>
    rw [held] at below
    cases below
    cases stamp
  | some value =>
    rw [held] at below
    cases value with
    | obj stamps =>
      cases below
      exact stampAt_obj_nil.mpr stamp
    | _ => cases below

end

/-- A number in the metadata of a delta was one in the metadata. -/
theorem deltaDiff_num {key : String} {target source : Value} {metadata : Fields} {d : Option Value} {now : Rat}
    (answered : deltaDiff key target source metadata = .ok (d, some (.num now))) :
    Assoc.get key metadata = some (.num now) := by
  have copied : ∀ {held : Option Value}, held.bind notNil = some (.num now) → held = some (.num now) := by
    intro held found
    obtain ⟨value, rfl, kept⟩ := Option.bind_eq_some_iff.mp found
    exact congrArg some (notNil_eq_some.mp kept).2
  cases target with
  | obj t =>
    cases source with
    | obj s =>
      obtain ⟨subMeta, -, looping⟩ := bind_eq_ok.mp answered
      obtain ⟨loop, -, done⟩ := bind_eq_ok.mp looping
      obtain ⟨-, made⟩ := Prod.mk.inj (Except.ok.inj done)
      obtain ⟨-, same⟩ := created_eq_some.mp made
      cases same
    | _ => exact copied (Prod.mk.inj (Except.ok.inj answered)).2
  | arr items =>
    rw [deltaDiff_arr] at answered
    split at answered
    · cases answered
    · exact copied (Prod.mk.inj (Except.ok.inj answered)).2
  | _ =>
    rw [deltaDiff_atom rfl] at answered
    split at answered
    · cases answered
    · exact copied (Prod.mk.inj (Except.ok.inj answered)).2

theorem get_addField_other {key other : String} (apart : key ≠ other) (value : Option Value)
    (fields : Fields) : Assoc.get other (addField key value fields) = Assoc.get other fields := by
  cases value with
  | none => rfl
  | some value => exact Assoc.get_set_other apart value fields

/-- The metadata that the loop collects, field by field. -/
theorem get_deltaLoop {targets source metadata : Fields} (unique : Unique targets)
    {start found : Fields × Fields} (looped : deltaLoop targets source metadata start = .ok found) (key : String) :
    (Assoc.get key targets = none → Assoc.get key found.2 = Assoc.get key start.2) ∧
      ∀ target, Assoc.get key targets = some target → Assoc.get key start.2 = none → ∃ d,
        deltaDiff key target ((Assoc.get key source).getD .null) metadata = .ok (d, Assoc.get key found.2) := by
  induction targets generalizing start with
  | nil =>
    cases looped
    refine ⟨fun _ => rfl, fun target held => ?_⟩
    cases held
  | cons entry rest ih =>
    obtain ⟨head, first⟩ := entry
    obtain ⟨delta, deltaMeta⟩ := start
    obtain ⟨⟨d, dm⟩, diffed, looping⟩ := bind_eq_ok.mp looped
    obtain ⟨others, held⟩ := ih unique.tail looping
    rw [Assoc.get_cons]
    by_cases same : head = key
    · subst same
      rw [if_pos rfl]
      refine ⟨by simp, ?_⟩
      rintro target ⟨⟩ fresh
      refine ⟨d, ?_⟩
      rw [diffed, others unique.fresh]
      cases dm with
      | none => exact congrArg (fun held => Except.ok (d, held)) fresh.symm
      | some value => exact congrArg (fun held => Except.ok (d, held)) (Assoc.get_set_self _ _ _).symm
    · rw [if_neg same]
      rw [get_addField_other same] at others held
      exact ⟨others, held⟩

/-- The loop succeeds when it does for every field. -/
theorem deltaLoop_ok_iff {targets source metadata : Fields} (unique : Unique targets) (start : Fields × Fields) :
    (∃ found, deltaLoop targets source metadata start = .ok found) ↔ ∀ key target,
      Assoc.get key targets = some target → ∃ found,
        deltaDiff key target ((Assoc.get key source).getD .null) metadata = .ok found := by
  induction targets generalizing start with
  | nil =>
    refine iff_of_true ⟨start, rfl⟩ fun key target held => ?_
    cases held
  | cons entry rest ih =>
    obtain ⟨head, first⟩ := entry
    obtain ⟨delta, deltaMeta⟩ := start
    constructor
    · rintro ⟨found, looped⟩ key target held
      obtain ⟨⟨d, dm⟩, diffed, looping⟩ := bind_eq_ok.mp looped
      rw [Assoc.get_cons] at held
      split at held
      · rename_i same
        subst same
        cases held
        exact ⟨_, diffed⟩
      · exact (ih unique.tail _).mp ⟨found, looping⟩ key target held
    · intro each
      obtain ⟨⟨d, dm⟩, diffed⟩ := each head first (by rw [Assoc.get_cons, if_pos rfl])
      obtain ⟨found, looping⟩ := (ih unique.tail (addField head d delta, addField head dm deltaMeta)).mpr (by
        intro key target held
        refine each key target ?_
        rw [Assoc.get_cons, if_neg]
        · exact held
        · rintro rfl
          rw [unique.fresh] at held
          cases held)
      exact ⟨found, bind_eq_ok.mpr ⟨_, diffed, looping⟩⟩

/-- Where the whole target is the difference, its metadata goes with it. -/
theorem stampAt_whole {target : Value} {held : Option Value}
    (fits : ∀ path, (∃ now, StampAt held path now) ↔ ∃ leaf, LeafAt target path leaf)
    (path : List String) (now : Rat) :
    StampAt (held.bind notNil) path now ↔
      (∃ leaf d, notNil target = some d ∧ LeafAt d path leaf) ∧ StampAt held path now := by
  rw [stampAt_notNil]
  refine ⟨fun stamp => ⟨?_, stamp⟩, And.right⟩
  obtain ⟨leaf, reached⟩ := (fits path).mp ⟨now, stamp⟩
  refine ⟨leaf, target, notNil_eq_some.mpr ⟨?_, rfl⟩, reached⟩
  rintro rfl
  exact leafless_null path leaf reached

theorem stampAt_created_cons {stamps : Fields} {key : String} {path : List String} {now : Rat} :
    StampAt (created stamps) (key :: path) now ↔ StampAt (Assoc.get key stamps) path now := by
  cases stamps with
  | nil => exact iff_of_false not_stampAt_none not_stampAt_none
  | cons => exact stampAt_obj_cons

theorem stampAt_created_nil {stamps : Fields} {now : Rat} :
    StampAt (created stamps) [] now ↔ Assoc.get "timestamp" stamps = some (.num now) := by
  cases stamps with
  | nil => exact iff_of_false not_stampAt_none (by simp)
  | cons => exact stampAt_obj_nil

/-- No field of a delta of objects takes the place of a timestamp. -/
theorem not_timestamp {targets source subMeta : Fields} (unique : Unique targets)
    (never : ∀ now, Assoc.get "timestamp" subMeta ≠ some (.num now)) {found : Fields × Fields}
    (looped : deltaLoop targets source subMeta ([], []) = .ok found) (now : Rat) :
    Assoc.get "timestamp" found.2 ≠ some (.num now) := by
  intro there
  obtain ⟨missing, held⟩ := get_deltaLoop unique looped "timestamp"
  cases held' : Assoc.get "timestamp" targets with
  | none =>
    rw [missing held'] at there
    cases there
  | some value =>
    obtain ⟨d, diffed⟩ := held value held' rfl
    rw [there] at diffed
    exact never now (deltaDiff_num diffed)

/-- The timestamps of the difference are those of the metadata at its leaves. -/
theorem stampAt_deltaDiff {key : String} {target source : Value} {metadata : Fields}
    (unique : target.unique = true)
    (fits : ∀ path, (∃ now, StampAt (Assoc.get key metadata) path now) ↔ ∃ leaf, LeafAt target path leaf)
    {d dm : Option Value} (answered : deltaDiff key target source metadata = .ok (d, dm))
    (path : List String) (now : Rat) :
    StampAt dm path now ↔ (∃ leaf d', difference target source = some d' ∧ LeafAt d' path leaf) ∧
      StampAt (Assoc.get key metadata) path now := by
  induction target using Value.object_induction generalizing key source metadata d dm path with
  | leaf target plain =>
    cases target with
    | obj => cases plain
    | arr items =>
      rw [deltaDiff_arr] at answered
      rw [difference_arr]
      split at answered <;> rename_i same <;> cases answered
      · simp [same, not_stampAt_none]
      · rw [if_neg same]
        exact stampAt_whole fits path now
    | _ =>
      rw [deltaDiff_atom rfl] at answered
      rw [difference_atom rfl]
      split at answered <;> rename_i same <;> cases answered
      · simp [same, not_stampAt_none]
      · rw [if_neg same]
        exact stampAt_whole fits path now
  | obj t ih =>
    by_cases entered : ∃ s, source = .obj s
    · obtain ⟨s, rfl⟩ := entered
      obtain ⟨subMeta, below, looping⟩ := bind_eq_ok.mp answered
      obtain ⟨⟨delta, deltaMeta⟩, looped, done⟩ := bind_eq_ok.mp looping
      cases done
      rw [difference_obj]
      cases path with
      | nil =>
        rw [stampAt_created_nil]
        refine iff_of_false (not_timestamp unique (fun now stamp => ?_) looped now) ?_
        · obtain ⟨leaf, reached⟩ := (fits []).mp ⟨now, stampAt_subMap_nil below stamp⟩
          exact not_leafAt_obj_nil reached
        · rintro ⟨⟨leaf, reached⟩, -⟩
          exact not_leafAt_created_nil reached
      | cons next path =>
        simp only [stampAt_created_cons, leafAt_created_cons, stampAt_subMap below, get_differences unique]
        obtain ⟨missing, held⟩ := get_deltaLoop unique looped next
        cases found : Assoc.get next t with
        | none =>
          rw [missing found]
          exact iff_of_false not_stampAt_none (by simp)
        | some value =>
          obtain ⟨d, diffed⟩ := held value found rfl
          have fitsBelow : ∀ path, (∃ now, StampAt (Assoc.get next subMeta) path now) ↔
              ∃ leaf, LeafAt value path leaf := by
            intro path
            simp only [← stampAt_subMap below, fits, leafAt_obj_cons, found, Option.some.injEq,
              exists_eq_left']
          exact ih next value (Assoc.mem_of_get found) (Unique.value unique found) fitsBelow diffed path
    · have plain : source.isObject = false := by
        cases source with
        | obj s => exact absurd ⟨s, rfl⟩ entered
        | _ => rfl
      have answer : deltaDiff key (.obj t) source metadata =
          .ok (some (.obj t), (Assoc.get key metadata).bind notNil) := by
        cases source with
        | obj => cases plain
        | _ => rfl
      rw [answer] at answered
      cases answered
      rw [difference_obj_bare plain]
      exact stampAt_whole fits path now

/-- A clash of objects is one below a field of theirs. -/
theorem clash_obj_iff {key : String} {t s metadata subMeta : Fields}
    (below : subMap (Assoc.get key metadata) = .ok subMeta) :
    Clash (.obj t) (.obj s) (Assoc.get key metadata) ↔ ∃ next value, Assoc.get next t = some value ∧
      Clash value ((Assoc.get next s).getD .null) (Assoc.get next subMeta) := by
  cases held : Assoc.get key metadata with
  | none =>
    rw [held] at below
    cases below
    refine iff_of_false ?_ ?_
    · rintro ⟨path, t', s', value, entry, -, -, ⟨⟩, -⟩
    · rintro ⟨next, value, -, path, t', s', stamp, entry, -, -, ⟨⟩, -⟩
  | some value =>
    rw [held] at below
    cases value with
    | obj stamps =>
      cases below
      constructor
      · rintro ⟨_ | ⟨next, path⟩, t', s', value, entry, target, source, same, reached, plain⟩
        · cases same
          rw [walk_nil, Option.some.injEq] at reached
          rw [← reached] at plain
          cases plain
        · cases same
          rw [walk_obj_cons, Option.bind_eq_some_iff] at target source reached
          obtain ⟨value, found, target⟩ := target
          obtain ⟨held', found', source⟩ := source
          obtain ⟨stamp, found'', reached⟩ := reached
          refine ⟨next, value, found, path, t', s', stamp, entry, target, ?_, found'', reached, plain⟩
          rw [found']
          exact source
      · rintro ⟨next, value, found, path, t', s', stamp, entry, target, source, found'', reached, plain⟩
        refine ⟨next :: path, t', s', _, entry, ?_, ?_, rfl, ?_, plain⟩
        · rw [walk_obj_cons, found]
          exact target
        · rw [walk_obj_cons]
          cases found' : Assoc.get next s with
          | some held' =>
            rw [found'] at source
            exact source
          | none =>
            rw [found'] at source
            cases path <;> cases source
        · rw [walk_obj_cons, found'']
          exact reached
    | _ => cases below

/-- The difference of one field is answered unless the metadata clashes. -/
theorem deltaDiff_ok_iff {target : Value} (unique : target.unique = true) (key : String) (source : Value)
    (metadata : Fields) : (∃ found, deltaDiff key target source metadata = .ok found) ↔
      ¬ Clash target source (Assoc.get key metadata) := by
  induction target using Value.object_induction generalizing key source metadata with
  | leaf target plain =>
    refine iff_of_true ?_ ?_
    · cases target with
      | obj => cases plain
      | arr items =>
        rw [deltaDiff_arr]
        split <;> exact ⟨_, rfl⟩
      | _ =>
        rw [deltaDiff_atom rfl]
        split <;> exact ⟨_, rfl⟩
    · rintro ⟨path, t, s, value, entry, reached, -⟩
      cases path with
      | nil =>
        rw [walk_nil, Option.some.injEq] at reached
        rw [reached] at plain
        cases plain
      | cons head path =>
        rw [walk_cons_of_not_object plain] at reached
        cases reached
  | obj t ih =>
    by_cases entered : ∃ s, source = .obj s
    · obtain ⟨s, rfl⟩ := entered
      cases below : subMap (Assoc.get key metadata) with
      | error panic =>
        refine iff_of_false ?_ fun calm => calm ?_
        · rintro ⟨found, answered⟩
          rw [deltaDiff, below] at answered
          cases answered
        · cases held : Assoc.get key metadata with
          | none =>
            rw [held] at below
            cases below
          | some value =>
            rw [held] at below
            refine ⟨[], t, s, value, value, rfl, rfl, rfl, walk_nil value, ?_⟩
            cases value with
            | obj => cases below
            | _ => rfl
      | ok subMeta =>
        have looping : (∃ found, deltaDiff key (.obj t) (.obj s) metadata = .ok found) ↔
            ∃ loop, deltaLoop t s subMeta ([], []) = .ok loop := by
          constructor
          · rintro ⟨found, answered⟩
            obtain ⟨subMeta', below', answered⟩ := bind_eq_ok.mp answered
            rw [below] at below'
            cases below'
            obtain ⟨loop, looped, -⟩ := bind_eq_ok.mp answered
            exact ⟨loop, looped⟩
          · rintro ⟨loop, looped⟩
            exact ⟨_, bind_eq_ok.mpr ⟨subMeta, below, bind_eq_ok.mpr ⟨loop, looped, rfl⟩⟩⟩
        rw [looping, deltaLoop_ok_iff unique, clash_obj_iff below]
        push Not
        refine forall_congr' fun next => forall_congr' fun value => forall_congr' fun found => ?_
        exact ih next value (Assoc.mem_of_get found) (Unique.value unique found) next _ subMeta
    · have plain : source.isObject = false := by
        cases source with
        | obj s => exact absurd ⟨s, rfl⟩ entered
        | _ => rfl
      refine iff_of_true ?_ ?_
      · cases source with
        | obj => cases plain
        | _ => exact ⟨_, rfl⟩
      · rintro ⟨path, t', s, value, entry, -, reached, -⟩
        cases path with
        | nil =>
          rw [walk_nil, Option.some.injEq] at reached
          rw [reached] at plain
          cases plain
        | cons head path =>
          rw [walk_cons_of_not_object plain] at reached
          cases reached

section

variable {t s : Fields} {metadata : GoMap} {delta deltaMeta : Fields}

/-- The document as the field of a map, so that what holds of fields holds of it. -/
def asField (metadata : GoMap) : Fields := (metadata.map fun stamps => ("", Value.obj stamps)).toList

theorem get_asField (metadata : GoMap) : Assoc.get "" (asField metadata) = metadata.map .obj := by
  cases metadata <;> rfl

theorem subMap_asField (metadata : GoMap) : subMap (Assoc.get "" (asField metadata)) = .ok (metadata.getD []) := by
  cases metadata <;> rfl

/-- The whole delta is the difference of one field that holds the documents. -/
theorem deltaState_eq_ok_iff {found : GoMap × GoMap} :
    deltaState (some t) (some s) metadata = .ok found ↔ ∃ delta deltaMeta, found = (some delta, some deltaMeta) ∧
      deltaLoop t s (metadata.getD []) ([], []) = .ok (delta, deltaMeta) := by
  constructor
  · intro answered
    obtain ⟨⟨delta, deltaMeta⟩, looped, done⟩ := bind_eq_ok.mp answered
    cases done
    exact ⟨delta, deltaMeta, rfl, looped⟩
  · rintro ⟨delta, deltaMeta, rfl, looped⟩
    exact bind_eq_ok.mpr ⟨_, looped, rfl⟩

theorem deltaDiff_of_loop (looped : deltaLoop t s (metadata.getD []) ([], []) = .ok (delta, deltaMeta)) :
    deltaDiff "" (.obj t) (.obj s) (asField metadata) = .ok (created delta, created deltaMeta) :=
  bind_eq_ok.mpr ⟨_, subMap_asField metadata, bind_eq_ok.mpr ⟨_, looped, rfl⟩⟩

theorem leafIn_iff_created {path : List String} {leaf : Value} :
    LeafIn (some delta) path leaf ↔ ∃ d, created delta = some d ∧ LeafAt d path leaf := by
  simp only [LeafIn, Option.some.injEq, exists_eq_left']
  cases path with
  | nil => exact iff_of_false not_leafAt_obj_nil not_leafAt_created_nil
  | cons key path => rw [leafAt_obj_cons, leafAt_created_cons]

theorem stampAt_created {path : List String} {now : Rat} :
    StampAt (some (.obj deltaMeta)) path now ↔ StampAt (created deltaMeta) path now := by
  cases path with
  | nil => rw [stampAt_obj_nil, stampAt_created_nil]
  | cons key path => rw [stampAt_obj_cons, stampAt_created_cons]

end

/-- The delta of two documents is answered unless the metadata clashes with them. -/
theorem deltaState_ok_iff (desired reported : Option Document) (metadata : GoMap) :
    (∃ found, deltaState (desired.map Document.fields) (reported.map Document.fields) metadata = .ok found) ↔
      ¬ ∃ t s, desired = some t ∧ reported = some s ∧
        Clash (.obj t.fields) (.obj s.fields) (metadata.map .obj) := by
  cases desired with
  | none => exact iff_of_true ⟨_, rfl⟩ (by simp)
  | some t =>
    cases reported with
    | none => exact iff_of_true ⟨_, rfl⟩ (by simp)
    | some s =>
      have whole : (Value.obj t.fields).unique = true := t.unique
      have field := deltaDiff_ok_iff whole "" (.obj s.fields) (asField metadata)
      rw [get_asField] at field
      simp only [Option.map_some, Option.some.injEq, exists_and_left, exists_eq_left']
      rw [← field]
      constructor
      · rintro ⟨found, answered⟩
        obtain ⟨delta, deltaMeta, -, looped⟩ := deltaState_eq_ok_iff.mp answered
        exact ⟨_, deltaDiff_of_loop looped⟩
      · rintro ⟨found, answered⟩
        obtain ⟨subMeta, below, looping⟩ := bind_eq_ok.mp answered
        rw [subMap_asField] at below
        cases below
        obtain ⟨⟨delta, deltaMeta⟩, looped, -⟩ := bind_eq_ok.mp looping
        exact ⟨_, deltaState_eq_ok_iff.mpr ⟨delta, deltaMeta, rfl, looped⟩⟩

/-- The leaves and the timestamps of an answered delta. -/
theorem deltaState_leaves {desired reported : Option Document} {metadata : GoMap}
    (stamps : ∀ path, Stamped (metadata.map .obj) path ↔ ∃ leaf, LeafIn (desired.map Document.fields) path leaf)
    {found : GoMap × GoMap}
    (answered : deltaState (desired.map Document.fields) (reported.map Document.fields) metadata = .ok found) :
    (∀ path leaf, LeafIn found.1 path leaf ↔ LeafIn (desired.map Document.fields) path leaf ∧
      ¬ Reported (reported.map Document.fields) path leaf) ∧
    ∀ path now, StampAt (found.2.map .obj) path now ↔
      (∃ leaf, LeafIn found.1 path leaf) ∧ StampAt (metadata.map .obj) path now := by
  cases desired with
  | none =>
    cases answered
    simp only [LeafIn, Option.map_none, reduceCtorEq, false_and, exists_false, implies_true, not_stampAt_none,
      and_self]
  | some t =>
    cases reported with
    | none =>
      cases answered
      refine ⟨fun path leaf => ⟨fun reached => ⟨reached, by simp [Reported]⟩, And.left⟩, fun path now => ?_⟩
      refine ⟨fun stamp => ⟨(stamps path).mp (stamped_iff_stampAt.mpr ⟨now, stamp⟩), stamp⟩, And.right⟩
    | some s =>
      obtain ⟨delta, deltaMeta, rfl, looped⟩ := deltaState_eq_ok_iff.mp answered
      have whole : (Value.obj t.fields).unique = true := t.unique
      have diffed := deltaDiff_of_loop looped
      have state : created delta = difference (.obj t.fields) (.obj s.fields) :=
        deltaDiff_fst "" _ _ _ whole _ diffed
      constructor
      · intro path leaf
        rw [leafIn_iff_created, state, leafAt_difference whole]
        simp [LeafIn, Reported]
      · intro path now
        have fits : ∀ path, (∃ now, StampAt (Assoc.get "" (asField metadata)) path now) ↔
            ∃ leaf, LeafAt (.obj t.fields) path leaf := by
          intro path
          rw [get_asField, ← stamped_iff_stampAt, stamps]
          simp [LeafIn]
        have below := stampAt_deltaDiff whole fits diffed path now
        rw [get_asField, ← state] at below
        simp only [leafIn_iff_created]
        exact stampAt_created.trans below

/-- The state part of a delta does not depend on the metadata. -/
theorem deltaState_state {desired reported : Option Document} {metadata other : GoMap} {found found' : GoMap × GoMap}
    (answered : deltaState (desired.map Document.fields) (reported.map Document.fields) metadata = .ok found)
    (answered' : deltaState (desired.map Document.fields) (reported.map Document.fields) other = .ok found') :
    found'.1 = found.1 := by
  cases desired with
  | none =>
    cases answered
    cases answered'
    rfl
  | some t =>
    cases reported with
    | none =>
      cases answered
      cases answered'
      rfl
    | some s => rw [deltaState_fst t.unique answered, deltaState_fst t.unique answered']

/-- What a delta means, for metadata whose timestamps stand at the desired leaves. -/
theorem delta_meaning (desired reported : Option Document) (metadata : GoMap)
    (stamps : ∀ path, Stamped (metadata.map .obj) path ↔ ∃ leaf, LeafIn (desired.map Document.fields) path leaf) :
    ((∃ found, deltaState (desired.map Document.fields) (reported.map Document.fields) metadata = .ok found) ↔
      ¬ ∃ t s, desired = some t ∧ reported = some s ∧
        Clash (.obj t.fields) (.obj s.fields) (metadata.map .obj)) ∧
    ∀ found, deltaState (desired.map Document.fields) (reported.map Document.fields) metadata = .ok found →
      (∀ path leaf, LeafIn found.1 path leaf ↔ LeafIn (desired.map Document.fields) path leaf ∧
        ¬ Reported (reported.map Document.fields) path leaf) ∧
      (∀ path, Stamped (found.2.map .obj) path ↔ ∃ leaf, LeafIn found.1 path leaf) ∧
      (∀ path now, StampAt (found.2.map .obj) path now → StampAt (metadata.map .obj) path now) ∧
      (∃ bare, deltaState (desired.map Document.fields) (reported.map Document.fields) none = .ok bare) ∧
      ∀ other found', deltaState (desired.map Document.fields) (reported.map Document.fields) other = .ok found' →
        found'.1 = found.1 := by
  refine ⟨deltaState_ok_iff desired reported metadata, fun found answered => ?_⟩
  obtain ⟨leaves, times⟩ := deltaState_leaves stamps answered
  refine ⟨leaves, fun path => ?_, fun path now stamp => ((times path now).mp stamp).2, ?_, ?_⟩
  · rw [stamped_iff_stampAt]
    constructor
    · rintro ⟨now, stamp⟩
      exact ((times path now).mp stamp).1
    · rintro ⟨leaf, reached⟩
      have wanted := ((leaves path leaf).mp reached).1
      obtain ⟨now, stamp⟩ := stamped_iff_stampAt.mp ((stamps path).mpr ⟨leaf, wanted⟩)
      exact ⟨now, (times path now).mpr ⟨⟨leaf, reached⟩, stamp⟩⟩
  · refine (deltaState_ok_iff desired reported none).mpr ?_
    rintro ⟨t, s, -, -, path, t', s', value, entry, -, -, ⟨⟩, -⟩
  · exact fun other found' answered' => deltaState_state answered answered'

/-- A lamp is to have a level and a limit, and reports the level. -/
def levelDesired : Document := ⟨[("a", .obj [("level", .num 1), ("limit", .num 2)])], by decide⟩

def levelReported : Document := ⟨[("a", .obj [("level", .num 1)])], by decide⟩

def levelMetadata : GoMap := some [("a", .obj [("level", timestamp 7), ("limit", timestamp 8)])]

theorem levelDesired_stamped (path : List String) :
    Stamped (levelMetadata.map .obj) path ↔
      ∃ leaf, LeafIn (((some levelDesired).map Document.fields)) path leaf := by
  have mirrors : MirrorsMap levelDesired.fields levelMetadata := by
    intro key
    simp only [levelDesired, levelMetadata, Option.getD_some, Assoc.get_cons, Assoc.get_nil]
    split
    · refine .obj fun key => ?_
      simp only [Assoc.get_cons, Assoc.get_nil]
      split
      · exact .leaf rfl 7
      · split
        · exact .leaf rfl 8
        · exact .absent
    · exact .absent
  simpa [LeafIn] using mirrors.stamped_iff path

theorem levelDesired_delta : ∃ found : GoMap × GoMap,
    deltaState ((some levelDesired).map Document.fields) ((some levelReported).map Document.fields) levelMetadata =
      .ok found ∧
    LeafIn found.1 ["a", "limit"] (.num 2) ∧ ¬ LeafIn found.1 ["a", "level"] (.num 1) ∧
    Stamped (found.2.map .obj) ["a", "limit"] ∧
    ∀ path, Stamped (found.2.map .obj) path ↔ ∃ leaf, LeafIn found.1 path leaf := by
  have meaning := delta_meaning (some levelDesired) (some levelReported) levelMetadata levelDesired_stamped
  have answered : deltaState ((some levelDesired).map Document.fields) ((some levelReported).map Document.fields)
      levelMetadata = .ok (some [("a", .obj [("limit", .num 2)])], some [("a", .obj [("limit", timestamp 8)])]) := rfl
  obtain ⟨leaves, stamps, -⟩ := meaning.2 _ answered
  have limit : LeafIn (some [("a", .obj [("limit", .num 2)])]) ["a", "limit"] (.num 2) := ⟨_, rfl, rfl, rfl⟩
  refine ⟨_, answered, limit, fun level => ?_, (stamps _).mpr ⟨_, limit⟩, stamps⟩
  exact ((leaves _ _).mp level).2 ⟨_, .num 1, rfl, rfl, rfl⟩

def hollowField : Document := ⟨[("a", .obj [])], by decide⟩

theorem not_leafIn_hollowField (path : List String) (leaf : Value) :
    ¬ LeafIn ((some hollowField).map Document.fields) path leaf := by
  rintro ⟨_, ⟨⟩, reached⟩
  have hollow : Leafless (.obj hollowField.fields) := by
    refine leafless_obj_iff.mpr fun key value found => ?_
    simp only [hollowField, Assoc.get_cons, Assoc.get_nil] at found
    split at found <;> cases found
    exact leafless_obj_nil
  exact hollow path leaf reached

theorem not_stamped_number (path : List String) :
    ¬ Stamped ((some [("a", .num 5)] : GoMap).map .obj) path := by
  cases path with
  | nil => simp [stamped_obj_nil, Assoc.get_cons]
  | cons key path =>
    rw [Option.map_some, stamped_obj_cons, Assoc.get_cons]
    split
    · rintro ⟨value, below, now, ⟨⟩, reached, -⟩
      cases path <;> cases reached
    · exact not_stamped_none path

/-- A number in the place of the metadata of an empty object: the assertion fails. -/
theorem number_fails_assertion : ¬ ∀ (desired reported : Option Document) (metadata : GoMap),
    (∀ path, Stamped (metadata.map .obj) path ↔ ∃ leaf, LeafIn (desired.map Document.fields) path leaf) →
    ∃ found, deltaState (desired.map Document.fields) (reported.map Document.fields) metadata = .ok found := by
  intro never
  have fits : ∀ path, Stamped ((some [("a", .num 5)] : GoMap).map .obj) path ↔
      ∃ leaf, LeafIn ((some hollowField).map Document.fields) path leaf := by
    refine fun path => iff_of_false (not_stamped_number path) ?_
    rintro ⟨leaf, reached⟩
    exact not_leafIn_hollowField path leaf reached
  obtain ⟨found, answered⟩ := never (some hollowField) (some hollowField) _ fits
  cases answered

end Tio.Shadow
