import Mathlib.Data.List.Perm.Subperm
import Tio.Shadow.Leaves

/-! What the desired document holds that the reported one does not (`DeltaState`
and `deltaDiff` of `merge.go`). -/

namespace Tio.Shadow

open Tio.Core Tio.Json

mutual

/-- `reflect.DeepEqual`: maps are compared as maps, so by their entries. -/
def deepEqual : Value → Value → Bool
  | .null, .null => true
  | .bool left, .bool right => left == right
  | .num left, .num right => left == right
  | .str left, .str right => left == right
  | .arr left, .arr right => deepEqualItems left right
  | .obj left, .obj right => left.length == right.length && deepEqualFields left right
  | _, _ => false
termination_by structural left => left

def deepEqualItems : List Value → List Value → Bool
  | [], [] => true
  | left :: lefts, right :: rights => deepEqual left right && deepEqualItems lefts rights
  | _, _ => false
termination_by structural lefts => lefts

def deepEqualFields : Fields → Fields → Bool
  | [], _ => true
  | (key, left) :: lefts, rights =>
    (match Assoc.get key rights with
      | some right => deepEqual left right
      | none => false) && deepEqualFields lefts rights
termination_by structural lefts => lefts

end

/-- `t == source` for `t` of a scalar type or `nil`: both type and value agree. -/
def equalScalar : Value → Value → Bool
  | .null, .null => true
  | .bool left, .bool right => left == right
  | .num left, .num right => left == right
  | .str left, .str right => left == right
  | _, _ => false

/-- An interface value that may be `nil`. -/
def notNil : Value → Option Value
  | .null => none
  | value => some value

/-- A map that is created with its first entry. -/
def created : Fields → Option Value
  | [] => none
  | fields => some (.obj fields)

/-- `if d != nil { m[k] = d }` -/
def addField (key : String) : Option Value → Fields → Fields
  | some value, fields => Assoc.set key value fields
  | none, fields => fields

mutual

def deltaDiff (key : String) : (target source : Value) → (metadata : Fields) →
    Except Panic (Option Value × Option Value)
  | .obj t, .obj s, metadata => do
    let subMeta ← subMap (Assoc.get key metadata)
    let (delta, deltaMeta) ← deltaLoop t s subMeta ([], [])
    .ok (created delta, created deltaMeta)
  | .obj t, _, metadata => .ok (some (.obj t), (Assoc.get key metadata).bind notNil)
  | .arr items, source, metadata =>
    if deepEqual (.arr items) source then .ok (none, none)
    else .ok (some (.arr items), (Assoc.get key metadata).bind notNil)
  | target, source, metadata =>
    if equalScalar target source then .ok (none, none)
    else .ok (notNil target, (Assoc.get key metadata).bind notNil)
termination_by structural target => target

/-- The loop over the fields of the target; a field the source lacks reads as `nil`. -/
def deltaLoop : Fields → Fields → Fields → Fields × Fields → Except Panic (Fields × Fields)
  | [], _, _, found => .ok found
  | (key, target) :: rest, source, metadata, (delta, deltaMeta) => do
    let (d, dm) ← deltaDiff key target ((Assoc.get key source).getD .null) metadata
    deltaLoop rest source metadata (addField key d delta, addField key dm deltaMeta)
termination_by structural targets => targets

end

def deltaState : (desired reported metadata : GoMap) → Except Panic (GoMap × GoMap)
  | none, _, _ => .ok (none, none)
  | some desired, none, metadata => .ok (some desired, metadata)
  | some desired, some reported, metadata => do
    let (delta, deltaMeta) ← deltaLoop desired reported (metadata.getD []) ([], [])
    .ok (some delta, some deltaMeta)

mutual

/-- The state part of a delta, without its timestamps. -/
def difference : (target source : Value) → Option Value
  | .obj t, .obj s => created (differences t s)
  | .obj t, _ => some (.obj t)
  | .arr items, source => if deepEqual (.arr items) source then none else some (.arr items)
  | target, source => if equalScalar target source then none else notNil target
termination_by structural target => target

def differences : Fields → Fields → Fields
  | [], _ => []
  | (key, target) :: rest, source =>
    match difference target ((Assoc.get key source).getD .null) with
    | some d => (key, d) :: differences rest source
    | none => differences rest source
termination_by structural targets => targets

end

mutual

theorem deepEqual_refl : ∀ value : Value, value.unique = true → deepEqual value value = true
  | .null, _ => rfl
  | .bool _, _ => by simp [deepEqual]
  | .num _, _ => by simp [deepEqual]
  | .str _, _ => by simp [deepEqual]
  | .arr items, unique => deepEqualItems_refl items unique
  | .obj fields, unique => by
    rw [deepEqual, beq_self_eq_true, Bool.true_and]
    obtain ⟨distinct, each⟩ := unique_iff.mp unique
    exact deepEqualFields_refl fields fields each
      fun key value member => Assoc.get_of_mem distinct member
termination_by structural value => value

theorem deepEqualItems_refl : ∀ items : List Value, uniqueItems items = true →
    deepEqualItems items items = true
  | [], _ => rfl
  | item :: rest, unique => by
    rw [uniqueItems, Bool.and_eq_true] at unique
    rw [deepEqualItems, deepEqual_refl item unique.1, deepEqualItems_refl rest unique.2]
    rfl
termination_by structural items => items

theorem deepEqualFields_refl : ∀ fields whole : Fields,
    (∀ key value, (key, value) ∈ fields → value.unique = true) →
    (∀ key value, (key, value) ∈ fields → Assoc.get key whole = some value) →
    deepEqualFields fields whole = true
  | [], _, _, _ => rfl
  | (key, value) :: rest, whole, unique, found => by
    rw [deepEqualFields, found key value List.mem_cons_self]
    simp only [deepEqual_refl value (unique key value List.mem_cons_self), Bool.true_and]
    exact deepEqualFields_refl rest whole
      (fun other held member => unique other held (List.mem_cons_of_mem _ member))
      (fun other held member => found other held (List.mem_cons_of_mem _ member))
termination_by structural fields => fields

end

theorem deepEqualFields_get {lefts rights : Fields} (same : deepEqualFields lefts rights = true)
    {key : String} {left : Value} (found : Assoc.get key lefts = some left) :
    ∃ right, Assoc.get key rights = some right ∧ deepEqual left right = true := by
  induction lefts with
  | nil => cases found
  | cons entry rest ih =>
    obtain ⟨head, first⟩ := entry
    rw [deepEqualFields, Bool.and_eq_true] at same
    rw [Assoc.get_cons] at found
    split at found
    · rename_i here
      subst here
      cases found
      cases other : Assoc.get head rights with
      | none => simp [other] at same
      | some right => exact ⟨right, rfl, by simpa [other] using same.1⟩
    · exact ih same.2 found

theorem deepEqualFields_iff {lefts : Fields} (distinct : (Assoc.keys lefts).Nodup) (rights : Fields) :
    deepEqualFields lefts rights = true ↔ ∀ key left, Assoc.get key lefts = some left →
      ∃ right, Assoc.get key rights = some right ∧ deepEqual left right = true := by
  constructor
  · exact fun same key left found => deepEqualFields_get same found
  · intro each
    induction lefts with
    | nil => rfl
    | cons entry rest ih =>
      obtain ⟨head, first⟩ := entry
      obtain ⟨fresh, distinct'⟩ := List.nodup_cons.mp distinct
      obtain ⟨right, found, same⟩ := each head first (by simp [Assoc.get_cons])
      rw [deepEqualFields, found]
      simp only [same, Bool.true_and]
      apply ih distinct'
      intro key left held
      have apart : head ≠ key := by
        rintro rfl
        exact fresh (List.mem_map.mpr ⟨_, Assoc.mem_of_get held, rfl⟩)
      apply each key left
      rw [Assoc.get_cons, if_neg apart]
      exact held

/-- Two fields that may be missing are missing both, or deeply equal. -/
def SameField : Option Value → Option Value → Prop
  | none, none => True
  | some left, some right => deepEqual left right = true
  | _, _ => False

theorem sameField_none_iff {field : Option Value} : SameField field none ↔ field = none := by
  cases field <;> simp [SameField]

theorem sameField_none_left_iff {field : Option Value} : SameField none field ↔ field = none := by
  cases field <;> simp [SameField]

/-- Objects are deeply equal when they are, field by field. -/
theorem deepEqual_obj_iff {lefts rights : Fields} (distinct : (Assoc.keys lefts).Nodup)
    (distinct' : (Assoc.keys rights).Nodup) :
    deepEqual (.obj lefts) (.obj rights) = true ↔
      ∀ key, SameField (Assoc.get key lefts) (Assoc.get key rights) := by
  rw [deepEqual, Bool.and_eq_true, beq_iff_eq, deepEqualFields_iff distinct]
  have count : ∀ fields : Fields, (Assoc.keys fields).length = fields.length := fun _ => List.length_map _
  constructor
  · intro ⟨length, each⟩ key
    have below : Assoc.keys lefts ⊆ Assoc.keys rights := by
      intro other member
      obtain ⟨⟨_, left⟩, held, rfl⟩ := List.mem_map.mp member
      obtain ⟨right, found, -⟩ := each _ left (Assoc.get_of_mem distinct held)
      exact List.mem_map.mpr ⟨_, Assoc.mem_of_get found, rfl⟩
    -- as many keys, each of them on the other side too
    have above : Assoc.keys rights ⊆ Assoc.keys lefts := by
      have same := (List.subperm_of_subset distinct below).perm_of_length_le (by rw [count, count, length])
      exact same.symm.subset
    cases found : Assoc.get key lefts with
    | some left =>
      obtain ⟨right, found', same⟩ := each key left found
      rw [found']
      exact same
    | none =>
      have missing : key ∉ Assoc.keys rights := fun member => Assoc.get_eq_none_iff.mp found (above member)
      rw [Assoc.get_eq_none_iff.mpr missing]
      trivial
  · intro fields
    constructor
    · have same : (Assoc.keys lefts).Perm (Assoc.keys rights) := by
        rw [List.perm_ext_iff_of_nodup distinct distinct']
        intro key
        rw [← not_iff_not, ← Assoc.get_eq_none_iff, ← Assoc.get_eq_none_iff]
        constructor <;> intro missing
        · exact sameField_none_left_iff.mp (missing ▸ fields key)
        · exact sameField_none_iff.mp (missing ▸ fields key)
      rw [← count, ← count, same.length_eq]
    · intro key left found
      have field := fields key
      rw [found] at field
      cases found' : Assoc.get key rights with
      | none =>
        rw [found'] at field
        exact field.elim
      | some right =>
        rw [found'] at field
        exact ⟨right, rfl, field⟩

theorem differences_cons_some {key : String} {target d : Value} {rest source : Fields}
    (differs : difference target ((Assoc.get key source).getD .null) = some d) :
    differences ((key, target) :: rest) source = (key, d) :: differences rest source := by
  rw [differences, differs]

theorem differences_cons_none {key : String} {target : Value} {rest source : Fields}
    (same : difference target ((Assoc.get key source).getD .null) = none) :
    differences ((key, target) :: rest) source = differences rest source := by
  rw [differences, same]

/-- The delta, field by field. -/
theorem get_differences {targets : Fields} (unique : Unique targets) (source : Fields)
    (key : String) : Assoc.get key (differences targets source) =
      (Assoc.get key targets).bind fun target =>
        difference target ((Assoc.get key source).getD .null) := by
  induction targets with
  | nil => rfl
  | cons entry rest ih =>
    obtain ⟨head, target⟩ := entry
    have later := ih unique.tail
    cases differs : difference target ((Assoc.get head source).getD .null) with
    | none =>
      rw [differences_cons_none differs, later, Assoc.get_cons]
      split
      · rename_i same
        subst same
        simp [unique.fresh, differs]
      · rfl
    | some d =>
      rw [differences_cons_some differs, Assoc.get_cons, Assoc.get_cons, later]
      split
      · rename_i same
        subst same
        simp [differs]
      · rfl

theorem created_eq_some {fields : Fields} {value : Value} :
    created fields = some value ↔ fields ≠ [] ∧ value = .obj fields := by
  cases fields <;> simp [created, eq_comm]

theorem created_eq_none {fields : Fields} : created fields = none ↔ fields = [] := by
  cases fields <;> simp [created]

/-- Null, a boolean, a number or a string: compared by `==`. -/
def isAtom : Value → Bool
  | .obj _ | .arr _ => false
  | _ => true

theorem difference_atom {target : Value} (atom : isAtom target = true) (source : Value) :
    difference target source = if equalScalar target source then none else notNil target := by
  cases target <;> cases source <;> first | rfl | cases atom

theorem deltaDiff_atom {target : Value} (atom : isAtom target = true) (key : String)
    (source : Value) (metadata : Fields) : deltaDiff key target source metadata =
      if equalScalar target source then .ok (none, none)
      else .ok (notNil target, (Assoc.get key metadata).bind notNil) := by
  cases target <;> cases source <;> first | rfl | cases atom

theorem difference_arr (items : List Value) (source : Value) : difference (.arr items) source =
    if deepEqual (.arr items) source then none else some (.arr items) := by
  cases source <;> rfl

theorem deltaDiff_arr (key : String) (items : List Value) (source : Value) (metadata : Fields) :
    deltaDiff key (.arr items) source metadata =
      if deepEqual (.arr items) source then .ok (none, none)
      else .ok (some (.arr items), (Assoc.get key metadata).bind notNil) := by
  cases source <;> rfl

theorem notNil_eq_some {value found : Value} :
    notNil value = some found ↔ value ≠ .null ∧ value = found := by
  cases value <;> simp [notNil]

theorem difference_obj {t s : Fields} :
    difference (.obj t) (.obj s) = created (differences t s) := rfl

theorem difference_obj_bare {t : Fields} {source : Value} (plain : source.isObject = false) :
    difference (.obj t) source = some (.obj t) := by
  cases source <;> first | rfl | cases plain

mutual

theorem difference_unique : ∀ (target source : Value) (d : Value), target.unique = true →
    difference target source = some d → d.unique = true
  | .obj t, .obj s, d, unique, differs => by
    obtain ⟨-, rfl⟩ := created_eq_some.mp differs
    exact differences_unique t s unique
  | .obj t, .null, d, unique, differs | .obj t, .bool _, d, unique, differs
  | .obj t, .num _, d, unique, differs | .obj t, .str _, d, unique, differs
  | .obj t, .arr _, d, unique, differs => by
    cases differs
    exact unique
  | .arr items, source, d, unique, differs => by
    rw [difference_arr] at differs
    split at differs
    · cases differs
    · cases differs
      exact unique
  | .null, source, d, unique, differs | .bool _, source, d, unique, differs
  | .num _, source, d, unique, differs | .str _, source, d, unique, differs => by
    rw [difference_atom rfl] at differs
    split at differs
    · cases differs
    · obtain ⟨-, rfl⟩ := notNil_eq_some.mp differs
      exact unique
termination_by structural target => target

theorem differences_unique : ∀ targets source : Fields, Unique targets →
    Unique (differences targets source)
  | [], _, unique => unique
  | (key, target) :: rest, source, unique => by
    have later := differences_unique rest source unique.tail
    cases differs : difference target ((Assoc.get key source).getD .null) with
    | none =>
      rw [differences_cons_none differs]
      exact later
    | some d =>
      rw [differences_cons_some differs]
      refine later.cons (difference_unique target _ d unique.head differs) ?_
      rw [get_differences unique.tail, unique.fresh]
      rfl
termination_by structural targets => targets

end

mutual

/-- Whatever the metadata, the state part of `deltaDiff` is the difference. -/
theorem deltaDiff_fst : ∀ (key : String) (target source : Value) (metadata : Fields),
    target.unique = true → ∀ found, deltaDiff key target source metadata = .ok found →
      found.1 = difference target source
  | key, .obj t, .obj s, metadata, unique, found, answered => by
    rw [deltaDiff] at answered
    obtain ⟨subMeta, -, looping⟩ := bind_eq_ok.mp answered
    obtain ⟨loop, looped, done⟩ := bind_eq_ok.mp looping
    cases done
    have same := deltaLoop_fst t s subMeta unique ([], []) (by simp) loop looped
    rw [difference_obj]
    exact congrArg created same
  | key, .obj t, .null, metadata, _, found, answered
  | key, .obj t, .bool _, metadata, _, found, answered
  | key, .obj t, .num _, metadata, _, found, answered
  | key, .obj t, .str _, metadata, _, found, answered
  | key, .obj t, .arr _, metadata, _, found, answered => by
    cases answered
    rfl
  | key, .arr items, source, metadata, _, found, answered => by
    rw [deltaDiff_arr] at answered
    rw [difference_arr]
    split at answered <;> rename_i same <;> cases answered <;> simp [same]
  | key, .null, source, metadata, _, found, answered
  | key, .bool _, source, metadata, _, found, answered
  | key, .num _, source, metadata, _, found, answered
  | key, .str _, source, metadata, _, found, answered => by
    rw [deltaDiff_atom rfl] at answered
    rw [difference_atom rfl]
    split at answered <;> rename_i same <;> cases answered <;> simp [same]
termination_by structural _ target => target

theorem deltaLoop_fst : ∀ (targets source metadata : Fields), Unique targets →
    ∀ start : Fields × Fields, (∀ key, key ∈ Assoc.keys targets → Assoc.get key start.1 = none) →
    ∀ found, deltaLoop targets source metadata start = .ok found →
      found.1 = start.1 ++ differences targets source
  | [], _, _, _, start, _, found, answered => by
    cases answered
    simp [differences]
  | (key, target) :: rest, source, metadata, unique, (delta, deltaMeta), apart, found, answered => by
    rw [deltaLoop] at answered
    obtain ⟨⟨d, dm⟩, diffed, looping⟩ := bind_eq_ok.mp answered
    replace looping : deltaLoop rest source metadata
      (addField key d delta, addField key dm deltaMeta) = .ok found := looping
    have here : d = _ := deltaDiff_fst key target _ metadata unique.head _ diffed
    have missing : Assoc.get key delta = none := apart key (by simp [Assoc.keys])
    have fresh := Assoc.get_eq_none_iff.mp unique.fresh
    cases differs : difference target ((Assoc.get key source).getD .null) with
    | none =>
      rw [differs] at here
      subst here
      rw [differences_cons_none differs]
      exact deltaLoop_fst rest source metadata unique.tail (delta, addField key dm deltaMeta)
        (fun other member => apart other (List.mem_cons_of_mem _ member)) found looping
    | some d' =>
      rw [differs] at here
      subst here
      rw [differences_cons_some differs, List.append_cons, ← Assoc.set_of_fresh missing]
      refine deltaLoop_fst rest source metadata unique.tail _ ?_ found looping
      intro other member
      have different : other ≠ key := fun same => fresh (same ▸ member)
      rw [addField, Assoc.get_set_other (Ne.symm different)]
      exact apart other (List.mem_cons_of_mem _ member)
termination_by structural targets => targets

end

/-- The state part of a delta is the same for every metadata it does not fail on. -/
theorem deltaState_fst {desired reported : Fields} {metadata : GoMap} {found : GoMap × GoMap}
    (unique : Unique desired)
    (answered : deltaState (some desired) (some reported) metadata = .ok found) :
    found.1 = some (differences desired reported) := by
  obtain ⟨loop, looped, done⟩ := bind_eq_ok.mp answered
  cases done
  exact congrArg some (deltaLoop_fst desired reported _ unique ([], []) (by simp) loop looped)

end Tio.Shadow
