import Tio.Web.Whole

namespace Tio.Web

open Tio.Core Tio.Json Tio.Shadow

/-- The source has all of the target, as the server compares them. -/
def Holds (source target : Value) : Prop :=
  target = .null ∨ (target.isObject = false ∧ deepEqual target source = true) ∨
  (target.isObject = true ∧ source.isObject = true ∧
    ∀ key w, (held : Assoc.get key (entries target) = some w) →
      Holds ((Assoc.get key (entries source)).getD .null) w)
termination_by target
decreasing_by exact sizeOf_entry held

/-- The shapes on which console and server agree, for a reported object and the desired
fields. Where both have a key: what is desired in the place of a scalar is not null; in the
place of an object it is null or an object of which the same holds; and in the place of a
list it is null, a list that is equal, or an object that the console takes over whole. -/
def Same (e : Engine) (source : Value) (target : Fields) : Prop :=
  (∀ key value w, (held : Assoc.get key (entries source) = some value) → Assoc.get key target = some w →
    if key = "__proto__" then Holds value w
    else if typeofObject value then
      w = .null ∨ (value.isObject = false ∧ deepEqual w value = true) ∨
        ∃ below, w = .obj below ∧ if value.isObject then Same e value below else Whole e value below
    else w ≠ .null) ∧
  (∀ key w, Assoc.get key (entries source) = none → Assoc.get key target = some w →
    w = .null ∨ (key ≠ "__proto__" ∧ (e.inherited source key).isUndefined = true)) ∧
  ∀ key value, Assoc.get key (entries source) = some value → Assoc.get key target = none →
    key ≠ "__proto__" → Unshown e value (e.inherited (.obj target) key)
      (Quiet e value (e.inherited (.obj target) key))
termination_by source
decreasing_by exact sizeOf_entry held

section

theorem equalScalar_comm (left right : Value) : equalScalar left right = equalScalar right left := by
  cases left <;> cases right <;> first | rfl | exact Bool.beq_comm

theorem get_indexed_cons (key : String) (start : Nat) (item : Value) (rest : List Value) :
    Assoc.get key (indexed start (item :: rest)) =
      if toString start = key then some item else Assoc.get key (indexed (start + 1) rest) := rfl

theorem sameField_indexed {lefts rights : List Value} (same : deepEqualItems lefts rights = true)
    (start : Nat) (key : String) :
    SameField (Assoc.get key (indexed start lefts)) (Assoc.get key (indexed start rights)) := by
  induction lefts generalizing rights start with
  | nil =>
    cases rights with
    | nil => trivial
    | cons right rights => cases same
  | cons left lefts ih =>
    cases rights with
    | nil => cases same
    | cons right rights =>
      rw [deepEqualItems, Bool.and_eq_true] at same
      rw [get_indexed_cons, get_indexed_cons]
      by_cases here : toString start = key
      · rw [if_pos here, if_pos here]
        exact same.1
      · rw [if_neg here, if_neg here]
        exact ih same.2 (start + 1)

/-- Equal values have equal entries. -/
theorem sameField_entries {left right : Value} (unique : left.unique = true) (unique' : right.unique = true)
    (same : deepEqual left right = true) (key : String) :
    SameField (Assoc.get key (entries left)) (Assoc.get key (entries right)) := by
  cases left with
  | obj lefts =>
    cases right with
    | obj rights => exact (deepEqual_obj_iff (Unique.nodup unique) (Unique.nodup unique')).mp same key
    | _ => cases same
  | arr lefts =>
    cases right with
    | arr rights => exact sameField_indexed same 0 key
    | _ => cases same
  | _ => cases right <;> first | exact trivial | cases same

theorem typeofObject_of_deepEqual {left right : Value} (same : deepEqual left right = true) :
    typeofObject left = typeofObject right := by
  cases left <;> cases right <;> first | rfl | cases same

theorem eq_null_of_deepEqual {left right : Value} (same : deepEqual left right = true) :
    left = .null ↔ right = .null := by
  cases left <;> cases right <;> first | exact Iff.rfl | cases same | simp

variable {e : Engine} {source : Value}

/-- In an equal value nothing is found. -/
theorem quiet_of_deepEqual {target : Value} (object : typeofObject source = true) (present : source ≠ .null)
    (unique : source.unique = true) (unique' : target.unique = true) (same : deepEqual target source = true) :
    Quiet e source (.value target) := by
  induction source using entries_induction generalizing target with
  | step source ih =>
    have object' : typeofObject target = true := (typeofObject_of_deepEqual same).trans object
    have present' : target ≠ .null := mt (eq_null_of_deepEqual same).mp present
    have fields := sameField_entries unique' unique same
    rw [Quiet]
    constructor
    · intro key value x held read _
      have field := fields key
      rw [held] at field
      cases there : Assoc.get key (entries target) with
      | none =>
        rw [there] at field
        exact field.elim
      | some w =>
        rw [there] at field
        have equal : deepEqual w value = true := field
        rw [get_value present', read_eq object', there] at read
        cases read
        by_cases below : typeofObject value = true
        · rw [Unshown, if_pos below]
          by_cases null : value = .null
          · subst null
            cases (eq_null_of_deepEqual equal).mpr rfl
            exact .inl rfl
          · exact .inr (ih key value held below null (unique_of_entry unique held)
              (unique_of_entry unique' there) equal)
        · have atom : isAtom w = true := by
            cases w <;> first | rfl | (cases value <;> first | exact absurd rfl below | cases equal)
          rw [Unshown, if_neg below]
          left
          show equalScalar value w = true
          rw [equalScalar_comm, ← deepEqual_atom atom]
          exact equal
    · intro keys key x opened listed missing _ _
      rw [keys_value present'] at opened
      cases opened
      have field := fields key
      rw [missing, sameField_none_iff] at field
      rw [own_eq_entries (not_text object'), Assoc.get_map, field] at listed
      cases listed

/-- The server finds nothing exactly where the source has all of the target. -/
theorem difference_eq_none_iff {target : Value} (unique : target.unique = true) (source : Value) :
    difference target source = none ↔ Holds source target := by
  induction target using entries_induction generalizing source with
  | step target ih =>
    rw [Holds]
    cases target with
    | null =>
      rw [difference_atom rfl]
      refine iff_of_true ?_ (.inl rfl)
      split <;> rfl
    | obj t =>
      have plain : (Value.obj t).isObject ≠ false := Bool.noConfusion
      by_cases object : source.isObject = true
      · obtain ⟨s, rfl⟩ := isObject_eq_true.mp object
        rw [difference_obj, created_eq_none, Assoc.eq_nil_iff_get]
        have below : ∀ key, Assoc.get key (differences t s) = none ↔
            ∀ w, Assoc.get key t = some w → Holds ((Assoc.get key s).getD .null) w := by
          intro key
          rw [get_differences unique]
          cases held : Assoc.get key t with
          | none => simp
          | some w =>
            have field := ih key w held (Unique.value unique held) ((Assoc.get key s).getD .null)
            rw [Option.bind_some, field]
            simp
        constructor
        · exact fun nothing => .inr (.inr ⟨rfl, rfl, fun key w held => (below key).mp (nothing key) w held⟩)
        · intro holds
          rcases holds with null | bare | all
          · cases null
          · exact absurd bare.1 plain
          · exact fun key => (below key).mpr (all.2.2 key)
      · have bare : source.isObject = false := Bool.not_eq_true _ ▸ object
        rw [difference_obj_bare bare]
        refine iff_of_false (by simp) fun holds => ?_
        rcases holds with null | bare | all
        · cases null
        · exact plain bare.1
        · exact object all.2.1
    | arr items =>
      rw [difference_arr]
      cases same : deepEqual (.arr items) source <;> simp [Value.isObject]
    | _ =>
      rw [difference_atom rfl, ← deepEqual_atom rfl]
      split
      · next same => exact iff_of_true rfl (.inr (.inl ⟨rfl, same⟩))
      · next other =>
        refine iff_of_false (by simp [notNil]) fun holds => ?_
        rcases holds with null | equal | object
        · cases null
        · exact other equal.2
        · cases object.1

theorem difference_of_scalar (plain : typeofObject source = false) (target : Value) :
    difference target source = if equalScalar target source then none else notNil target := by
  cases target <;> cases source <;> first | rfl | cases plain

theorem difference_from_null (target : Value) : difference target .null = notNil target := by
  cases target <;> rfl

/-- Where the desired value is neither null nor an object, the server sends the whole value
unless it is equal. -/
theorem difference_bare {target : Value} (present : target ≠ .null) (bare : target.isObject = false) :
    difference target source = if deepEqual target source then none else some target := by
  cases target with
  | null => exact absurd rfl present
  | obj t => cases bare
  | arr items => exact difference_arr items source
  | _ =>
    rw [difference_atom rfl, ← deepEqual_atom rfl]
    rfl

/-- Where the reported value is a scalar, the console and the server differ on null alone. -/
theorem same_scalar {value w : Value} (unique : w.unique = true) (plain : typeofObject value = false) :
    w ≠ .null ↔
      SameField ((assigned e value (.value w)).bind e.jsonOf) (difference w value) := by
  have compare : identical value (Js.value w : Js e.Builtin) = equalScalar value w := rfl
  rw [shown_of_scalar plain, difference_of_scalar plain, equalScalar_comm w value, compare]
  cases w with
  | null =>
    have unequal : equalScalar value .null = false := by
      cases value <;> first | rfl | cases plain
    rw [unequal]
    exact iff_of_false (fun present => present rfl) id
  | _ =>
    refine iff_of_true (by rintro ⟨⟩) ?_
    split
    · trivial
    · exact sameField_refl unique

/-- An object is desired where an object or a list is reported. -/
theorem same_inside {value : Value} {below : Fields} {sub : Option Value}
    (merged : Merged e value (.value (.obj below)) sub)
    (inner : ∀ s, value = .obj s → (Same e value below ↔ SameField sub (created (differences below s)))) :
    ((value.isObject = false ∧ deepEqual (.obj below) value = true) ∨
      ∃ other, Value.obj below = .obj other ∧
        if value.isObject then Same e value other else Whole e value other) ↔
      SameField sub (difference (.obj below) value) := by
  have unequal : ¬ (value.isObject = false ∧ deepEqual (.obj below) value = true) := by
    rintro ⟨bare, equal⟩
    cases value <;> first | cases equal | cases bare
  rw [or_iff_right unequal]
  by_cases deeper : value.isObject = true
  · obtain ⟨s, rfl⟩ := isObject_eq_true.mp deeper
    rw [difference_obj, ← inner s rfl]
    simp [Value.isObject]
  · rw [difference_obj_bare (Bool.not_eq_true _ ▸ deeper), ← whole_iff merged]
    simp [deeper]

/-- A scalar or a list is desired where an object or a list is reported. -/
theorem same_bare {value w : Value} {sub : Option Value} (present : w ≠ .null) (bare : w.isObject = false)
    (unique : w.unique = true) (merged : Merged e value (.value w) sub) :
    ((value.isObject = false ∧ deepEqual w value = true) ∨
      ∃ below, w = .obj below ∧
        if value.isObject then Same e value below else Whole e value below) ↔
      SameField sub (difference w value) := by
  rw [difference_bare present bare]
  cases equal : deepEqual w value with
  | true =>
    have list : value.isObject = false := by
      cases value with
      | obj s => cases w <;> first | cases equal | cases bare
      | _ => rfl
    have quiet : Quiet e value (.value w) :=
      quiet_of_deepEqual merged.object merged.present merged.unique unique equal
    rw [(quiet_iff merged).mp quiet]
    exact iff_of_true (.inl ⟨list, rfl⟩) trivial
  | false =>
    obtain ⟨-, fields, -, rfl, -⟩ := merged.fields
    refine iff_of_false ?_ (not_sameField_created bare)
    rintro (equal | below)
    · cases equal.2
    · obtain ⟨_, rfl, -⟩ := below
      cases bare

/-- One key that both documents have. -/
theorem Merged.same_both {t : Fields} {found : Option Value} (merged : Merged e source (.value (.obj t)) found)
    {key : String} {value w : Value} (held : Assoc.get key (entries source) = some value)
    (there : Assoc.get key t = some w)
    (inner : ∀ below sub s, value = .obj s → Merged e value (.value (.obj below)) sub →
      (Same e value below ↔ SameField sub (created (differences below s)))) :
    (if key = "__proto__" then Holds value w
    else if typeofObject value then
      w = .null ∨ (value.isObject = false ∧ deepEqual w value = true) ∨
        ∃ below, w = .obj below ∧ if value.isObject then Same e value below else Whole e value below
    else w ≠ .null) ↔ SameField (fieldIn e source t key) (difference w value) := by
  have uniqueTarget : Unique t := merged.unique' (.obj t) rfl
  have unique := uniqueTarget.value there
  by_cases proto : key = "__proto__"
  · subst proto
    rw [if_pos rfl, fieldIn_proto, sameField_none_left_iff, difference_eq_none_iff unique]
  · rw [if_neg proto, fieldIn, if_neg proto, held, there]
    dsimp only
    by_cases object : typeofObject value = true
    · rw [if_pos object]
      by_cases present : w = .null
      · subst present
        have nothing : difference .null value = none :=
          (difference_eq_none_iff rfl value).mpr (by rw [Holds]; exact .inl rfl)
        rw [shown_of_object object, nothing]
        exact iff_of_true (.inl rfl) trivial
      · obtain ⟨sub, shown, merged'⟩ := merged.both held there object present
        rw [shown, or_iff_right present]
        by_cases inside : w.isObject = true
        · obtain ⟨below, rfl⟩ := isObject_eq_true.mp inside
          exact same_inside merged' fun s same => inner below sub s same merged'
        · exact same_bare present (Bool.not_eq_true _ ▸ inside) unique merged'
    · rw [if_neg object]
      exact same_scalar unique (Bool.not_eq_true _ ▸ object)

/-- One key that the reported document lacks. -/
theorem same_fresh {t : Fields} {key : String} {w : Value} (unique : w.unique = true)
    (missing : Assoc.get key (entries source) = none) (there : Assoc.get key t = some w) :
    (w = .null ∨ (key ≠ "__proto__" ∧ (e.inherited source key).isUndefined = true)) ↔
      SameField (fieldIn e source t key) (difference w .null) := by
  have itself := sameField_refl unique
  rw [difference_from_null, fieldIn, missing, there]
  by_cases proto : key = "__proto__"
  · cases w <;> simp [proto, SameField, notNil]
  · cases w with
    | null => simp [proto, SameField, notNil]
    | _ =>
      cases undefined : (e.inherited source key).isUndefined with
      | false => simp [proto, SameField, notNil]
      | true => simp [proto, notNil, itself]

theorem same_iff {t : Fields} {found : Option Value} (isObject : source.isObject = true)
    (merged : Merged e source (.value (.obj t)) found) :
    Same e source t ↔ SameField found (created (differences t (entries source))) := by
  induction source using entries_induction generalizing t found with
  | step source ih =>
    obtain ⟨fields, rfl, distinct, each⟩ := merged.fieldsIn
    have uniqueTarget : Unique t := merged.unique' (.obj t) rfl
    have neither : ∀ key, Assoc.get key (entries source) = none → Assoc.get key t = none →
        SameField (Assoc.get key fields) (Assoc.get key (differences t (entries source))) := by
      intro key missing missing'
      rw [each key, fieldIn, get_differences uniqueTarget, missing, missing', ite_self]
      trivial
    rw [sameField_created_iff distinct (differences_unique t _ uniqueTarget).nodup, forall_key_iff neither, Same]
    refine and_congr ?_ (and_congr ?_ ?_)
    · refine forall_congr' fun key => forall_congr' fun value => forall_congr' fun w =>
        forall_congr' fun held => forall_congr' fun there => ?_
      rw [each key, get_differences uniqueTarget, held, there, Option.bind_some, Option.getD_some]
      apply merged.same_both held there
      rintro below sub s rfl merged'
      exact ih key _ held rfl merged'
    · refine forall_congr' fun key => forall_congr' fun w => forall_congr' fun missing =>
        forall_congr' fun there => ?_
      rw [each key, get_differences uniqueTarget, missing, there, Option.bind_some, Option.getD_none]
      exact same_fresh (uniqueTarget.value there) missing there
    · refine forall_congr' fun key => forall_congr' fun value => forall_congr' fun held =>
        forall_congr' fun missing => ?_
      rw [each key, get_differences uniqueTarget, missing, Option.bind_none]
      exact merged.gone held missing

/-- Without metadata the server always answers. -/
theorem deltaState_nil (desired reported : Document) :
    ∃ metadata, deltaState (some desired.fields) (some reported.fields) none =
      .ok (some (differences desired.fields reported.fields), metadata) := by
  have calm : ¬ ∃ t s, some desired = some t ∧ some reported = some s ∧
      Clash (.obj t.fields) (.obj s.fields) ((none : GoMap).map .obj) := by
    rintro ⟨t, s, -, -, path, below, s', value, entry, -, -, clash, -⟩
    cases clash
  obtain ⟨⟨state, metadata⟩, answered⟩ := (deltaState_ok_iff (some desired) (some reported) none).mpr calm
  have same := deltaState_fst desired.unique answered
  exact ⟨metadata, same ▸ answered⟩

end

/-- What the console shows of a delta, against the state that the server sends. -/
theorem shown_iff {delta : Option Value} {state : Fields} :
    ((delta.isSome = true ↔ state ≠ []) ∧
      (delta.isSome = true → ∃ found, delta = some found ∧ deepEqual found (.obj state) = true)) ↔
      SameField delta (created state) := by
  cases delta with
  | none => cases state <;> simp [created, SameField]
  | some found => cases state <;> simp [created, SameField]

/-- Console and server agree exactly when the console does not throw on the way and the
two documents meet in the shapes of which it treats both alike. -/
theorem agrees_iff (e : Engine) (desired reported : Document) :
    Agrees e desired reported ↔
      Safe e (.obj reported.fields) (.value (.obj desired.fields)) ∧
      Same e (.obj reported.fields) desired.fields := by
  have unique : (Value.obj reported.fields).unique = true := reported.unique
  have unique' : (Js.value (.obj desired.fields) : Js e.Builtin).Unique := by
    rintro _ ⟨⟩
    exact desired.unique
  have present : Value.obj reported.fields ≠ .null := by rintro ⟨⟩
  have safe := safe_iff unique present (Js.value (.obj desired.fields) : Js e.Builtin) ⟨_, rfl⟩
  have field : ∀ {delta}, mergeState e (.obj reported.fields) (.value (.obj desired.fields)) = .ok delta →
      (Same e (.obj reported.fields) desired.fields ↔
        SameField delta (created (differences desired.fields reported.fields))) :=
    fun answered => same_iff rfl ⟨rfl, unique, unique', answered⟩
  obtain ⟨metadata, server⟩ := deltaState_nil desired reported
  rw [safe]
  constructor
  · rintro ⟨hasDelta, delta, state, metadata', console, server', shown⟩
    obtain ⟨_, answered, done⟩ := bind_eq_ok.mp console
    cases done
    cases server.symm.trans server'
    exact ⟨⟨delta, answered⟩, (field answered).mpr (shown_iff.mp shown)⟩
  · rintro ⟨⟨delta, answered⟩, same⟩
    have shown := shown_iff.mpr ((field answered).mp same)
    exact ⟨delta.isSome, delta, _, metadata, bind_eq_ok.mpr ⟨delta, answered, rfl⟩, server, shown⟩

/-- An engine whose prototypes have nothing; what the documents below read is their own. -/
def bare : Engine where
  Builtin := Empty
  inherited _ _ := .undefined
  property b := b.elim
  units s := s.toList.map fun c => .value (.str (String.singleton c))
  json b := b.elim
  inherited_atom := by rintro v key found ⟨⟩
  property_atom := fun b => b.elim
  units_atom := by
    intro s found member
    obtain ⟨c, -, same⟩ := List.mem_map.mp member
    cases same
    rfl

def tagsOf (second : Rat) : Document :=
  ⟨[("tags", .arr [.num 1, .num second])], by rfl⟩

def levelNull : Document := ⟨[("level", .null)], by rfl⟩

def levelOne : Document := ⟨[("level", .num 1)], by rfl⟩

def levelNested : Document := ⟨[("level", .obj [("low", .num 1)])], by rfl⟩

/-- A changed list is shown as an object of its changed indices; a reported null stops the
merge; and a number in the place of an object is not shown. -/
theorem not_agrees : ¬ Agrees bare (tagsOf 2) (tagsOf 3) ∧ ¬ Agrees bare levelOne levelNull ∧
    ¬ Agrees bare levelOne levelNested := by
  refine ⟨?_, ?_, ?_⟩
  · rintro ⟨_, _, state, _, console, server, -, equal⟩
    have shown : diffState bare (tagsOf 2).fields (tagsOf 3).fields =
        .ok (true, some (.obj [("tags", .obj [("1", .num 2)])])) := rfl
    have sent : deltaState (some (tagsOf 2).fields) (some (tagsOf 3).fields) none =
        .ok (some [("tags", .arr [.num 1, .num 2])], some []) := rfl
    cases shown.symm.trans console
    cases sent.symm.trans server
    obtain ⟨_, ⟨⟩, same⟩ := equal rfl
    cases same
  · rintro ⟨_, _, _, _, console, -⟩
    have thrown : diffState bare levelOne.fields levelNull.fields = .error .typeError := rfl
    cases thrown.symm.trans console
  · rintro ⟨_, _, state, _, console, server, shown, -⟩
    have nothing : diffState bare levelOne.fields levelNested.fields = .ok (false, none) := rfl
    have sent : deltaState (some levelOne.fields) (some levelNested.fields) none =
        .ok (some [("level", .num 1)], some []) := rfl
    cases nothing.symm.trans console
    cases sent.symm.trans server
    cases shown.mpr (List.cons_ne_nil _ _)

end Tio.Web
