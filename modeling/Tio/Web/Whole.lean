import Tio.Web.Quiet

namespace Tio.Web

open Tio.Core Tio.Json Tio.Shadow

/-- The console takes the whole target over: no part of it stands in the source already,
and a list in the source is met by objects alone. -/
def Whole (e : Engine) (source : Value) (target : Fields) : Prop :=
  target ≠ [] ∧
  (∀ key value w, (held : Assoc.get key (entries source) = some value) → Assoc.get key target = some w →
    key ≠ "__proto__" ∧
      if typeofObject value then ∃ below, w = .obj below ∧ Whole e value below
      else equalScalar value w = false) ∧
  (∀ key w, Assoc.get key (entries source) = none → Assoc.get key target = some w →
    key ≠ "__proto__" ∧ (e.inherited source key).isUndefined = true ∧ w ≠ .null) ∧
  ∀ key value, Assoc.get key (entries source) = some value → Assoc.get key target = none →
    key ≠ "__proto__" → Unshown e value (e.inherited (.obj target) key)
      (Quiet e value (e.inherited (.obj target) key))
termination_by source
decreasing_by exact sizeOf_entry held

section

variable {e : Engine} {source : Value} {found : Option Value}

/-- The parts of a document that a source and a target have. -/
theorem forall_key_iff {source : Value} {target : Fields} {P : String → Prop}
    (neither : ∀ key, Assoc.get key (entries source) = none → Assoc.get key target = none → P key) :
    (∀ key, P key) ↔
      (∀ key value w, Assoc.get key (entries source) = some value → Assoc.get key target = some w → P key) ∧
      (∀ key w, Assoc.get key (entries source) = none → Assoc.get key target = some w → P key) ∧
      ∀ key value, Assoc.get key (entries source) = some value → Assoc.get key target = none → P key := by
  constructor
  · exact fun every => ⟨fun key _ _ _ _ => every key, fun key _ _ _ => every key, fun key _ _ _ => every key⟩
  · intro ⟨both, fresh, gone⟩ key
    cases held : Assoc.get key (entries source) with
    | some value =>
      cases found : Assoc.get key target with
      | some w => exact both key value w held found
      | none => exact gone key value held found
    | none =>
      cases found : Assoc.get key target with
      | some w => exact fresh key w held found
      | none => exact neither key held found

theorem sameField_created_iff {fields : Fields} (distinct : (Assoc.keys fields).Nodup) {others : Fields}
    (distinct' : (Assoc.keys others).Nodup) : SameField (created fields) (created others) ↔
      ∀ key, SameField (Assoc.get key fields) (Assoc.get key others) := by
  cases fields with
  | nil =>
    rw [created, sameField_none_left_iff, created_eq_none, Assoc.eq_nil_iff_get]
    exact forall_congr' fun key => sameField_none_left_iff.symm
  | cons entry rest =>
    cases others with
    | nil =>
      refine iff_of_false id fun every => ?_
      have empty := Assoc.eq_nil_iff_get.mpr fun key => sameField_none_iff.mp (every key)
      cases empty
    | cons other others => exact deepEqual_obj_iff distinct distinct'

/-- What the console found, against a whole object. -/
theorem sameField_whole_iff {fields : Fields} (distinct : (Assoc.keys fields).Nodup) {others : Fields}
    (distinct' : (Assoc.keys others).Nodup) : SameField (created fields) (some (.obj others)) ↔
      others ≠ [] ∧ ∀ key, SameField (Assoc.get key fields) (Assoc.get key others) := by
  rw [← sameField_created_iff distinct distinct']
  cases others with
  | nil =>
    refine iff_of_false (fun same => ?_) fun both => both.1 rfl
    cases fields with
    | nil => exact same
    | cons entry rest => cases same
  | cons other others => exact ⟨fun same => ⟨List.cons_ne_nil _ _, same⟩, And.right⟩

theorem get_obj (t : Fields) (key : String) : e.get (.value (.obj t)) key =
    .ok (((Assoc.get key t).map Js.value).getD (e.inherited (.obj t) key)) := by
  rw [get_value (by rintro ⟨⟩), read_eq rfl]
  rfl

/-- The field at a key, when the target is an object. -/
def fieldIn (e : Engine) (source : Value) (t : Fields) (key : String) : Option Value :=
  if key = "__proto__" then none
  else match Assoc.get key (entries source), Assoc.get key t with
    | some value, some w => (assigned e value (.value w)).bind e.jsonOf
    | some value, none => (assigned e value (e.inherited (.obj t) key)).bind e.jsonOf
    | none, some w => if (e.inherited source key).isUndefined = true then notNil w else none
    | none, none => none

theorem fieldOf_obj (source : Value) (t : Fields) (key : String) :
    fieldOf e source (.value (.obj t)) (e.own (.obj t)) key = fieldIn e source t key := by
  have listed : Assoc.get key (e.own (.obj t)) = (Assoc.get key t).map .value := by
    rw [own_eq_entries (by rintro s ⟨⟩), Assoc.get_map]
    rfl
  rw [fieldOf, fieldIn, get_obj, listed]
  split
  · rfl
  · cases Assoc.get key (entries source) with
    | some value => cases Assoc.get key t <;> rfl
    | none =>
      cases Assoc.get key t with
      | none => rfl
      | some w =>
        cases (e.inherited source key).isUndefined <;> cases w <;> rfl

theorem fieldIn_proto (source : Value) (t : Fields) : fieldIn e source t "__proto__" = none :=
  if_pos rfl

theorem Merged.fieldsIn {t : Fields} (merged : Merged e source (.value (.obj t)) found) :
    ∃ fields, found = created fields ∧ (Assoc.keys fields).Nodup ∧
      ∀ key, Assoc.get key fields = fieldIn e source t key := by
  obtain ⟨keys, fields, opened, same, distinct, each⟩ := merged.fields
  have own : e.own (.obj t) = keys := by
    cases opened
    rfl
  subst own
  exact ⟨fields, same, distinct, fun key => (each key).trans (fieldOf_obj source t key)⟩

theorem not_sameField_created {fields : Fields} {w : Value} (plain : w.isObject = false) :
    ¬ SameField (created fields) (some w) := by
  intro same
  cases fields with
  | nil => exact same
  | cons entry rest =>
    cases w with
    | obj t => cases plain
    | _ => cases same

theorem sameField_refl {w : Value} (unique : w.unique = true) : SameField (some w) (some w) :=
  deepEqual_refl w unique

/-- What is read in the place of a value that the target lacks leaves nothing. -/
theorem Merged.gone {t : Fields} (merged : Merged e source (.value (.obj t)) found) {key : String} {value : Value}
    (held : Assoc.get key (entries source) = some value) (missing : Assoc.get key t = none) :
    (key ≠ "__proto__" → Unshown e value (e.inherited (.obj t) key)
      (Quiet e value (e.inherited (.obj t) key))) ↔ SameField (fieldIn e source t key) none := by
  rw [sameField_none_iff]
  by_cases proto : key = "__proto__"
  · subst proto
    exact iff_of_true (fun apart => absurd rfl apart) (fieldIn_proto source t)
  · obtain ⟨x, read, -, below⟩ := merged.below held
    rw [get_obj, missing] at read
    cases read
    rw [fieldIn, if_neg proto, held, missing, imp_iff_right proto]
    dsimp only
    by_cases object : typeofObject value = true
    · rw [Unshown, if_pos object, shown_of_object object]
      by_cases nullish : (e.inherited (.obj t) key).nullish = true
      · simp [nullish]
      · have quiet : Quiet e value (e.inherited (.obj t) key) ↔ _ :=
          quiet_iff (below object (Bool.not_eq_true _ ▸ nullish))
        rw [if_neg nullish, or_iff_right nullish]
        exact quiet
    · have plain : typeofObject value = false := Bool.not_eq_true _ ▸ object
      rw [Unshown, if_neg object, shown_of_scalar plain]
      by_cases same : identical value (e.inherited (.obj t) key) = true <;> simp [same]

/-- What stands in both, when it is merged. -/
theorem Merged.both {t : Fields} (merged : Merged e source (.value (.obj t)) found) {key : String}
    {value w : Value} (held : Assoc.get key (entries source) = some value) (there : Assoc.get key t = some w)
    (object : typeofObject value = true) (present : w ≠ .null) :
    ∃ sub, (assigned e value (.value w)).bind e.jsonOf = sub ∧ Merged e value (.value w) sub := by
  obtain ⟨x, read, -, below⟩ := merged.below held
  rw [get_obj, there] at read
  cases read
  have gone : (Js.value w : Js e.Builtin).nullish = false := by
    cases w with
    | null => exact absurd rfl present
    | _ => rfl
  refine ⟨_, rfl, ?_⟩
  rw [shown_of_object object, gone, if_neg Bool.false_ne_true]
  exact below object gone

/-- One key of a whole object that the source has too. -/
theorem Merged.whole_both {t : Fields} (merged : Merged e source (.value (.obj t)) found) {key : String}
    {value w : Value} (held : Assoc.get key (entries source) = some value) (there : Assoc.get key t = some w)
    (inner : ∀ below sub, Merged e value (.value (.obj below)) sub →
      (Whole e value below ↔ SameField sub (some (.obj below)))) :
    (key ≠ "__proto__" ∧
      if typeofObject value then ∃ below, w = .obj below ∧ Whole e value below
      else equalScalar value w = false) ↔ SameField (fieldIn e source t key) (some w) := by
  by_cases proto : key = "__proto__"
  · subst proto
    rw [fieldIn_proto]
    exact iff_of_false (fun both => both.1 rfl) id
  · rw [fieldIn, if_neg proto, held, there]
    dsimp only
    by_cases object : typeofObject value = true
    · rw [if_pos object]
      by_cases present : w = .null
      · subst present
        rw [shown_of_object object]
        exact iff_of_false (by rintro ⟨-, _, ⟨⟩, -⟩) id
      · obtain ⟨sub, shown, merged'⟩ := merged.both held there object present
        rw [shown]
        cases w with
        | obj below =>
          rw [← inner below sub merged']
          simp [proto]
        | _ =>
          obtain ⟨-, fields, -, rfl, -⟩ := merged'.fields
          exact iff_of_false (by rintro ⟨-, _, ⟨⟩, -⟩) (not_sameField_created rfl)
    · have plain : typeofObject value = false := Bool.not_eq_true _ ▸ object
      have uniqueTarget : Unique t := merged.unique' (.obj t) rfl
      have itself := sameField_refl (uniqueTarget.value there)
      rw [if_neg object, shown_of_scalar plain]
      cases same : equalScalar value w with
      | true => simp [identical, same, SameField]
      | false => simp [identical, same, proto, Engine.jsonOf, itself]

/-- One key of a whole object that the source lacks. -/
theorem whole_fresh {t : Fields} {key : String} {w : Value} (unique : w.unique = true)
    (missing : Assoc.get key (entries source) = none) (there : Assoc.get key t = some w) :
    (key ≠ "__proto__" ∧ (e.inherited source key).isUndefined = true ∧ w ≠ .null) ↔
      SameField (fieldIn e source t key) (some w) := by
  have itself := sameField_refl unique
  rw [fieldIn, missing, there]
  by_cases proto : key = "__proto__"
  · simp [proto, SameField]
  · cases undefined : (e.inherited source key).isUndefined with
    | false => simp [proto, SameField]
    | true =>
      cases w with
      | null => simp [proto, SameField, notNil]
      | _ => simp [proto, notNil, itself]

/-- The console shows a whole object exactly when it is taken over whole. -/
theorem whole_iff {t : Fields} (merged : Merged e source (.value (.obj t)) found) :
    Whole e source t ↔ SameField found (some (.obj t)) := by
  induction source using entries_induction generalizing t found with
  | step source ih =>
    obtain ⟨fields, rfl, distinct, each⟩ := merged.fieldsIn
    have uniqueTarget : Unique t := merged.unique' (.obj t) rfl
    have neither : ∀ key, Assoc.get key (entries source) = none → Assoc.get key t = none →
        SameField (Assoc.get key fields) (Assoc.get key t) := by
      intro key missing missing'
      rw [each key, fieldIn, missing, missing', ite_self]
      trivial
    rw [sameField_whole_iff distinct uniqueTarget.nodup, forall_key_iff neither, Whole]
    refine and_congr Iff.rfl (and_congr ?_ (and_congr ?_ ?_))
    · refine forall_congr' fun key => forall_congr' fun value => forall_congr' fun w =>
        forall_congr' fun held => forall_congr' fun there => ?_
      rw [each key, there]
      exact merged.whole_both held there fun below sub merged' => ih key value held merged'
    · refine forall_congr' fun key => forall_congr' fun w => forall_congr' fun missing =>
        forall_congr' fun there => ?_
      rw [each key, there]
      exact whole_fresh (uniqueTarget.value there) missing there
    · refine forall_congr' fun key => forall_congr' fun value => forall_congr' fun held =>
        forall_congr' fun missing => ?_
      rw [each key, missing]
      exact merged.gone held missing

end

end Tio.Web
