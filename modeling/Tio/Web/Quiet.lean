import Tio.Web.Fields

namespace Tio.Web

open Tio.Core Tio.Json Tio.Shadow

/-- No merge on the way meets null in the reported document, where the desired one has a
value, and every property can be read. -/
def Safe (e : Engine) (source : Value) (target : Js e.Builtin) : Prop :=
  ∀ key value, (held : Assoc.get key (entries source) = some value) →
    ∃ x, e.get target key = .ok x ∧ (x.nullish = false → value ≠ .null ∧ Safe e value x)
termination_by source
decreasing_by exact sizeOf_entry held

/-- What is read in the place of a reported value leaves nothing in the delta; `below`
says it of objects. -/
def Unshown (e : Engine) (value : Value) (x : Js e.Builtin) (below : Prop) : Prop :=
  if typeofObject value then x.nullish = true ∨ below
  else identical value x = true ∨ e.jsonOf x = none

/-- The console finds nothing in the target. -/
def Quiet (e : Engine) (source : Value) (target : Js e.Builtin) : Prop :=
  (∀ key value x, (held : Assoc.get key (entries source) = some value) → e.get target key = .ok x →
    key ≠ "__proto__" → Unshown e value x (Quiet e value x)) ∧
  ∀ keys key x, e.keys target = .ok keys → Assoc.get key keys = some x →
    Assoc.get key (entries source) = none → key ≠ "__proto__" →
    (e.inherited source key).isUndefined = true → x.isNull = true ∨ e.jsonOf x = none
termination_by source
decreasing_by exact sizeOf_entry held

section

variable {e : Engine} {key : String} {value : Value} {x : Js e.Builtin}

theorem keys_ok (some : x.nullish = false) : ∃ keys, e.keys x = .ok keys := by
  cases x with
  | undefined => cases some
  | builtin b => exact ⟨_, rfl⟩
  | value v => cases v <;> first | exact ⟨_, rfl⟩ | cases some

theorem keys_value {v : Value} (present : v ≠ .null) : e.keys (.value v) = .ok (e.own v) := by
  cases v with
  | null => exact absurd rfl present
  | _ => rfl

theorem get_value {v : Value} (present : v ≠ .null) (key : String) :
    e.get (.value v) key = .ok (e.read v key) := by
  cases v with
  | null => exact absurd rfl present
  | _ => rfl

theorem entries_scalar (plain : typeofObject value = false) : entries value = [] := by
  cases value <;> first | rfl | cases plain

/-- A merge throws exactly where it is not safe. -/
theorem safe_iff {source : Value} (unique : source.unique = true) (present : source ≠ .null)
    (target : Js e.Builtin) (opened : ∃ keys, e.keys target = .ok keys) :
    Safe e source target ↔ ∃ found, mergeState e source target = .ok found := by
  induction source using entries_induction generalizing target with
  | step source ih =>
    rw [mergeState_ok_iff present unique, Safe]
    have below : ∀ key value, Assoc.get key (entries source) = some value → ∀ x : Js e.Builtin,
        Merges e value x ↔ (x.nullish = false → value ≠ .null ∧ Safe e value x) := by
      intro key value held x
      have unique' := unique_of_entry unique held
      by_cases object : typeofObject value = true
      · constructor
        · intro merges gone
          obtain ⟨found, answered⟩ := merges object gone
          have present' : value ≠ .null := by
            rintro rfl
            cases answered
          exact ⟨present', (ih key value held unique' present' x (keys_ok gone)).mpr ⟨found, answered⟩⟩
        · intro safe _ gone
          obtain ⟨present', safe'⟩ := safe gone
          exact (ih key value held unique' present' x (keys_ok gone)).mp safe'
      · have plain := Bool.not_eq_true _ ▸ object
        refine iff_of_true (fun object' => absurd object' object) fun _ => ⟨?_, ?_⟩
        · rintro rfl
          exact object rfl
        · rw [Safe, entries_scalar plain]
          exact fun _ _ held => nomatch held
    constructor
    · intro safe
      refine ⟨opened, fun key value held => ?_⟩
      obtain ⟨x, read, fine⟩ := safe key value held
      exact ⟨x, read, (below key value held x).mpr fine⟩
    · intro ⟨_, each⟩ key value held
      obtain ⟨x, read, merges⟩ := each key value held
      exact ⟨x, read, (below key value held x).mp merges⟩

/-- What the first loop leaves in the place of an object or a list. -/
theorem shown_of_object (object : typeofObject value = true) :
    (assigned e value x).bind e.jsonOf =
      if x.nullish = true then none else answer (mergeState e value x) := by
  rw [assigned, if_pos object]
  split
  · rfl
  · cases answer (mergeState e value x) <;> rfl

theorem shown_of_scalar (plain : typeofObject value = false) :
    (assigned e value x).bind e.jsonOf = if identical value x = true then none else e.jsonOf x := by
  rw [assigned, plain, if_neg Bool.false_ne_true]
  split <;> rfl

end

section

variable {e : Engine} {source : Value} {target : Js e.Builtin} {found : Option Value}

/-- An object or a list that is merged with something. -/
structure Merged (e : Engine) (source : Value) (target : Js e.Builtin) (found : Option Value) : Prop where
  object : typeofObject source = true
  unique : source.unique = true
  unique' : target.Unique
  answered : mergeState e source target = .ok found

theorem Merged.present (merged : Merged e source target found) : source ≠ .null := by
  rintro rfl
  cases merged.answered

theorem Merged.fields (merged : Merged e source target found) :
    ∃ keys fields, e.keys target = .ok keys ∧ found = created fields ∧
      (Assoc.keys fields).Nodup ∧ ∀ key, Assoc.get key fields = fieldOf e source target keys key :=
  mergeState_fields merged.object merged.present merged.unique merged.unique' merged.answered

/-- What stands below a key of both is merged as well, or not looked at. -/
theorem Merged.below (merged : Merged e source target found) {key : String} {value : Value}
    (held : Assoc.get key (entries source) = some value) :
    ∃ x, e.get target key = .ok x ∧ x.Unique ∧
      (typeofObject value = true → x.nullish = false →
        Merged e value x (answer (mergeState e value x))) := by
  obtain ⟨-, each⟩ := (mergeState_ok_iff merged.present merged.unique).mp ⟨_, merged.answered⟩
  obtain ⟨x, read, merges⟩ := each key value held
  have unique' := unique_get merged.unique' read
  refine ⟨x, read, unique', fun object gone => ⟨object, unique_of_entry merged.unique held, unique', ?_⟩⟩
  obtain ⟨sub, answered⟩ := merges object gone
  rw [answered]
  rfl

/-- Nothing is found exactly in a quiet target. -/
theorem quiet_iff (merged : Merged e source target found) : Quiet e source target ↔ found = none := by
  induction source using entries_induction generalizing target found with
  | step source ih =>
    obtain ⟨keys, fields, opened, rfl, -, each⟩ := merged.fields
    rw [created_eq_none, Assoc.eq_nil_iff_get, Quiet]
    have shown : ∀ key value x, Assoc.get key (entries source) = some value → e.get target key = .ok x →
        (Unshown e value x (Quiet e value x) ↔ (assigned e value x).bind e.jsonOf = none) := by
      intro key value x held read
      obtain ⟨_, read', -, merged'⟩ := merged.below held
      cases read.symm.trans read'
      by_cases object : typeofObject value = true
      · rw [Unshown, if_pos object, shown_of_object object]
        by_cases gone : x.nullish = true
        · simp [gone]
        · have below := ih key value held (merged' object (Bool.not_eq_true _ ▸ gone))
          simp [gone, below]
      · have plain : typeofObject value = false := Bool.not_eq_true _ ▸ object
        rw [Unshown, if_neg object, shown_of_scalar plain]
        by_cases same : identical value x = true <;> simp [same]
    constructor
    · intro ⟨existed, unexisted⟩ key
      rw [each key, fieldOf]
      by_cases proto : key = "__proto__"
      · rw [if_pos proto]
      · rw [if_neg proto]
        cases held : Assoc.get key (entries source) with
        | some value =>
          obtain ⟨x, read, -⟩ := merged.below held
          have nothing := (shown key value x held read).mp (existed key value x held read proto)
          simp only [read, Except.toOption, Option.bind_some, nothing]
        | none =>
          cases listed : Assoc.get key keys with
          | none => rfl
          | some x =>
            have nothing := unexisted keys key x opened listed held proto
            cases undefined : (e.inherited source key).isUndefined with
            | false => simp [Option.filter]
            | true =>
              rcases nothing undefined with null | lost
              · simp [Option.filter, null]
              · simp only [Option.filter]
                split <;> simp [lost]
    · intro nothing
      constructor
      · intro key value x held read proto
        have empty := nothing key
        rw [each key, fieldOf, if_neg proto, held] at empty
        simp only [read, Except.toOption, Option.bind_some] at empty
        exact (shown key value x held read).mpr empty
      · intro keys' key x opened' listed missing proto undefined
        cases opened.symm.trans opened'
        have empty := nothing key
        rw [each key, fieldOf, if_neg proto, missing, listed] at empty
        by_cases null : x.isNull = true
        · exact .inl null
        · right
          simpa [Option.filter, undefined, null] using empty

end

end Tio.Web
