import Tio.Web.Shadow

namespace Tio.Web

open Tio.Core Tio.Json Tio.Shadow

section

variable {Item : Type}

theorem index_injective {first second : Nat} (same : toString first = toString second) : first = second := by
  have digits : Nat.toDigits 10 first = Nat.toDigits 10 second := by
    rw [← Nat.toList_repr, ← Nat.toList_repr]
    exact congrArg String.toList same
  rw [← Nat.ofDigitChars_ten_toDigits (n := first), digits, Nat.ofDigitChars_ten_toDigits]

theorem mem_keys_indexed {key : String} {start : Nat} {items : List Item}
    (member : key ∈ Assoc.keys (indexed start items)) : ∃ index, start ≤ index ∧ key = toString index := by
  induction items generalizing start with
  | nil => cases member
  | cons item rest ih =>
    rcases List.mem_cons.mp member with rfl | later
    · exact ⟨start, Nat.le_refl start, rfl⟩
    · obtain ⟨index, after, same⟩ := ih later
      exact ⟨index, Nat.le_of_succ_le after, same⟩

theorem nodup_keys_indexed (start : Nat) (items : List Item) : (Assoc.keys (indexed start items)).Nodup := by
  induction items generalizing start with
  | nil => exact List.nodup_nil
  | cons item rest ih =>
    refine List.nodup_cons.mpr ⟨fun repeated => ?_, ih (start + 1)⟩
    obtain ⟨index, after, same⟩ := mem_keys_indexed repeated
    have here := index_injective same
    omega

theorem mem_indexed {entry : String × Item} {start : Nat} {items : List Item}
    (member : entry ∈ indexed start items) : entry.2 ∈ items := by
  induction items generalizing start with
  | nil => cases member
  | cons item rest ih =>
    rcases List.mem_cons.mp member with rfl | later
    · exact List.mem_cons_self
    · exact List.mem_cons_of_mem _ (ih later)

end

theorem uniqueItems_iff {items : List Value} :
    uniqueItems items = true ↔ ∀ item ∈ items, item.unique = true := by
  induction items with
  | nil => simp [uniqueItems]
  | cons item rest ih => simp [uniqueItems, ih]

section

variable {v w : Value} {key : String}

theorem nodup_keys_entries (unique : v.unique = true) : (Assoc.keys (entries v)).Nodup := by
  cases v with
  | obj fields => exact (Unique.nodup unique)
  | arr items => exact nodup_keys_indexed 0 items
  | _ => exact List.nodup_nil

theorem unique_of_entry (unique : v.unique = true) (found : Assoc.get key (entries v) = some w) :
    w.unique = true := by
  cases v with
  | obj fields => exact Unique.value unique found
  | arr items => exact uniqueItems_iff.mp unique w (mem_indexed (Assoc.mem_of_get found))
  | _ => cases found

/-- An entry is smaller than the value that has it. -/
theorem sizeOf_entry (found : Assoc.get key (entries v) = some w) : sizeOf w < sizeOf v := by
  have member := Assoc.mem_of_get found
  cases v with
  | obj fields =>
    have pair := List.sizeOf_lt_of_mem member
    have entry : sizeOf (key, w) = 1 + sizeOf key + sizeOf w := rfl
    have whole := Value.obj.sizeOf_spec fields
    have same : entries (.obj fields) = fields := rfl
    rw [same] at pair
    omega
  | arr items =>
    have item : sizeOf w < sizeOf items := List.sizeOf_lt_of_mem (mem_indexed member)
    have whole := Value.arr.sizeOf_spec items
    omega
  | _ => cases member

/-- Induction over the entries of a value, those of objects and of lists alike. -/
theorem entries_induction {motive : Value → Prop}
    (step : ∀ v, (∀ key w, Assoc.get key (entries v) = some w → motive w) → motive v) (v : Value) :
    motive v :=
  step v fun _ w _ => entries_induction step w
termination_by v
decreasing_by exact sizeOf_entry ‹_›

theorem isAtom_unique (atom : isAtom v = true) : v.unique = true := by
  cases v <;> first | rfl | cases atom

end

section

variable {e : Engine} {key : String}

/-- An array is merged as an object whose keys are its indices. -/
theorem mergeItems_eq (index : Nat) (items : List Value) (curState : Js e.Builtin) (delta : Delta e.Builtin) :
    mergeItems e index items curState delta = mergeFields e (indexed index items) curState delta := by
  induction items generalizing index delta with
  | nil => rfl
  | cons value rest ih =>
    simp only [mergeItems, indexed, mergeFields, ih]

theorem mergeState_eq {preState : Value} (present : preState ≠ .null) (curState : Js e.Builtin) :
    mergeState e preState curState =
      (mergeFields e (entries preState) curState []).bind (finish e preState curState) := by
  cases preState with
  | null => exact absurd rfl present
  | obj fields => rfl
  | arr items =>
    rw [mergeState, mergeItems_eq]
    rfl
  | _ => rfl

theorem get_assign (key other : String) (x : Js e.Builtin) (delta : Delta e.Builtin) :
    Assoc.get other (assign key x delta) =
      if key = other ∧ key ≠ "__proto__" then some x else Assoc.get other delta := by
  rw [assign]
  by_cases proto : key = "__proto__"
  · rw [if_pos proto, if_neg fun both => both.2 proto]
  · rw [if_neg proto, Assoc.get_set]
    simp [proto]

theorem nodup_keys_assign (key : String) (x : Js e.Builtin) {delta : Delta e.Builtin}
    (distinct : (Assoc.keys delta).Nodup) : (Assoc.keys (assign key x delta)).Nodup := by
  rw [assign]
  split
  · exact distinct
  · exact Assoc.nodup_keys_set distinct

/-- What a merge answered, if it did not throw. -/
def answer : Except Thrown (Option Value) → Option Value
  | .ok delta => delta
  | .error _ => none

/-- What the first loop assigns for a value and the one that stands in its place. -/
def assigned (e : Engine) (value : Value) (cur : Js e.Builtin) : Option (Js e.Builtin) :=
  if typeofObject value then
    if cur.nullish then some .undefined else (answer (mergeState e value cur)).map .value
  else if identical value cur then none
  else some cur

/-- The merge of the two values is asked for, and does not throw. -/
def Merges (e : Engine) (value : Value) (cur : Js e.Builtin) : Prop :=
  typeofObject value = true → cur.nullish = false → ∃ sub, mergeState e value cur = .ok sub

theorem mergeExisted_eq_ok_iff {value : Value} {cur : Js e.Builtin} {delta delta' : Delta e.Builtin} :
    mergeExisted key value cur (mergeState e value cur) delta = .ok delta' ↔
      Merges e value cur ∧
        ((assigned e value cur).map fun x => assign key x delta).getD delta = delta' := by
  rw [mergeExisted, assigned, Merges]
  by_cases object : typeofObject value = true
  · by_cases gone : cur.nullish = true
    · simp [object, gone]
    · rw [Bool.not_eq_true] at gone
      cases below : mergeState e value cur with
      | error thrown => simp [object, gone, bind, Except.bind]
      | ok sub => cases sub <;> simp [object, gone, answer, bind, Except.bind]
  · rw [Bool.not_eq_true] at object
    by_cases same : identical value cur = true
    · simp [object, same]
    · simp [object, same]

/-- The first loop goes through exactly when every property can be read and every merge
that is asked for does not throw. -/
theorem mergeFields_ok_iff {fields : Fields} {curState : Js e.Builtin} {delta : Delta e.Builtin} :
    (∃ delta', mergeFields e fields curState delta = .ok delta') ↔
      ∀ key value, (key, value) ∈ fields → ∃ cur, e.get curState key = .ok cur ∧ Merges e value cur := by
  induction fields generalizing delta with
  | nil => simp [mergeFields]
  | cons entry rest ih =>
    obtain ⟨head, first⟩ := entry
    simp only [mergeFields, bind_eq_ok, mergeExisted_eq_ok_iff]
    constructor
    · rintro ⟨delta', cur, read, middle, ⟨merges, -⟩, onward⟩ key value member
      rcases List.mem_cons.mp member with same | later
      · cases same
        exact ⟨cur, read, merges⟩
      · exact ih.mp ⟨delta', onward⟩ key value later
    · intro each
      obtain ⟨cur, read, merges⟩ := each head first List.mem_cons_self
      obtain ⟨delta', onward⟩ := ih.mpr fun key value member => each key value (List.mem_cons_of_mem _ member)
      exact ⟨delta', cur, read, _, ⟨merges, rfl⟩, onward⟩

/-- What the first loop leaves at a key. -/
theorem get_mergeFields {fields : Fields} (distinct : (Assoc.keys fields).Nodup)
    {curState : Js e.Builtin} {delta delta' : Delta e.Builtin}
    (merged : mergeFields e fields curState delta = .ok delta') (key : String) :
    Assoc.get key delta' =
      if key = "__proto__" then Assoc.get key delta
      else ((Assoc.get key fields).bind fun value =>
        (e.get curState key).toOption.bind (assigned e value)).or (Assoc.get key delta) := by
  induction fields generalizing delta with
  | nil =>
    cases merged
    split <;> rfl
  | cons entry rest ih =>
    obtain ⟨head, first⟩ := entry
    obtain ⟨fresh, distinct'⟩ := List.nodup_cons.mp distinct
    have missing := Assoc.get_eq_none_iff.mpr fresh
    simp only [mergeFields, bind_eq_ok, mergeExisted_eq_ok_iff] at merged
    obtain ⟨cur, read, middle, ⟨-, rfl⟩, onward⟩ := merged
    rw [ih distinct' onward, Assoc.get_cons]
    by_cases here : head = key
    · subst here
      rw [missing, if_pos rfl, Option.bind_some, read]
      cases written : assigned e first cur with
      | none => simp [Except.toOption, written]
      | some x =>
        rw [Option.map_some, Option.getD_some, get_assign]
        by_cases proto : head = "__proto__" <;> simp [proto, Except.toOption, written]
    · have kept : Assoc.get key (((assigned e first cur).map fun x => assign head x delta).getD delta) =
          Assoc.get key delta := by
        cases assigned e first cur with
        | none => rfl
        | some x =>
          rw [Option.map_some, Option.getD_some, get_assign, if_neg fun both => here both.1]
      rw [kept, if_neg here]

theorem nodup_keys_mergeFields {fields : Fields} {curState : Js e.Builtin} {delta delta' : Delta e.Builtin}
    (distinct : (Assoc.keys delta).Nodup) (merged : mergeFields e fields curState delta = .ok delta') :
    (Assoc.keys delta').Nodup := by
  induction fields generalizing delta with
  | nil =>
    cases merged
    exact distinct
  | cons entry rest ih =>
    obtain ⟨head, first⟩ := entry
    simp only [mergeFields, bind_eq_ok, mergeExisted_eq_ok_iff] at merged
    obtain ⟨cur, read, middle, ⟨-, rfl⟩, onward⟩ := merged
    refine ih ?_ onward
    cases assigned e first cur with
    | none => exact distinct
    | some x => exact nodup_keys_assign head x distinct

/-- What the second loop leaves at a key. -/
theorem get_mergeUnexisted (preState : Value) {keys : List (String × Js e.Builtin)}
    (distinct : (Assoc.keys keys).Nodup) (delta : Delta e.Builtin) (key : String) :
    Assoc.get key (mergeUnexisted e preState keys delta) =
      if key = "__proto__" then Assoc.get key delta
      else ((Assoc.get key keys).filter fun cur =>
        (e.read preState key).isUndefined && !cur.isNull).or (Assoc.get key delta) := by
  induction keys generalizing delta with
  | nil =>
    rw [mergeUnexisted]
    split <;> rfl
  | cons entry rest ih =>
    obtain ⟨head, cur⟩ := entry
    obtain ⟨fresh, distinct'⟩ := List.nodup_cons.mp distinct
    have missing := Assoc.get_eq_none_iff.mpr fresh
    rw [mergeUnexisted, ih distinct', Assoc.get_cons]
    by_cases here : head = key
    · subst here
      rw [missing, if_pos rfl]
      by_cases taken : ((e.read preState head).isUndefined && !cur.isNull) = true
      · rw [if_pos taken, get_assign]
        by_cases proto : head = "__proto__" <;> simp [proto, Option.filter, taken]
      · rw [if_neg taken]
        simp [Option.filter, taken]
    · have kept : Assoc.get key (if ((e.read preState head).isUndefined && !cur.isNull) = true
          then assign head cur delta else delta) = Assoc.get key delta := by
        split
        · rw [get_assign, if_neg fun both => here both.1]
        · rfl
      rw [kept, if_neg here]

theorem nodup_keys_mergeUnexisted (preState : Value) (keys : List (String × Js e.Builtin))
    {delta : Delta e.Builtin} (distinct : (Assoc.keys delta).Nodup) :
    (Assoc.keys (mergeUnexisted e preState keys delta)).Nodup := by
  induction keys generalizing delta with
  | nil => exact distinct
  | cons entry rest ih =>
    apply ih
    split
    · exact nodup_keys_assign _ _ distinct
    · exact distinct

/-- A JSON value names each of its keys once, at every depth. -/
def Js.Unique (x : Js e.Builtin) : Prop := ∀ v, x = .value v → v.unique = true

theorem own_eq_entries {v : Value} (plain : ∀ s, v ≠ .str s) :
    e.own v = (entries v).map fun entry => (entry.1, .value entry.2) := by
  cases v with
  | str s => exact absurd rfl (plain s)
  | _ => rfl

theorem not_text {v : Value} (object : typeofObject v = true) (s : String) : v ≠ .str s := by
  rintro rfl
  cases object

theorem read_eq {v : Value} (object : typeofObject v = true) (key : String) :
    e.read v key = ((Assoc.get key (entries v)).map .value).getD (e.inherited v key) := by
  rw [Engine.read, own_eq_entries (not_text object), Assoc.get_map]

theorem nodup_keys_own {v : Value} (unique : v.unique = true) : (Assoc.keys (e.own v)).Nodup := by
  cases v with
  | str s => exact nodup_keys_indexed 0 _
  | _ =>
    rw [own_eq_entries (by rintro s ⟨⟩), Assoc.keys_map]
    exact nodup_keys_entries unique

theorem nodup_keys_keys {x : Js e.Builtin} (unique : x.Unique) {keys : List (String × Js e.Builtin)}
    (listed : e.keys x = .ok keys) : (Assoc.keys keys).Nodup := by
  cases x with
  | undefined => cases listed
  | builtin b =>
    cases listed
    exact List.nodup_nil
  | value v =>
    have own : e.own v = keys := by
      cases v <;> cases listed <;> rfl
    rw [← own]
    exact nodup_keys_own (unique v rfl)

/-- Whatever is read off a value names its keys once. -/
theorem unique_read {v : Value} (unique : v.unique = true) (key : String) : (e.read v key).Unique := by
  intro w found
  rw [Engine.read] at found
  cases own : Assoc.get key (e.own v) with
  | none =>
    rw [own] at found
    exact isAtom_unique (e.inherited_atom v key w found)
  | some x =>
    rw [own, Option.getD_some] at found
    subst found
    have member := Assoc.mem_of_get own
    cases v with
    | str s => exact isAtom_unique (e.units_atom s w (mem_indexed member))
    | _ =>
      rw [own_eq_entries (by rintro s ⟨⟩), Assoc.get_map, Option.map_eq_some_iff] at own
      obtain ⟨_, held, same⟩ := own
      cases same
      exact unique_of_entry unique held

theorem unique_get {x y : Js e.Builtin} (unique : x.Unique) (read : e.get x key = .ok y) : y.Unique := by
  cases x with
  | undefined => cases read
  | builtin b =>
    rintro w rfl
    exact isAtom_unique (e.property_atom b key w read)
  | value v =>
    have same : e.read v key = y := by
      cases v <;> cases read <;> rfl
    rw [← same]
    exact unique_read (unique v rfl) key

/-- What the merge answers at a key. -/
def fieldOf (e : Engine) (preState : Value) (curState : Js e.Builtin) (keys : List (String × Js e.Builtin))
    (key : String) : Option Value :=
  if key = "__proto__" then none
  else match Assoc.get key (entries preState) with
    | some value => (e.get curState key).toOption.bind fun cur => (assigned e value cur).bind e.jsonOf
    | none =>
      ((Assoc.get key keys).filter fun cur =>
        (e.inherited preState key).isUndefined && !cur.isNull).bind e.jsonOf

section

variable {preState : Value} {curState : Js e.Builtin}

theorem mergeState_ok_iff (present : preState ≠ .null) (unique : preState.unique = true) :
    (∃ found, mergeState e preState curState = .ok found) ↔
      (∃ keys, e.keys curState = .ok keys) ∧
      ∀ key value, Assoc.get key (entries preState) = some value →
        ∃ cur, e.get curState key = .ok cur ∧ Merges e value cur := by
  have loop : (∃ delta, mergeFields e (entries preState) curState [] = .ok delta) ↔ _ := mergeFields_ok_iff
  have listed : (∀ key value, (key, value) ∈ entries preState →
      ∃ cur, e.get curState key = .ok cur ∧ Merges e value cur) ↔
      ∀ key value, Assoc.get key (entries preState) = some value →
        ∃ cur, e.get curState key = .ok cur ∧ Merges e value cur := by
    constructor <;> intro each key value found
    · exact each key value (Assoc.mem_of_get found)
    · exact each key value (Assoc.get_of_mem (nodup_keys_entries unique) found)
  rw [mergeState_eq present, ← listed, ← loop]
  constructor
  · rintro ⟨found, answered⟩
    obtain ⟨delta, merged, onward⟩ := bind_eq_ok.mp answered
    obtain ⟨keys, opened, -⟩ := bind_eq_ok.mp onward
    exact ⟨⟨keys, opened⟩, delta, merged⟩
  · rintro ⟨⟨keys, opened⟩, delta, merged⟩
    exact ⟨_, bind_eq_ok.mpr ⟨delta, merged, bind_eq_ok.mpr ⟨keys, opened, rfl⟩⟩⟩

/-- The merge field by field. -/
theorem mergeState_fields (object : typeofObject preState = true) (present : preState ≠ .null)
    (unique : preState.unique = true) (unique' : curState.Unique) {found : Option Value}
    (answered : mergeState e preState curState = .ok found) :
    ∃ keys fields, e.keys curState = .ok keys ∧ found = created fields ∧
      (Assoc.keys fields).Nodup ∧ ∀ key, Assoc.get key fields = fieldOf e preState curState keys key := by
  rw [mergeState_eq present] at answered
  obtain ⟨delta, merged, onward⟩ := bind_eq_ok.mp answered
  obtain ⟨keys, opened, done⟩ := bind_eq_ok.mp onward
  cases done
  have start : (Assoc.keys ([] : Delta e.Builtin)).Nodup := List.nodup_nil
  have distinct := nodup_keys_mergeUnexisted preState keys (nodup_keys_mergeFields start merged)
  refine ⟨keys, _, opened, rfl, Assoc.nodup_keys_filterMap e.jsonOf distinct, fun key => ?_⟩
  rw [Assoc.get_filterMap e.jsonOf distinct, get_mergeUnexisted preState (nodup_keys_keys unique' opened),
    get_mergeFields (nodup_keys_entries unique) merged, read_eq object, fieldOf]
  by_cases proto : key = "__proto__"
  · simp [proto]
  · rw [if_neg proto, if_neg proto, if_neg proto]
    cases held : Assoc.get key (entries preState) with
    | none => simp
    | some value =>
      cases read : e.get curState key <;> simp [Js.isUndefined, Except.toOption]

end

end

end Tio.Web
