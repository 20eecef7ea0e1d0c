import Mathlib.Data.List.Nodup

namespace Tio.Core.Assoc

universe u v

variable {Key : Type u} {Value : Type v} [DecidableEq Key]

def get (key : Key) : List (Key × Value) → Option Value
  | [] => none
  | (other, value) :: rest => if other = key then some value else get key rest

/-- Overwrite the entry of a key where it stands, or add one at the end. -/
def set (key : Key) (value : Value) : List (Key × Value) → List (Key × Value)
  | [] => [(key, value)]
  | (other, old) :: rest =>
    if other = key then (other, value) :: rest else (other, old) :: set key value rest

def erase (key : Key) (entries : List (Key × Value)) : List (Key × Value) :=
  entries.filter fun entry => entry.1 ≠ key

/-- Set the entry of a key, or erase it when there is nothing to set. -/
def put (key : Key) : Option Value → List (Key × Value) → List (Key × Value)
  | some value, entries => set key value entries
  | none, entries => erase key entries

def keys (entries : List (Key × Value)) : List Key := entries.map Prod.fst

@[simp] theorem get_nil (key : Key) : get key ([] : List (Key × Value)) = none := rfl

theorem get_cons (key other : Key) (value : Value) (rest : List (Key × Value)) :
    get key ((other, value) :: rest) = if other = key then some value else get key rest := rfl

theorem get_set (key other : Key) (value : Value) (entries : List (Key × Value)) :
    get other (set key value entries) = if key = other then some value else get other entries := by
  induction entries with
  | nil => simp [set, get_cons]
  | cons entry rest ih =>
    obtain ⟨head, old⟩ := entry
    by_cases same : head = key
    · subst head
      by_cases here : key = other <;> simp [set, get_cons, here]
    · simp only [set, same, ↓reduceIte, get_cons, ih]
      by_cases here : head = other
      · have apart : key ≠ other := fun clash => same (here.trans clash.symm)
        simp [here, apart]
      · simp [here]

theorem get_erase (key other : Key) (entries : List (Key × Value)) :
    get other (erase key entries) = if key = other then none else get other entries := by
  induction entries with
  | nil => simp [erase]
  | cons entry rest ih =>
    obtain ⟨head, value⟩ := entry
    by_cases same : head = key
    · subst head
      simp only [erase, ne_eq, decide_not, decide_true, Bool.not_true, Bool.false_eq_true,
        not_false_eq_true, List.filter_cons_of_neg, get_cons] at ih ⊢
      rw [ih]
      split <;> rfl
    · simp only [erase, ne_eq, same, not_false_eq_true, decide_true, List.filter_cons_of_pos,
        get_cons] at ih ⊢
      rw [ih]
      by_cases here : head = other
      · have apart : key ≠ other := fun clash => same (here.trans clash.symm)
        simp [here, apart]
      · simp [here]

@[simp] theorem get_set_self (key : Key) (value : Value) (entries : List (Key × Value)) :
    get key (set key value entries) = some value := by simp [get_set]

theorem get_set_other {key other : Key} (apart : key ≠ other) (value : Value)
    (entries : List (Key × Value)) : get other (set key value entries) = get other entries := by
  simp [get_set, apart]

@[simp] theorem get_erase_self (key : Key) (entries : List (Key × Value)) :
    get key (erase key entries) = none := by simp [get_erase]

theorem get_erase_other {key other : Key} (apart : key ≠ other) (entries : List (Key × Value)) :
    get other (erase key entries) = get other entries := by simp [get_erase, apart]

theorem get_put (key other : Key) (value : Option Value) (entries : List (Key × Value)) :
    get other (put key value entries) = if key = other then value else get other entries := by
  cases value with
  | none => exact get_erase key other entries
  | some value => exact get_set key other value entries

theorem mem_of_get {key : Key} {value : Value} {entries : List (Key × Value)}
    (found : get key entries = some value) : (key, value) ∈ entries := by
  induction entries with
  | nil => simp at found
  | cons entry rest ih =>
    obtain ⟨head, other⟩ := entry
    rw [get_cons] at found
    split at found
    · rename_i same
      rw [Option.some.injEq] at found
      simp [same, found]
    · exact List.mem_cons_of_mem _ (ih found)

theorem get_eq_none_iff {key : Key} {entries : List (Key × Value)} :
    get key entries = none ↔ key ∉ keys entries := by
  induction entries with
  | nil => simp [keys]
  | cons entry rest ih =>
    obtain ⟨head, value⟩ := entry
    by_cases same : head = key
    · simp [get_cons, keys, same]
    · simp only [get_cons, same, ↓reduceIte, ih, keys, List.map_cons, List.mem_cons, not_or]
      exact ⟨fun missing => ⟨Ne.symm same, missing⟩, And.right⟩

/-- With distinct keys every entry is the one its key finds. -/
theorem get_of_mem {key : Key} {value : Value} {entries : List (Key × Value)}
    (distinct : (keys entries).Nodup) (member : (key, value) ∈ entries) :
    get key entries = some value := by
  induction entries with
  | nil => simp at member
  | cons entry rest ih =>
    obtain ⟨head, other⟩ := entry
    obtain ⟨fresh, distinct'⟩ := List.nodup_cons.mp distinct
    rcases List.mem_cons.mp member with here | later
    · cases here
      simp [get_cons]
    · have apart : head ≠ key := by
        intro same
        subst same
        exact fresh (List.mem_map.mpr ⟨_, later, rfl⟩)
      simp [get_cons, apart, ih distinct' later]

theorem set_of_fresh {key : Key} {value : Value} {entries : List (Key × Value)}
    (missing : get key entries = none) : set key value entries = entries ++ [(key, value)] := by
  induction entries with
  | nil => rfl
  | cons entry rest ih =>
    obtain ⟨head, old⟩ := entry
    rw [get_cons] at missing
    split at missing
    · cases missing
    · rename_i apart
      simp [set, apart, ih missing]

theorem set_of_get {key : Key} {value : Value} {entries : List (Key × Value)}
    (found : get key entries = some value) : set key value entries = entries := by
  induction entries with
  | nil => cases found
  | cons entry rest ih =>
    obtain ⟨head, first⟩ := entry
    rw [get_cons] at found
    rw [set]
    split
    · rename_i same
      rw [if_pos same, Option.some.injEq] at found
      rw [found]
    · rename_i apart
      rw [if_neg apart] at found
      rw [ih found]

theorem eq_nil_iff_get {entries : List (Key × Value)} :
    entries = [] ↔ ∀ key, get key entries = none := by
  constructor
  · rintro rfl key
    rfl
  · intro missing
    cases entries with
    | nil => rfl
    | cons entry rest =>
      obtain ⟨head, value⟩ := entry
      simpa [get_cons] using missing head

theorem mem_keys_set {key other : Key} {value : Value} {entries : List (Key × Value)} :
    other ∈ keys (set key value entries) ↔ other = key ∨ other ∈ keys entries := by
  rw [← not_iff_not, not_or, ← get_eq_none_iff, ← get_eq_none_iff, get_set]
  by_cases same : key = other
  · simp [same]
  · simp [same, Ne.symm same]

theorem nodup_keys_set {key : Key} {value : Value} {entries : List (Key × Value)}
    (distinct : (keys entries).Nodup) : (keys (set key value entries)).Nodup := by
  induction entries with
  | nil => simp [set, keys]
  | cons entry rest ih =>
    obtain ⟨head, old⟩ := entry
    obtain ⟨fresh, distinct'⟩ := List.nodup_cons.mp distinct
    by_cases same : head = key
    · simpa [set, same, keys] using distinct
    · rw [set, if_neg same]
      refine List.nodup_cons.mpr ⟨?_, ih distinct'⟩
      intro repeated
      rcases mem_keys_set.mp repeated with clash | old
      · exact same clash
      · exact fresh old

theorem nodup_keys_erase {key : Key} {entries : List (Key × Value)}
    (distinct : (keys entries).Nodup) : (keys (erase key entries)).Nodup :=
  distinct.sublist (List.filter_sublist.map _)

theorem nodup_keys_put {key : Key} {value : Option Value} {entries : List (Key × Value)}
    (distinct : (keys entries).Nodup) : (keys (put key value entries)).Nodup := by
  cases value with
  | none => exact nodup_keys_erase distinct
  | some value => exact nodup_keys_set distinct

theorem mem_set {key : Key} {value : Value} {entries : List (Key × Value)} {entry : Key × Value}
    (member : entry ∈ set key value entries) : entry = (key, value) ∨ entry ∈ entries := by
  induction entries with
  | nil => exact .inl (by simpa [set] using member)
  | cons head rest ih =>
    obtain ⟨other, old⟩ := head
    by_cases same : other = key
    · subst other
      rw [set, if_pos rfl] at member
      rcases List.mem_cons.mp member with here | later
      · exact .inl here
      · exact .inr (List.mem_cons_of_mem _ later)
    · rw [set, if_neg same] at member
      rcases List.mem_cons.mp member with here | later
      · exact .inr (by simp [here])
      · exact (ih later).imp_right (List.mem_cons_of_mem _)

theorem mem_erase {key : Key} {entries : List (Key × Value)} {entry : Key × Value}
    (member : entry ∈ erase key entries) : entry ∈ entries :=
  (List.mem_filter.mp member).1

theorem mem_put {key : Key} {value : Option Value} {entries : List (Key × Value)}
    {entry : Key × Value} (member : entry ∈ put key value entries) :
    value = some entry.2 ∨ entry ∈ entries := by
  cases value with
  | none => exact .inr (mem_erase member)
  | some value => exact (mem_set member).imp_left fun here => by simp [here]

section

universe w

variable {Other : Type w}

omit [DecidableEq Key] in
theorem keys_map (f : Value → Other) (entries : List (Key × Value)) :
    keys (entries.map fun entry => (entry.1, f entry.2)) = keys entries := by
  simp [keys]

theorem get_map (f : Value → Other) (key : Key) (entries : List (Key × Value)) :
    get key (entries.map fun entry => (entry.1, f entry.2)) = (get key entries).map f := by
  induction entries with
  | nil => rfl
  | cons entry rest ih =>
    obtain ⟨head, value⟩ := entry
    rw [List.map_cons, get_cons, get_cons, ih]
    split <;> rfl

omit [DecidableEq Key] in
theorem nodup_keys_filterMap (f : Value → Option Other) {entries : List (Key × Value)}
    (distinct : (keys entries).Nodup) :
    (keys (entries.filterMap fun entry => (f entry.2).map fun value => (entry.1, value))).Nodup := by
  induction entries with
  | nil => exact List.nodup_nil
  | cons entry rest ih =>
    obtain ⟨head, value⟩ := entry
    obtain ⟨fresh, distinct'⟩ := List.nodup_cons.mp distinct
    cases kept : f value with
    | none =>
      rw [List.filterMap_cons_none (by rw [kept]; rfl)]
      exact ih distinct'
    | some other =>
      rw [List.filterMap_cons_some (by rw [kept]; rfl)]
      refine List.nodup_cons.mpr ⟨fun repeated => fresh ?_, ih distinct'⟩
      obtain ⟨⟨_, _⟩, member, rfl⟩ := List.mem_map.mp repeated
      obtain ⟨old, there, same⟩ := List.mem_filterMap.mp member
      obtain ⟨_, -, same⟩ := Option.map_eq_some_iff.mp same
      cases same
      exact List.mem_map.mpr ⟨old, there, rfl⟩

theorem get_filterMap (f : Value → Option Other) {entries : List (Key × Value)}
    (distinct : (keys entries).Nodup) (key : Key) :
    get key (entries.filterMap fun entry => (f entry.2).map fun value => (entry.1, value)) =
      (get key entries).bind f := by
  induction entries with
  | nil => rfl
  | cons entry rest ih =>
    obtain ⟨head, value⟩ := entry
    obtain ⟨fresh, distinct'⟩ := List.nodup_cons.mp distinct
    have missing := get_eq_none_iff.mpr fresh
    cases kept : f value with
    | none =>
      rw [List.filterMap_cons_none (by rw [kept]; rfl), ih distinct', get_cons]
      split
      · next same =>
        subst same
        rw [missing, Option.bind_some, kept]
        rfl
      · rfl
    | some other =>
      rw [List.filterMap_cons_some (by rw [kept]; rfl), get_cons, get_cons, ih distinct']
      split
      · rw [Option.bind_some, kept]
      · rfl

end

/-! Entries that hold lists: what they hold together. -/

section

variable {Item : Type v}

theorem flatMap_set_append (key : Key) (item : Item) (entries : List (Key × List Item)) :
    ((set key ((get key entries).getD [] ++ [item]) entries).flatMap Prod.snd).Perm
      (item :: entries.flatMap Prod.snd) := by
  induction entries with
  | nil => simp [set]
  | cons entry rest ih =>
    obtain ⟨head, items⟩ := entry
    by_cases same : head = key
    · simp only [set, get_cons, same, if_true, Option.getD_some, List.flatMap_cons, List.append_assoc,
        List.singleton_append]
      exact List.perm_middle
    · simp only [set, get_cons, same, if_false, List.flatMap_cons]
      exact (ih.append_left items).trans List.perm_middle

theorem erase_of_fresh {key : Key} {entries : List (Key × Value)} (missing : key ∉ keys entries) :
    erase key entries = entries := by
  refine List.filter_eq_self.mpr fun entry member => ?_
  have apart : entry.1 ≠ key := fun same => missing (same ▸ List.mem_map_of_mem member)
  simpa using apart

theorem flatMap_erase {key : Key} {items : List Item} {entries : List (Key × List Item)}
    (distinct : (keys entries).Nodup) (found : get key entries = some items) :
    (entries.flatMap Prod.snd).Perm (items ++ (erase key entries).flatMap Prod.snd) := by
  induction entries with
  | nil => cases found
  | cons entry rest ih =>
    obtain ⟨head, held⟩ := entry
    obtain ⟨fresh, distinct'⟩ := List.nodup_cons.mp distinct
    rw [get_cons] at found
    by_cases same : head = key
    · rw [if_pos same, Option.some.injEq] at found
      subst held
      have rest_only : erase key ((head, items) :: rest) = rest := by
        rw [erase, List.filter_cons_of_neg (by simpa using same)]
        exact erase_of_fresh (same ▸ fresh)
      rw [rest_only, List.flatMap_cons]
    · rw [if_neg same] at found
      have kept : erase key ((head, held) :: rest) = (head, held) :: erase key rest := by
        rw [erase, List.filter_cons_of_pos (by simpa using same)]
        rfl
      rw [kept, List.flatMap_cons, List.flatMap_cons]
      refine ((ih distinct' found).append_left held).trans ?_
      rw [← List.append_assoc, ← List.append_assoc]
      exact (List.perm_append_comm).append_right _

end

end Tio.Core.Assoc
