import Mathlib.Data.List.Induction
import Mathlib.Data.List.Nodup
import Tio.Core.Assoc

/-! Loops that read a list of items into tables and stop at the first that is refused,
and the place at which the last item of a kind stands. -/

namespace Tio.Core

universe u v w

section

variable {Item : Type u} {State : Type v} {Refusal : Type w}
variable {load : State → Item → Except Refusal State} {admits : State → Item → Prop} {next : State → Item → State}

/-- The loop takes every item precisely when each is admitted in the state in which the
loop meets it, and it leaves what the items make of the state. -/
theorem foldlM_eq_ok (spec : ∀ s item s', load s item = .ok s' ↔ admits s item ∧ next s item = s')
    {items : List Item} {s s' : State} :
    items.foldlM load s = .ok s' ↔
      (∀ before item after, items = before ++ item :: after → admits (before.foldl next s) item) ∧
        items.foldl next s = s' := by
  induction items generalizing s with
  | nil => simp [pure, Except.pure]
  | cons first rest ih =>
    rw [List.foldlM_cons, List.foldl_cons]
    constructor
    · intro done
      cases taken : load s first with
      | error refusal =>
        rw [taken] at done
        cases done
      | ok t =>
        rw [taken] at done
        obtain ⟨here, rfl⟩ := (spec s first t).mp taken
        obtain ⟨later, last⟩ := ih.mp done
        refine ⟨fun before item after same => ?_, last⟩
        cases before with
        | nil =>
          cases same
          exact here
        | cons head before =>
          cases same
          exact later before item after rfl
    · rintro ⟨every, last⟩
      have taken : load s first = .ok (next s first) := (spec _ _ _).mpr ⟨every [] first rest rfl, rfl⟩
      rw [taken]
      refine ih.mpr ⟨fun before item after same => ?_, last⟩
      exact every (first :: before) item after (by rw [same, List.cons_append])

/-- The items are admitted all alike when none of them changes what the next ones need. -/
theorem foldlM_eq_ok_of_steady (spec : ∀ s item s', load s item = .ok s' ↔ admits s item ∧ next s item = s')
    (steady : ∀ s item other, admits (next s item) other ↔ admits s other) {items : List Item} {s s' : State} :
    items.foldlM load s = .ok s' ↔ (∀ item ∈ items, admits s item) ∧ items.foldl next s = s' := by
  have same : ∀ (before : List Item) other s, admits (before.foldl next s) other ↔ admits s other := by
    intro before other
    induction before with
    | nil => exact fun s => Iff.rfl
    | cons first rest ih => exact fun s => (ih _).trans (steady s first other)
  rw [foldlM_eq_ok spec]
  refine and_congr_left fun _ => ?_
  constructor
  · intro every item member
    obtain ⟨before, after, split⟩ := List.append_of_mem member
    exact (same before item s).mp (every before item after split)
  · intro every before item after split
    exact (same before item s).mpr (every item (split ▸ by simp))

end

section

variable {Item : Type u} {Key : Type v}

/-- No key comes twice precisely when no item has the key of one before it. -/
theorem nodup_iff_fresh {key : Item → Key} {items : List Item} :
    (items.map key).Nodup ↔
      ∀ before item after, items = before ++ item :: after → key item ∉ before.map key := by
  constructor
  · rintro distinct before item after rfl member
    rw [List.map_append, List.map_cons] at distinct
    exact (List.nodup_append.mp distinct).2.2 _ member _ List.mem_cons_self rfl
  · intro fresh
    induction items using List.reverseRecOn with
    | nil => exact List.nodup_nil
    | append_singleton items item ih =>
      have distinct : (items.map key).Nodup := ih fun before other after same =>
        fresh before other (after ++ [item]) (by rw [same, List.append_assoc, List.cons_append])
      rw [List.map_append, List.map_singleton, ← List.concat_eq_append]
      exact distinct.concat (fresh items item [] rfl)

/-- The place of the last item of a kind. -/
def LastAt (kind : Item → Prop) (items : List Item) (i : Nat) : Prop :=
  (∃ item, items[i]? = some item ∧ kind item) ∧ ∀ j item, i < j → items[j]? = some item → ¬ kind item

variable {kind : Item → Prop} {items : List Item} {item : Item} {i : Nat}

theorem LastAt.lt (last : LastAt kind items i) : i < items.length := by
  obtain ⟨item, found, -⟩ := last.1
  exact (List.getElem?_eq_some_iff.mp found).1

theorem lastAt_concat : LastAt kind (items ++ [item]) i ↔
    kind item ∧ i = items.length ∨ ¬ kind item ∧ LastAt kind items i := by
  have inside : ∀ {j other}, items[j]? = some other → (items ++ [item])[j]? = some other := fun found => by
    rw [List.getElem?_append_left (List.getElem?_eq_some_iff.mp found).1, found]
  have atEnd : (items ++ [item])[items.length]? = some item := by simp
  constructor
  · rintro ⟨⟨other, found, isKind⟩, later⟩
    have within := (List.getElem?_eq_some_iff.mp found).1
    rw [List.length_append, List.length_singleton] at within
    rcases Nat.lt_or_eq_of_le (Nat.le_of_lt_succ within) with less | rfl
    · rw [List.getElem?_append_left less] at found
      exact .inr ⟨later _ _ less atEnd, ⟨other, found, isKind⟩, fun j third more there => later j third more (inside there)⟩
    · obtain rfl : item = other := Option.some.inj (atEnd.symm.trans found)
      exact .inl ⟨isKind, rfl⟩
  · rintro (⟨isKind, rfl⟩ | ⟨other, ⟨third, found, isKind⟩, later⟩)
    · refine ⟨⟨item, atEnd, isKind⟩, fun j other more found => ?_⟩
      have within := (List.getElem?_eq_some_iff.mp found).1
      rw [List.length_append, List.length_singleton] at within
      omega
    · refine ⟨⟨third, inside found, isKind⟩, fun j fourth more there => ?_⟩
      have within := (List.getElem?_eq_some_iff.mp there).1
      rw [List.length_append, List.length_singleton] at within
      rcases Nat.lt_or_eq_of_le (Nat.le_of_lt_succ within) with less | rfl
      · rw [List.getElem?_append_left less] at there
        exact later j fourth more there
      · obtain rfl : item = fourth := Option.some.inj (atEnd.symm.trans there)
        exact other

theorem exists_lastAt (member : item ∈ items) (isKind : kind item) : ∃ i, LastAt kind items i := by
  induction items using List.reverseRecOn with
  | nil => cases member
  | append_singleton items last ih =>
    by_cases here : kind last
    · exact ⟨items.length, lastAt_concat.mpr (.inl ⟨here, rfl⟩)⟩
    · rcases List.mem_append.mp member with before | same
      · obtain ⟨i, found⟩ := ih before
        exact ⟨i, lastAt_concat.mpr (.inr ⟨here, found⟩)⟩
      · exact absurd (List.mem_singleton.mp same ▸ isKind) here

end

section

variable {Item : Type u} {Key : Type v} {Value : Type w} [DecidableEq Key]

/-- The table that a loop leaves in which each item sets the entry of its key. -/
def fill (key : Item → Key) (value : Nat → Item → Value) (items : List Item) : List (Key × Value) :=
  items.zipIdx.foldl (fun table entry => Assoc.set (key entry.1) (value entry.2 entry.1) table) []

variable {key : Item → Key} {value : Nat → Item → Value} {items : List Item}

@[simp] theorem fill_nil : fill key value [] = [] := rfl

theorem fill_concat (item : Item) :
    fill key value (items ++ [item]) = Assoc.set (key item) (value items.length item) (fill key value items) := by
  simp [fill, List.zipIdx_append, List.foldl_append]

/-- An entry is the one of the last item with its key. -/
theorem get_fill {k : Key} {v : Value} : Assoc.get k (fill key value items) = some v ↔
    ∃ i item, LastAt (fun item => key item = k) items i ∧ items[i]? = some item ∧ value i item = v := by
  induction items using List.reverseRecOn with
  | nil => simp
  | append_singleton items last ih =>
    rw [fill_concat]
    have before : ∀ {i}, i < items.length → (items ++ [last])[i]? = items[i]? :=
      fun less => List.getElem?_append_left less
    by_cases here : key last = k
    · subst here
      rw [Assoc.get_set_self, Option.some.injEq]
      constructor
      · rintro rfl
        exact ⟨items.length, last, lastAt_concat.mpr (.inl ⟨rfl, rfl⟩), by simp, rfl⟩
      · rintro ⟨i, item, found, stands, same⟩
        rcases lastAt_concat.mp found with ⟨-, rfl⟩ | ⟨other, -⟩
        · obtain rfl : last = item := by simpa using stands
          exact same
        · exact absurd rfl other
    · rw [Assoc.get_set_other here, ih]
      constructor
      · rintro ⟨i, item, found, stands, same⟩
        exact ⟨i, item, lastAt_concat.mpr (.inr ⟨here, found⟩), by rw [before found.lt, stands], same⟩
      · rintro ⟨i, item, found, stands, same⟩
        rcases lastAt_concat.mp found with ⟨wrong, -⟩ | ⟨-, found⟩
        · exact absurd wrong here
        · exact ⟨i, item, found, by rwa [before found.lt] at stands, same⟩

theorem get_fill_place {k : Key} {i : Nat} :
    Assoc.get k (fill key (fun i _ => i) items) = some i ↔ LastAt (fun item => key item = k) items i := by
  rw [get_fill]
  constructor
  · rintro ⟨_, _, last, -, rfl⟩
    exact last
  · intro last
    obtain ⟨item, found, -⟩ := last.1
    exact ⟨i, item, last, found, rfl⟩

theorem mem_keys_fill {k : Key} : k ∈ Assoc.keys (fill key value items) ↔ k ∈ items.map key := by
  rw [← not_iff_not, ← Assoc.get_eq_none_iff, Option.eq_none_iff_forall_ne_some, List.mem_map]
  constructor
  · rintro none ⟨item, member, same⟩
    obtain ⟨i, last⟩ : ∃ i, LastAt (fun item => key item = k) items i := exists_lastAt member same
    obtain ⟨other, found, -⟩ := last.1
    exact none _ (get_fill.mpr ⟨i, other, last, found, rfl⟩)
  · intro none v found
    obtain ⟨i, -, last, -⟩ := get_fill.mp found
    obtain ⟨item, here, same⟩ := last.1
    exact none ⟨item, List.mem_of_getElem? here, same⟩

theorem nodup_keys_fill : (Assoc.keys (fill key value items)).Nodup := by
  induction items using List.reverseRecOn with
  | nil => exact List.nodup_nil
  | append_singleton items last ih =>
    rw [fill_concat]
    exact Assoc.nodup_keys_set ih

/-- With distinct keys the table lists the items. -/
theorem fill_of_nodup (value : Item → Value) (distinct : (items.map key).Nodup) :
    fill key (fun _ => value) items = items.map fun item => (key item, value item) := by
  induction items using List.reverseRecOn with
  | nil => rfl
  | append_singleton items last ih =>
    rw [List.map_append, List.map_singleton, ← List.concat_eq_append, List.nodup_concat] at distinct
    have missing : Assoc.get (key last) (fill key (fun _ => value) items) = none := by
      rw [Assoc.get_eq_none_iff, mem_keys_fill]
      exact distinct.1
    rw [fill_concat, Assoc.set_of_fresh missing, ih distinct.2, List.map_append, List.map_singleton]

end

end Tio.Core
