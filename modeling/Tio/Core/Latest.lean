import Mathlib.Data.List.Basic

/-! The item of a list with the largest key, and stores that keep it whatever the
order is in which they are told. -/

namespace Tio.Core

universe u v

variable {Item : Type u} {Store : Type v} (key : Item → Int)

/-- No item of the list has a larger key. -/
structure Latest (items : List Item) (item : Item) : Prop where
  member : item ∈ items
  largest : ∀ other ∈ items, key other ≤ key item

/-- A store that holds one item. Of the items it is told it takes one that is not
older than the one it holds, and an older one leaves it as it is. -/
structure Register (Told : Item → Prop) (put : Store → Item → Store) (Holds : Store → Item → Prop) :
    Prop where
  newer : ∀ store held item, Holds store held → Told item → key held ≤ key item → Holds (put store item) item
  older : ∀ store held item, Holds store held → Told item → key item < key held → put store item = store

section

variable {key} {items : List Item}

theorem Latest.unique {item other : Item}
    (distinct : ∀ one ∈ items, ∀ two ∈ items, key one = key two → one = two)
    (latest : Latest key items item) (latest' : Latest key items other) : item = other := by
  apply distinct item latest.member other latest'.member
  exact Int.le_antisymm (latest'.largest item latest.member) (latest.largest other latest'.member)

/-- The latest item of a list is the latest of every part that has it. -/
theorem Latest.among {part : List Item} {item : Item} (latest : Latest key items item)
    (within : ∀ other ∈ part, other ∈ items) (member : item ∈ part) : Latest key part item :=
  ⟨member, fun other inside => latest.largest other (within other inside)⟩

variable {Told : Item → Prop} {put : Store → Item → Store} {Holds : Store → Item → Prop}

/-- Whatever a store is told after an item, it holds the latest of them. -/
theorem Register.foldl (register : Register key Told put Holds) {store : Store} {held : Item}
    (holds : Holds store held) {items : List Item} (told : ∀ item ∈ items, Told item) :
    ∃ last, Latest key (held :: items) last ∧ Holds (items.foldl put store) last := by
  induction items generalizing store held with
  | nil => exact ⟨held, ⟨List.mem_cons_self, by simp⟩, holds⟩
  | cons item rest ih =>
    obtain ⟨here, later⟩ := List.forall_mem_cons.mp told
    rw [List.foldl_cons]
    by_cases below : key held ≤ key item
    · obtain ⟨last, ⟨member, largest⟩, stored⟩ := ih (register.newer _ _ _ holds here below) later
      have least := largest item List.mem_cons_self
      refine ⟨last, ⟨List.mem_cons_of_mem _ member, ?_⟩, stored⟩
      exact List.forall_mem_cons.mpr ⟨Int.le_trans below least, largest⟩
    · rw [register.older _ _ _ holds here (by omega)]
      obtain ⟨last, ⟨member, largest⟩, stored⟩ := ih holds later
      have least := largest held List.mem_cons_self
      refine ⟨last, ⟨?_, ?_⟩, stored⟩
      · rcases List.mem_cons.mp member with rfl | inside
        · exact List.mem_cons_self
        · exact List.mem_cons_of_mem _ (List.mem_cons_of_mem _ inside)
      · refine List.forall_mem_cons.mpr ⟨least, List.forall_mem_cons.mpr ⟨by omega, ?_⟩⟩
        exact (List.forall_mem_cons.mp largest).2

end

end Tio.Core
