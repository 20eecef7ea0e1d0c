/-! A list read page by page. The pages are numbered from 0, and what lies behind the
last item is empty. -/

namespace Tio.Core

universe u

variable {Item : Type u}

def page (size index : Nat) (items : List Item) : List Item :=
  (items.drop (index * size)).take size

/-- The first `count` pages, one behind the other. -/
def pages (size : Nat) (items : List Item) : Nat → List Item
  | 0 => []
  | count + 1 => pages size items count ++ page size count items

theorem page_map {Other : Type u} (f : Item → Other) (size index : Nat) (items : List Item) :
    page size index (items.map f) = (page size index items).map f := by
  rw [page, page, ← List.map_drop, ← List.map_take]

theorem pages_eq_take (size : Nat) (items : List Item) (count : Nat) :
    pages size items count = items.take (count * size) := by
  induction count with
  | zero => simp [pages]
  | succ count ih => rw [pages, ih, page, Nat.succ_mul, List.take_add]

/-- The pages keep the order, and read no item twice. -/
theorem pages_sublist (size : Nat) (items : List Item) (count : Nat) :
    (pages size items count).Sublist items := by
  rw [pages_eq_take]
  exact List.take_sublist _ _

/-- Enough pages hold every item. -/
theorem pages_of_le {size count : Nat} {items : List Item} (enough : items.length ≤ count * size) :
    pages size items count = items := by
  rw [pages_eq_take]
  exact List.take_of_length_le enough

/-- Before the last page every page is full. -/
theorem length_pages_of_le {size count : Nat} {items : List Item} (more : count * size ≤ items.length) :
    (pages size items count).length = count * size := by
  rw [pages_eq_take, List.length_take]
  exact Nat.min_eq_left more

/-- An item that no page before this one reached is on it, or behind it. -/
theorem mem_page_or_behind {wanted : Item → Bool} {size index : Nat} {items : List Item}
    (listed : items.findIdx wanted < items.length) (behind : index * size ≤ items.findIdx wanted) :
    (∃ item ∈ page size index items, wanted item = true) ∨ (index + 1) * size ≤ items.findIdx wanted := by
  rw [Nat.succ_mul]
  by_cases here : items.findIdx wanted < index * size + size
  · left
    refine ⟨items[items.findIdx wanted], ?_, List.findIdx_getElem⟩
    have place : ((items.drop (index * size)).take size)[items.findIdx wanted - index * size]? =
        some items[items.findIdx wanted] := by
      rw [List.getElem?_take_of_lt (by omega), List.getElem?_drop, Nat.add_sub_cancel' behind,
        List.getElem?_eq_getElem listed]
    exact List.mem_of_getElem? place
  · right
    omega

end Tio.Core
