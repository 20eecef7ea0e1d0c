import Mathlib.Data.List.Basic

/-! Slices over shared backing arrays. An append may write behind the end of the slice
or move it to an array of its own; a removal in place shifts the cells of the array, and
with them what another slice over the same array sees. -/

namespace Tio.Core

universe u

structure Slice where
  array : Nat
  len : Nat
deriving DecidableEq

namespace Slice

variable {Item : Type u} {arrays : List (List Item)} {s other : Slice}

/-- The slice lies inside its array. -/
def Inside (arrays : List (List Item)) (s : Slice) : Prop :=
  ∃ array, arrays[s.array]? = some array ∧ s.len ≤ array.length

def items (arrays : List (List Item)) (s : Slice) : List Item :=
  ((arrays[s.array]?).getD []).take s.len

/-- The cell that an iteration over the slice reads at an index. -/
def cell (arrays : List (List Item)) (s : Slice) (i : Nat) : Option Item :=
  if i < s.len then (arrays[s.array]?).bind fun array => array[i]? else none

def append (fresh : Bool) (item : Item) (arrays : List (List Item)) (s : Slice) : List (List Item) × Slice :=
  if fresh then (arrays ++ [items arrays s ++ [item]], ⟨arrays.length, s.len + 1⟩)
  else (arrays.set s.array (items arrays s ++ [item] ++ ((arrays[s.array]?).getD []).drop (s.len + 1)),
    ⟨s.array, s.len + 1⟩)

/-- `append(s[:i], s[i+1:]...)` -/
def removeAt (i : Nat) (arrays : List (List Item)) (s : Slice) : List (List Item) × Slice :=
  (arrays.set s.array ((items arrays s).eraseIdx i ++ ((arrays[s.array]?).getD []).drop (s.len - 1)),
    ⟨s.array, s.len - 1⟩)

theorem cell_eq (arrays : List (List Item)) (s : Slice) (i : Nat) : cell arrays s i = (items arrays s)[i]? := by
  rw [cell, items, List.getElem?_take]
  split
  · cases arrays[s.array]? with
    | none => simp
    | some array => rfl
  · rfl

theorem lt_of_cell {i : Nat} {item : Item} (found : cell arrays s i = some item) : i < s.len := by
  by_contra past
  rw [cell, if_neg past] at found
  cases found

theorem length_items (inside : Inside arrays s) : (items arrays s).length = s.len := by
  obtain ⟨array, found, short⟩ := inside
  rw [items, found, Option.getD_some, List.length_take, Nat.min_eq_left short]

theorem Inside.lt (inside : Inside arrays s) : s.array < arrays.length := by
  obtain ⟨array, found, -⟩ := inside
  exact (List.getElem?_eq_some_iff.mp found).1

theorem items_of_front {front back : List Item} (found : arrays[s.array]? = some (front ++ back))
    (whole : front.length = s.len) : items arrays s = front := by
  rw [items, found, Option.getD_some, ← whole, List.take_left]

theorem items_append (inside : Inside arrays s) (fresh : Bool) (item : Item) :
    items (append fresh item arrays s).1 (append fresh item arrays s).2 = items arrays s ++ [item] := by
  have whole := length_items inside
  cases fresh with
  | true =>
    have found : (arrays ++ [items arrays s ++ [item]])[arrays.length]? = some (items arrays s ++ [item] ++ []) := by simp
    exact items_of_front found (by simp [append, whole])
  | false => exact items_of_front (List.getElem?_set_self inside.lt) (by simp [append, whole])

theorem inside_append (inside : Inside arrays s) (fresh : Bool) (item : Item) :
    Inside (append fresh item arrays s).1 (append fresh item arrays s).2 := by
  have whole := length_items inside
  cases fresh with
  | true => exact ⟨items arrays s ++ [item], by simp [append], by simp [append, whole]⟩
  | false => exact ⟨_, List.getElem?_set_self inside.lt, by simp [append, whole]⟩

/-- What lies in front of the end of the slice stays where it is. -/
theorem items_append_other (inside : Inside arrays s) (shorter : Inside arrays other)
    (front : other.array = s.array → other.len ≤ s.len) (fresh : Bool) (item : Item) :
    Inside (append fresh item arrays s).1 other ∧
      items (append fresh item arrays s).1 other = items arrays other := by
  obtain ⟨array, found, short⟩ := shorter
  cases fresh with
  | true =>
    have same : (arrays ++ [items arrays s ++ [item]])[other.array]? = some array := by
      rw [List.getElem?_append_left (List.getElem?_eq_some_iff.mp found).1, found]
    exact ⟨⟨array, same, short⟩, by rw [items, items, found]; exact congrArg _ (congrArg (Option.getD · []) same)⟩
  | false =>
    by_cases shared : other.array = s.array
    · have before := front shared
      have whole := length_items inside
      have held : arrays[s.array]? = some array := shared ▸ found
      refine ⟨⟨_, by rw [shared]; exact List.getElem?_set_self inside.lt, ?_⟩, ?_⟩
      · simp only [List.length_append, whole]
        omega
      · simp only [append, Bool.false_eq_true, ↓reduceIte]
        rw [items, shared, List.getElem?_set_self inside.lt, Option.getD_some, List.append_assoc,
          List.take_append_of_le_length (by omega), items, items, shared, List.take_take,
          Nat.min_eq_left before]
    · have same : (append false item arrays s).1[other.array]? = some array := by
        simp only [append, Bool.false_eq_true, ↓reduceIte]
        rw [List.getElem?_set_ne (Ne.symm shared), found]
      exact ⟨⟨array, same, short⟩, by rw [items, items, same, found]⟩

theorem inside_removeAt {i : Nat} (inside : Inside arrays s) (here : i < s.len) :
    Inside (removeAt i arrays s).1 (removeAt i arrays s).2 := by
  have whole := length_items inside
  refine ⟨_, List.getElem?_set_self inside.lt, ?_⟩
  simp only [removeAt, List.length_append, List.length_eraseIdx_of_lt (whole ▸ here : i < (items arrays s).length)]
  omega

theorem items_removeAt {i : Nat} (inside : Inside arrays s) (here : i < s.len) :
    items (removeAt i arrays s).1 (removeAt i arrays s).2 = (items arrays s).eraseIdx i := by
  have whole := length_items inside
  have less : ((items arrays s).eraseIdx i).length = s.len - 1 := by
    rw [List.length_eraseIdx_of_lt (by omega), whole]
  exact items_of_front (List.getElem?_set_self inside.lt) less

end Slice

end Tio.Core
