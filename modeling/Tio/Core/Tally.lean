import Mathlib.Data.List.Nodup
import Mathlib.Data.List.Perm.Subperm

/-! The weight of a list, item by item. A bound on it that every operation keeps
says that no item is there twice. -/

namespace Tio.Core

universe u

variable {Item : Type u}

def tally (weight : Item → Nat) : List Item → Nat
  | [] => 0
  | item :: rest => weight item + tally weight rest

variable {weight : Item → Nat}

@[simp] theorem tally_nil : tally weight [] = 0 := rfl

@[simp] theorem tally_cons (item : Item) (rest : List Item) :
    tally weight (item :: rest) = weight item + tally weight rest := rfl

@[simp] theorem tally_append (first second : List Item) :
    tally weight (first ++ second) = tally weight first + tally weight second := by
  induction first with
  | nil => simp
  | cons item rest ih =>
    rw [List.cons_append, tally_cons, tally_cons, ih]
    omega

theorem tally_perm (weight : Item → Nat) {first second : List Item} (perm : first.Perm second) :
    tally weight first = tally weight second := by
  induction perm with
  | nil => rfl
  | cons item _ ih => rw [tally_cons, tally_cons, ih]
  | swap item other rest =>
    simp only [tally_cons]
    omega
  | trans _ _ ih ih' => exact ih.trans ih'

theorem tally_mono {other : Item → Nat} {items : List Item} (less : ∀ item ∈ items, weight item ≤ other item) :
    tally weight items ≤ tally other items := by
  induction items with
  | nil => exact Nat.le_refl 0
  | cons item rest ih =>
    have here := less item List.mem_cons_self
    have later := ih fun item member => less item (List.mem_cons_of_mem _ member)
    simp only [tally_cons]
    omega

theorem tally_sublist {first second : List Item} (fewer : first.Sublist second) :
    tally weight first ≤ tally weight second := by
  induction fewer with
  | slnil => exact Nat.le_refl 0
  | cons item _ ih =>
    rw [tally_cons]
    omega
  | cons_cons item _ ih =>
    simp only [tally_cons]
    omega

theorem tally_eq_zero_iff {items : List Item} : tally weight items = 0 ↔ ∀ item ∈ items, weight item = 0 := by
  induction items with
  | nil => simp
  | cons item rest ih => simp [ih]

theorem le_tally (weight : Item → Nat) {items : List Item} {item : Item} (member : item ∈ items) :
    weight item ≤ tally weight items := by
  obtain ⟨before, after, rfl⟩ := List.append_of_mem member
  simp only [tally_append, tally_cons]
  omega

theorem tally_set (weight : Item → Nat) {items : List Item} {i : Nat} {old : Item} (found : items[i]? = some old) (item : Item) :
    tally weight (items.set i item) + weight old = tally weight items + weight item := by
  induction items generalizing i with
  | nil => cases found
  | cons head rest ih =>
    cases i with
    | zero =>
      cases found
      simp only [List.set_cons_zero, tally_cons]
      omega
    | succ i =>
      have later := ih (i := i) (by simpa using found)
      simp only [List.set_cons_succ, tally_cons]
      omega

theorem tally_eraseIdx (weight : Item → Nat) {items : List Item} {i : Nat} {old : Item} (found : items[i]? = some old) :
    tally weight (items.eraseIdx i) + weight old = tally weight items := by
  induction items generalizing i with
  | nil => cases found
  | cons head rest ih =>
    cases i with
    | zero =>
      cases found
      simp only [List.eraseIdx_cons_zero, tally_cons]
      omega
    | succ i =>
      have later := ih (i := i) (by simpa using found)
      simp only [List.eraseIdx_cons_succ, tally_cons]
      omega

theorem tally_map {Source : Type u} (make : Source → Item) (sources : List Source) :
    tally weight (sources.map make) = tally (fun source => weight (make source)) sources := by
  induction sources with
  | nil => rfl
  | cons source rest ih => rw [List.map_cons, tally_cons, tally_cons, ih]

/-- Distinct items of a list weigh no more than the list. -/
theorem tally_subset (weight : Item → Nat) {first second : List Item} (distinct : first.Nodup)
    (among : first ⊆ second) :
    tally weight first ≤ tally weight second := by
  obtain ⟨middle, perm, sublist⟩ := List.subperm_of_subset distinct among
  rw [← tally_perm weight perm]
  exact tally_sublist sublist

theorem tally_eq_count [DecidableEq Item] (item : Item) (items : List Item) :
    tally (fun other => if other = item then 1 else 0) items = items.count item := by
  induction items with
  | nil => rfl
  | cons head rest ih =>
    rw [tally_cons, ih, List.count_cons]
    by_cases same : head = item
    · simp [same, Nat.add_comm]
    · simp [same]

theorem nodup_iff_tally [DecidableEq Item] {items : List Item} :
    items.Nodup ↔ ∀ item, tally (fun other => if other = item then 1 else 0) items ≤ 1 := by
  simp only [tally_eq_count, List.nodup_iff_count_le_one]

/-- What weighs one in a list that weighs at most one stands at one place. -/
theorem tally_unique (weight : Item → Nat) {items : List Item} {i j : Nat} {item other : Item}
    (single : tally weight items ≤ 1) (found : items[i]? = some item) (found' : items[j]? = some other) (weighs : 0 < weight item)
    (weighs' : 0 < weight other) : i = j := by
  refine Decidable.byContradiction fun apart => ?_
  have left := tally_eraseIdx weight found
  obtain ⟨k, still⟩ : ∃ k, (items.eraseIdx i)[k]? = some other := by
    rw [← List.mem_iff_getElem?, List.mem_eraseIdx_iff_getElem?]
    exact ⟨j, Ne.symm apart, found'⟩
  have other_there := le_tally weight (List.mem_of_getElem? still)
  omega

end Tio.Core
