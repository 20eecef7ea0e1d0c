import Mathlib.Logic.Equiv.Basic
import Mathlib.Order.Basic

/-! The order of a binary heap that is kept in an array, as a property of the keys at its
positions, and what an exchange of two positions does to it. A sift keeps the order
everywhere but at one position, the hole. -/

namespace Tio.Core.Heap

def parent (k : Nat) : Nat := (k - 1) / 2

theorem parent_lt {k : Nat} (inner : 0 < k) : parent k < k := by
  rw [parent]
  omega

theorem parent_eq_iff {i k : Nat} (inner : 0 < k) : parent k = i ↔ k = 2 * i + 1 ∨ k = 2 * i + 2 := by
  rw [parent]
  omega

section

variable {κ : Type*} {i j : Nat} {f : Nat → κ}

/-- The keys after an exchange of two positions. -/
def exchange (i j : Nat) (f : Nat → κ) : Nat → κ := f ∘ Equiv.swap i j

@[simp] theorem exchange_left : exchange i j f i = f j := congrArg f (Equiv.swap_apply_left i j)

@[simp] theorem exchange_right : exchange i j f j = f i := congrArg f (Equiv.swap_apply_right i j)

theorem exchange_of_ne {k : Nat} (apart : k ≠ i) (apart' : k ≠ j) : exchange i j f k = f k :=
  congrArg f (Equiv.swap_apply_of_ne_of_ne apart apart')

end

section

variable {κ : Type*} [Preorder κ]

/-- No key before position `n` is below the key of its parent. -/
def Ordered (n : Nat) (f : Nat → κ) : Prop := ∀ k, 0 < k → k < n → f (parent k) ≤ f k

/-- The order holds but at position `i`, and the parent of the position is not above its
children. -/
structure Hole (n i : Nat) (f : Nat → κ) : Prop where
  off : ∀ k, 0 < k → k < n → k ≠ i → parent k ≠ i → f (parent k) ≤ f k
  around : ∀ k, 0 < k → k < n → parent k = i → 0 < i → f (parent i) ≤ f k

def Above (i : Nat) (f : Nat → κ) : Prop := 0 < i → f (parent i) ≤ f i

def Below (n i : Nat) (f : Nat → κ) : Prop := ∀ k, 0 < k → k < n → parent k = i → f i ≤ f k

variable {n i j : Nat} {f g : Nat → κ}

theorem Hole.ordered (hole : Hole n i f) (above : Above i f) (below : Below n i f) : Ordered n f := by
  intro k inner inside
  by_cases here : k = i
  · subst here
    exact above inner
  · by_cases child : parent k = i
    · rw [child]
      exact below k inner inside child
    · exact hole.off k inner inside here child

theorem Ordered.hole (ordered : Ordered n f) (near : i < n) : Hole n i f := by
  constructor
  · intro k inner inside _ _
    exact ordered k inner inside
  · intro k inner inside child positive
    have up := ordered k inner inside
    rw [child] at up
    exact le_trans (ordered i positive near) up

/-- No key is below the one at the root. -/
theorem Ordered.root_le (ordered : Ordered n f) (k : Nat) (inside : k < n) : f 0 ≤ f k := by
  induction k using Nat.strongRecOn with
  | ind k ih =>
    rcases Nat.eq_zero_or_pos k with rfl | inner
    · exact le_refl _
    · have smaller := parent_lt inner
      exact le_trans (ih (parent k) smaller (Nat.lt_trans smaller inside)) (ordered k inner inside)

/-- The keys agree before position `n`. -/
theorem Ordered.congr (ordered : Ordered n f) (same : ∀ k, k < n → g k = f k) : Ordered n g := by
  intro k inner inside
  rw [same k inside, same _ (Nat.lt_trans (parent_lt inner) inside)]
  exact ordered k inner inside

theorem Ordered.mono {m : Nat} (ordered : Ordered n f) (fewer : m ≤ n) : Ordered m f :=
  fun k inner inside => ordered k inner (Nat.lt_of_lt_of_le inside fewer)

/-- The other child of the parent of the hole. -/
theorem Hole.sibling {k : Nat} (hole : Hole n j f) (positive : 0 < k) (inside : k < n) (inner : 0 < j) (here : k ≠ j)
    (same : parent k = parent j) : f (parent j) ≤ f k ∧ k ≠ parent j := by
  have aside := hole.off k positive inside here (by rw [same]; exact Nat.ne_of_lt (parent_lt inner))
  have above := parent_lt positive
  rw [same] at aside above
  exact ⟨aside, Nat.ne_of_gt above⟩

/-- A key below that of its parent goes up. -/
theorem Hole.up (hole : Hole n j f) (below : Below n j f) (inner : 0 < j) (near : j < n)
    (less : f j < f (parent j)) :
    Hole n (parent j) (exchange (parent j) j f) ∧ Below n (parent j) (exchange (parent j) j f) := by
  have smaller := parent_lt inner
  have upward : Above (parent j) f := fun positive =>
    hole.off (parent j) positive (Nat.lt_trans smaller near) (Nat.ne_of_lt smaller)
      (Nat.ne_of_lt (Nat.lt_trans (parent_lt positive) smaller))
  refine ⟨⟨?_, ?_⟩, ?_⟩
  · intro k positive inside apart apart'
    by_cases here : k = j
    · exact absurd (congrArg parent here) apart'
    · rw [exchange_of_ne apart here]
      by_cases child : parent k = j
      · rw [child, exchange_right]
        exact hole.around k positive inside child inner
      · rw [exchange_of_ne apart' child]
        exact hole.off k positive inside here child
  · intro k positive inside sibling high
    have highest := parent_lt high
    rw [exchange_of_ne (Nat.ne_of_lt highest) (Nat.ne_of_lt (Nat.lt_trans highest smaller))]
    by_cases here : k = j
    · subst here
      rw [exchange_right]
      exact upward high
    · obtain ⟨aside, apart⟩ := hole.sibling positive inside inner here sibling
      rw [exchange_of_ne apart here]
      exact le_trans (upward high) aside
  · intro k positive inside sibling
    rw [exchange_left]
    by_cases here : k = j
    · subst here
      rw [exchange_right]
      exact le_of_lt less
    · obtain ⟨aside, apart⟩ := hole.sibling positive inside inner here sibling
      rw [exchange_of_ne apart here]
      exact le_trans (le_of_lt less) aside

/-- A key above that of its least child goes down. -/
theorem Hole.down (hole : Hole n i f) (inner : 0 < j) (near : j < n) (child : parent j = i)
    (least : ∀ k, 0 < k → k < n → parent k = i → f j ≤ f k) (less : f j < f i) :
    Hole n j (exchange i j f) ∧ Above j (exchange i j f) := by
  have smaller : i < j := by
    rw [← child]
    exact parent_lt inner
  refine ⟨⟨?_, ?_⟩, ?_⟩
  · intro k positive inside apart apart'
    by_cases here : k = i
    · subst here
      have highest := parent_lt positive
      rw [exchange_left, exchange_of_ne (Nat.ne_of_lt highest) apart']
      exact hole.around j inner near child positive
    · rw [exchange_of_ne here apart]
      by_cases sibling : parent k = i
      · rw [sibling, exchange_left]
        exact least k positive inside sibling
      · rw [exchange_of_ne sibling apart']
        exact hole.off k positive inside here sibling
  · intro k positive inside grandchild _
    have deeper := parent_lt positive
    rw [grandchild] at deeper
    rw [child, exchange_left, exchange_of_ne (Nat.ne_of_gt (Nat.lt_trans smaller deeper)) (Nat.ne_of_gt deeper)]
    have between := hole.off k positive inside (Nat.ne_of_gt (Nat.lt_trans smaller deeper))
      (by rw [grandchild]; exact Nat.ne_of_gt smaller)
    rwa [grandchild] at between
  · intro _
    rw [child, exchange_left, exchange_right]
    exact le_of_lt less

/-- A new last position is a hole without children. -/
theorem Ordered.hole_last (ordered : Ordered n f) : Hole (n + 1) n f ∧ Below (n + 1) n f := by
  have childless : ∀ k, 0 < k → k < n + 1 → parent k ≠ n := fun k inner inside =>
    Nat.ne_of_lt (Nat.lt_of_lt_of_le (parent_lt inner) (Nat.le_of_lt_succ inside))
  refine ⟨⟨?_, ?_⟩, ?_⟩
  · intro k inner inside apart _
    exact ordered k inner (Nat.lt_of_le_of_ne (Nat.le_of_lt_succ inside) apart)
  · intro k inner inside child _
    exact absurd child (childless k inner inside)
  · intro k inner inside child
    exact absurd child (childless k inner inside)

/-- A key that comes from position `j` leaves a hole among the positions before `j`. -/
theorem Ordered.exchange_hole (ordered : Ordered n f) (near : i < n) (fewer : j < n) :
    Hole j i (exchange i j f) := by
  have same : ∀ k, k < j → k ≠ i → exchange i j f k = f k :=
    fun k inside apart => exchange_of_ne apart (Nat.ne_of_lt inside)
  have whole := ordered.hole near
  constructor
  · intro k inner inside apart apart'
    rw [same k inside apart, same _ (Nat.lt_trans (parent_lt inner) inside) apart']
    exact ordered k inner (Nat.lt_trans inside fewer)
  · intro k inner inside child positive
    have deeper := parent_lt inner
    rw [child] at deeper
    have before : i < j := Nat.lt_trans deeper inside
    rw [same k inside (Nat.ne_of_gt deeper), same _ (Nat.lt_trans (parent_lt positive) before)
      (Nat.ne_of_lt (parent_lt positive))]
    exact whole.around k inner (Nat.lt_trans inside fewer) child positive

end

end Tio.Core.Heap
