import Mathlib.Data.Set.Basic
import Mathlib.Logic.Function.Iterate

namespace Tio.Core

universe u

variable {Party : Type u}

/-- Some parties that each wait for one among them. -/
def CircularWait (awaits : Party → Option Party) : Prop :=
  ∃ members : Set Party, members.Nonempty ∧ ∀ p ∈ members, ∃ q ∈ members, awaits p = some q

/-- When every wait is for the next party, what waits in a circle waits along
the whole ring behind any of its members. -/
theorem CircularWait.iterate {awaits : Party → Option Party} {next : Party → Party}
    (along : ∀ p q, awaits p = some q → q = next p) {members : Set Party}
    (circular : ∀ p ∈ members, ∃ q ∈ members, awaits p = some q) {p : Party}
    (member : p ∈ members) (n : Nat) : next^[n] p ∈ members := by
  induction n generalizing p with
  | zero => exact member
  | succ n ih =>
    obtain ⟨q, among, waiting⟩ := circular p member
    rw [Function.iterate_succ_apply, ← along p q waiting]
    exact ih among

/-- In a ring a circular wait is one of all parties. -/
theorem circularWait_iff_ring [Nonempty Party] {awaits : Party → Option Party}
    {next : Party → Party} (along : ∀ p q, awaits p = some q → q = next p)
    (ring : ∀ p q, ∃ n, next^[n] p = q) :
    CircularWait awaits ↔ ∀ p, (awaits p).isSome := by
  constructor
  · rintro ⟨members, ⟨p, member⟩, circular⟩ q
    obtain ⟨n, rfl⟩ := ring p q
    obtain ⟨r, -, waiting⟩ := circular _ (CircularWait.iterate along circular member n)
    simp [waiting]
  · intro every
    refine ⟨Set.univ, Set.univ_nonempty, fun p _ => ?_⟩
    obtain ⟨q, waiting⟩ := Option.isSome_iff_exists.mp (every p)
    exact ⟨q, Set.mem_univ q, waiting⟩

end Tio.Core
