import Mathlib.Algebra.Order.Group.Defs
import Tio.Core.Tally

/-! A rate limit in every window of a given width, over a log of counts and the moments at
which they were handed over. The one who hands over looks at a record whose moments may be
later than those of the log, and looks at it before the hand-over. -/

namespace Tio.Core.Window

section

variable {Time : Type*} [LinearOrder Time]

/-- What was counted from a moment on. -/
def since (a : Time) (log : List (Time × Nat)) : Nat := tally (fun e => if a ≤ e.1 then e.2 else 0) log

/-- What was counted after a moment. -/
def after (a : Time) (log : List (Time × Nat)) : Nat := tally (fun e => if a < e.1 then e.2 else 0) log

/-- The record counts no less than the log, from any moment on. -/
def Dominated (log record : List (Time × Nat)) : Prop := ∀ a, since a log ≤ since a record

theorem since_concat (a h : Time) (n : Nat) (log : List (Time × Nat)) :
    since a (log ++ [(h, n)]) = since a log + if a ≤ h then n else 0 := by
  rw [since, tally_append]
  rfl

theorem since_le_after {a b : Time} (earlier : b < a) (log : List (Time × Nat)) : since a log ≤ after b log := by
  refine tally_mono fun e _ => ?_
  split
  · rename_i inside
    rw [if_pos (lt_of_lt_of_le earlier inside)]
  · exact Nat.zero_le _

theorem dominated_nil (record : List (Time × Nat)) : Dominated [] record := fun _ => Nat.zero_le _

/-- A hand-over that is recorded later is counted by the record. -/
theorem Dominated.concat {log record : List (Time × Nat)} {h r : Time} (dominated : Dominated log record)
    (later : h ≤ r) (n : Nat) : Dominated (log ++ [(h, n)]) (record ++ [(r, n)]) := by
  intro a
  rw [since_concat, since_concat]
  refine Nat.add_le_add (dominated a) ?_
  by_cases inside : a ≤ h
  · rw [if_pos inside, if_pos (le_trans inside later)]
  · rw [if_neg inside]
    exact Nat.zero_le _

end

section

variable {Time : Type*} [AddCommGroup Time] [LinearOrder Time]

/-- What was counted in the window that begins at a moment; its end does not belong to it. -/
def within (width a : Time) (log : List (Time × Nat)) : Nat :=
  tally (fun e => if a ≤ e.1 ∧ e.1 < a + width then e.2 else 0) log

/-- No window holds more than the limit. -/
def Limited (width : Time) (limit : Nat) (log : List (Time × Nat)) : Prop := ∀ a, within width a log ≤ limit

variable {width : Time} {limit : Nat} {log record : List (Time × Nat)}

theorem within_concat (width a h : Time) (n : Nat) (log : List (Time × Nat)) :
    within width a (log ++ [(h, n)]) = within width a log + if a ≤ h ∧ h < a + width then n else 0 := by
  rw [within, tally_append]
  rfl

theorem within_le_since (width a : Time) (log : List (Time × Nat)) : within width a log ≤ since a log := by
  refine tally_mono fun e _ => ?_
  split
  · rename_i inside
    rw [if_pos inside.1]
  · exact Nat.zero_le _

theorem limited_nil (width : Time) (limit : Nat) : Limited width limit [] := fun _ => Nat.zero_le limit

/-- Handing over keeps the limit, when the record had room for it at an earlier moment. -/
theorem Limited.concat [IsOrderedAddMonoid Time] {p h : Time} {n : Nat} (limited : Limited width limit log)
    (dominated : Dominated log record) (looked : p ≤ h) (room : after (p - width) record + n ≤ limit) :
    Limited width limit (log ++ [(h, n)]) := by
  intro a
  rw [within_concat]
  split
  · rename_i inside
    -- the record still holds everything that the window held before
    have early : p - width < a := by
      rw [sub_lt_iff_lt_add]
      exact lt_of_le_of_lt looked inside.2
    calc within width a log + n ≤ since a log + n := Nat.add_le_add_right (within_le_since width a log) n
      _ ≤ since a record + n := Nat.add_le_add_right (dominated a) n
      _ ≤ after (p - width) record + n := Nat.add_le_add_right (since_le_after early record) n
      _ ≤ limit := room
  · exact limited a

/-- Handing over nothing keeps any limit. -/
theorem Limited.concat_zero (limited : Limited width limit log) (h : Time) :
    Limited width limit (log ++ [(h, 0)]) := by
  intro a
  rw [within_concat, ite_self]
  exact limited a

end

end Tio.Core.Window
