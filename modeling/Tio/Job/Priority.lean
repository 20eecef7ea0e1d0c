import Mathlib.Data.Prod.Lex
import Mathlib.Order.WithBot
import Tio.Core.Heap
import Tio.Job.Queue

namespace Tio.Job

open Tio.Core Tio.Core.Heap

/-- The keys that the comparison of tasks compares. -/
def rank (t : Task) : Natᵒᵈ ×ₗ Int := toLex (.toDual (taskStatusPriority t.status), t.createdAt)

theorem taskLess_iff (t u : Task) : taskLess t u = true ↔ rank t < rank u := by
  rw [taskLess, rank, rank, Prod.Lex.toLex_lt_toLex]
  by_cases same : taskStatusPriority t.status = taskStatusPriority u.status
  · simp [same]
  · simp [same]

theorem taskLess_eq_false_iff (t u : Task) : taskLess t u = false ↔ rank u ≤ rank t := by
  rw [← Bool.not_eq_true, taskLess_iff, not_lt]

/-- The order of the keys, with one key above them all. -/
instance rankOrder : Preorder (WithTop (Natᵒᵈ ×ₗ Int)) :=
  (inferInstance : LinearOrder (WithTop (Natᵒᵈ ×ₗ Int))).toPreorder

namespace TaskQueue

/-- The key at a position; behind the queue it is above all others. -/
def rankAt (q : TaskQueue) (k : Nat) : WithTop (Natᵒᵈ ×ₗ Int) :=
  match q[k]? with
  | some item => rank item.task
  | none => ⊤

/-- No task comes before the one at the parent of its position. -/
def IsHeap (q : TaskQueue) : Prop :=
  ∀ k above item, 0 < k → q[(k - 1) / 2]? = some above → q[k]? = some item →
    taskLess item.task above.task = false

section

variable {q : TaskQueue} {i j k n fuel : Nat}

theorem rankAt_of_some {item : TaskItem} (found : q[k]? = some item) : rankAt q k = rank item.task := by
  rw [rankAt, found]

theorem exists_item (inside : k < q.length) : ∃ item, q[k]? = some item :=
  ⟨_, List.getElem?_eq_getElem inside⟩

theorem isHeap_iff : IsHeap q ↔ Ordered q.length (rankAt q) := by
  constructor
  · intro heap k inner inside
    obtain ⟨item, found⟩ := exists_item inside
    obtain ⟨above, higher⟩ := exists_item (Nat.lt_trans (parent_lt inner) inside)
    rw [rankAt_of_some found, rankAt_of_some higher, WithTop.coe_le_coe, ← taskLess_eq_false_iff]
    exact heap k above item inner higher found
  · intro ordered k above item inner higher found
    have inside : k < q.length := (List.getElem?_eq_some_iff.mp found).1
    have up := ordered k inner inside
    rw [parent, rankAt_of_some found, rankAt_of_some higher, WithTop.coe_le_coe] at up
    exact (taskLess_eq_false_iff item.task above.task).mpr up

theorem less_iff (near : i < q.length) (near' : j < q.length) : less q i j = true ↔ rankAt q i < rankAt q j := by
  obtain ⟨a, first⟩ := exists_item near
  obtain ⟨b, second⟩ := exists_item near'
  rw [rankAt_of_some first, rankAt_of_some second, WithTop.coe_lt_coe, ← taskLess_iff]
  simp only [less, first, second]

theorem rankAt_swap (near : i < q.length) (near' : j < q.length) :
    rankAt (swap i j q) = exchange i j (rankAt q) := by
  obtain ⟨a, first⟩ := exists_item near
  obtain ⟨b, second⟩ := exists_item near'
  funext k
  by_cases right : k = j
  · subst right
    rw [exchange_right, rankAt_of_some (getElem?_swap_right first second), rankAt_of_some first]
  · by_cases left : k = i
    · subst left
      have moved : (swap k j q)[k]? = some { b with index := k } := by
        simp only [swap, first, second]
        rw [List.getElem?_set_ne (Ne.symm right), List.getElem?_set_self near]
      rw [exchange_left, rankAt_of_some moved, rankAt_of_some second]
    · rw [exchange_of_ne left right, rankAt, rankAt, getElem?_swap left right]

theorem up_root (fuel : Nat) (q : TaskQueue) : up fuel 0 q = q := by
  cases fuel with
  | zero => rfl
  | succ fuel => simp [up]

/-- What one step up does. -/
theorem up_step (inner : 0 < j) (fuel : Nat) (q : TaskQueue) : up (fuel + 1) j q =
    if less q j (parent j) then up fuel (parent j) (swap (parent j) j q) else q := by
  have apart : (j - 1) / 2 ≠ j := Nat.ne_of_lt (parent_lt inner)
  rw [up, parent]
  cases less q j ((j - 1) / 2) <;> simp [apart]

/-- Going up from a hole restores the order. -/
theorem up_ordered (hole : Hole n j (rankAt q)) (below : Below n j (rankAt q)) (near : j < n) (within : n ≤ q.length)
    (enough : j ≤ fuel) : Ordered n (rankAt (up fuel j q)) := by
  induction fuel generalizing j q with
  | zero =>
    rw [up]
    exact hole.ordered (fun inner => absurd inner (Nat.not_lt.mpr enough)) below
  | succ fuel ih =>
    rcases Nat.eq_zero_or_pos j with rfl | inner
    · rw [up_root]
      exact hole.ordered (fun no => absurd no (Nat.lt_irrefl 0)) below
    · have inside : j < q.length := Nat.lt_of_lt_of_le near within
      have smaller := parent_lt inner
      rw [up_step inner]
      split
      · rename_i less
        have moved := hole.up below inner near ((less_iff inside (Nat.lt_trans smaller inside)).mp less)
        rw [← rankAt_swap (Nat.lt_trans smaller inside) inside] at moved
        refine ih moved.1 moved.2 (Nat.lt_trans smaller near) ?_ ?_
        · rw [length_swap]
          exact within
        · exact Nat.le_of_lt_succ (Nat.lt_of_lt_of_le smaller enough)
      · rename_i stays
        rw [less_iff inside (Nat.lt_trans smaller inside), not_lt] at stays
        exact hole.ordered (fun _ => stays) below

/-- Position `j` is the child of `i` that comes first, among the positions before `n`. -/
structure FirstChild (n i j : Nat) (q : TaskQueue) : Prop where
  inner : 0 < j
  near : j < n
  child : parent j = i
  least : ∀ k, 0 < k → k < n → parent k = i → rankAt q j ≤ rankAt q k

theorem firstChild_chosen (inside : 2 * i + 1 < n) (within : n ≤ q.length) :
    FirstChild n i (if 2 * i + 1 + 1 < n && less q (2 * i + 1 + 1) (2 * i + 1) then 2 * i + 1 + 1
      else 2 * i + 1) q := by
  have left : parent (2 * i + 1) = i := (parent_eq_iff (Nat.succ_pos _)).mpr (.inl rfl)
  have right : parent (2 * i + 1 + 1) = i := (parent_eq_iff (Nat.succ_pos _)).mpr (.inr rfl)
  split
  · rename_i chosen
    rw [Bool.and_eq_true, decide_eq_true_eq] at chosen
    obtain ⟨near, less⟩ := chosen
    rw [less_iff (Nat.lt_of_lt_of_le near within) (Nat.lt_of_lt_of_le inside within)] at less
    refine ⟨Nat.succ_pos _, near, right, fun k inner _ child => ?_⟩
    rcases (parent_eq_iff inner).mp child with rfl | rfl
    · exact le_of_lt less
    · exact le_refl _
  · rename_i chosen
    refine ⟨Nat.succ_pos _, inside, left, fun k inner near child => ?_⟩
    rcases (parent_eq_iff inner).mp child with rfl | rfl
    · exact le_refl _
    · rw [Bool.and_eq_true, decide_eq_true_eq, not_and] at chosen
      have other := chosen near
      rwa [less_iff (Nat.lt_of_lt_of_le near within) (Nat.lt_of_lt_of_le inside within), not_lt] at other

/-- What one step down does. -/
theorem down_step (fuel i n : Nat) (within : n ≤ q.length) :
    (down (fuel + 1) i n q = (q, i) ∧ Below n i (rankAt q)) ∨
      ∃ j, FirstChild n i j q ∧ rankAt q j < rankAt q i ∧ down (fuel + 1) i n q = down fuel j n (swap i j q) := by
  rw [down]
  by_cases leaf : n ≤ 2 * i + 1
  · refine .inl ⟨if_pos leaf, fun k inner near child => ?_⟩
    rcases (parent_eq_iff inner).mp child with rfl | rfl <;> omega
  · have inside : 2 * i + 1 < n := Nat.lt_of_not_le leaf
    have first := firstChild_chosen (q := q) inside within
    dsimp only
    rw [if_neg leaf]
    generalize (if 2 * i + 1 + 1 < n && less q (2 * i + 1 + 1) (2 * i + 1) then 2 * i + 1 + 1
      else 2 * i + 1) = j at first
    have near : j < q.length := Nat.lt_of_lt_of_le first.near within
    have reach := less_iff near (Nat.lt_of_lt_of_le (first.child ▸ parent_lt first.inner) (Nat.le_of_lt near))
    cases tested : less q j i with
    | false =>
      refine .inl ⟨rfl, fun k inner inside child => ?_⟩
      rw [tested] at reach
      exact le_trans (not_lt.mp (reach.not.mp Bool.false_ne_true)) (first.least k inner inside child)
    | true => exact .inr ⟨j, first, reach.mp tested, rfl⟩

/-- Going down from a hole whose key is not below that of the parent restores the order. -/
theorem down_ordered (fuel : Nat) (hole : Hole n i (rankAt q)) (above : Above i (rankAt q)) (within : n ≤ q.length)
    (enough : n ≤ i + fuel) : Ordered n (rankAt (down fuel i n q).1) ∧ i ≤ (down fuel i n q).2 := by
  induction fuel generalizing i q with
  | zero =>
    refine ⟨hole.ordered above fun k inner near child => ?_, Nat.le_refl _⟩
    have deeper := parent_lt inner
    omega
  | succ fuel ih =>
    rcases down_step fuel i n within with ⟨stays, below⟩ | ⟨j, first, less, moves⟩
    · rw [stays]
      exact ⟨hole.ordered above below, Nat.le_refl _⟩
    · have deeper : i < j := first.child ▸ parent_lt first.inner
      have near : j < q.length := Nat.lt_of_lt_of_le first.near within
      have moved := hole.down first.inner first.near first.child first.least less
      rw [← rankAt_swap (Nat.lt_trans deeper near) near] at moved
      rw [moves]
      obtain ⟨ordered, further⟩ := ih moved.1 moved.2 (by rw [length_swap]; exact within) (by omega)
      exact ⟨ordered, Nat.le_trans (Nat.le_of_lt deeper) further⟩

/-- From any hole, going down either leaves the queue or restores the order. -/
theorem down_hole (fuel : Nat) (hole : Hole n i (rankAt q)) (within : n ≤ q.length) (enough : n ≤ i + fuel) :
    down fuel i n q = (q, i) ∧ Below n i (rankAt q) ∨
      i < (down fuel i n q).2 ∧ Ordered n (rankAt (down fuel i n q).1) := by
  cases fuel with
  | zero =>
    refine .inl ⟨rfl, fun k inner near child => ?_⟩
    have deeper := parent_lt inner
    omega
  | succ fuel =>
    rcases down_step fuel i n within with stays | ⟨j, first, less, moves⟩
    · exact .inl stays
    · have deeper : i < j := first.child ▸ parent_lt first.inner
      have near : j < q.length := Nat.lt_of_lt_of_le first.near within
      have moved := hole.down first.inner first.near first.child first.least less
      rw [← rankAt_swap (Nat.lt_trans deeper near) near] at moved
      rw [moves]
      obtain ⟨ordered, further⟩ := down_ordered fuel moved.1 moved.2
        (by rw [length_swap]; exact within) (by omega)
      exact .inr ⟨Nat.lt_of_lt_of_le deeper further, ordered⟩

theorem rankAt_dropLast (inside : k < q.length - 1) : rankAt q.dropLast k = rankAt q k := by
  rw [rankAt, rankAt, List.getElem?_dropLast, if_pos inside]

theorem isHeap_dropLast (ordered : Ordered (q.length - 1) (rankAt q)) : IsHeap q.dropLast := by
  rw [isHeap_iff, List.length_dropLast]
  exact ordered.congr fun k inside => rankAt_dropLast inside

theorem isHeap_push (heap : IsHeap q) (t : Task) : IsHeap (push t q) := by
  have same : ∀ k, k < q.length → rankAt (q ++ [⟨t, q.length⟩]) k = rankAt q k := fun k inside => by
    rw [rankAt, rankAt, List.getElem?_append_left inside]
  have size : (q ++ [(⟨t, q.length⟩ : TaskItem)]).length = q.length + 1 := List.length_append
  obtain ⟨hole, below⟩ := ((isHeap_iff.mp heap).congr same).hole_last
  have raised := up_ordered hole below (Nat.lt_succ_self _) (Nat.le_of_eq size.symm) (Nat.le_succ q.length)
  rw [isHeap_iff, push]
  rwa [(rearranged_up (q.length + 1) q.length _ (Nat.lt_succ_self q.length)).length, size]

theorem getLast?_popLast (item : TaskItem) {arranged : TaskQueue} (last : arranged[arranged.length - 1]? = some item) :
    popLast arranged = some (item.task, arranged.dropLast) := by
  rw [popLast, List.getLast?_eq_getElem?, last]

/-- The first item goes to the end, and the last one goes down in its place. -/
theorem pop_top {item : TaskItem} (heap : IsHeap q) (top : q[0]? = some item) :
    ∃ rest, pop q = some (item.task, rest) ∧ IsHeap rest := by
  have full : 0 < q.length := (List.getElem?_eq_some_iff.mp top).1
  have last : q.length - 1 < q.length := Nat.sub_one_lt_of_lt full
  have moved := rearranged_down q.length 0 (q.length - 1) (swap 0 (q.length - 1) q)
  have size := moved.length.trans (length_swap 0 (q.length - 1) q)
  have hole := (isHeap_iff.mp heap).exchange_hole full last
  rw [← rankAt_swap full last] at hole
  obtain ⟨sunk, -⟩ := down_ordered q.length hole (fun no => absurd no (Nat.lt_irrefl 0))
    (by rw [length_swap]; exact Nat.le_of_lt last) (by omega)
  obtain ⟨tail, final⟩ := exists_item last
  refine ⟨_, getLast?_popLast { item with index := q.length - 1 } ?_, isHeap_dropLast ?_⟩
  · rw [size, moved.rest _ (Nat.le_refl _)]
    exact getElem?_swap_right top final
  · rw [size]
    exact sunk

/-- No task of the queue comes before the first one. -/
theorem top_first {item : TaskItem} (heap : IsHeap q) (top : q[0]? = some item) :
    ∀ u ∈ getTasks q, taskLess u item.task = false := by
  intro u member
  obtain ⟨other, present, rfl⟩ := List.mem_map.mp member
  obtain ⟨k, found⟩ := List.getElem?_of_mem present
  have above := (isHeap_iff.mp heap).root_le k (List.getElem?_eq_some_iff.mp found).1
  rw [rankAt_of_some top, rankAt_of_some found, WithTop.coe_le_coe] at above
  exact (taskLess_eq_false_iff other.task item.task).mpr above

/-- `heap.Remove` before the last item is cut off. -/
def arrange (index : Nat) (q : TaskQueue) : TaskQueue :=
  let n := q.length - 1
  if n ≠ index then
    let moved := down q.length index n (swap index n q)
    if index < moved.2 then moved.1 else up q.length index moved.1
  else q

theorem remove_eq_arrange (index : Nat) (q : TaskQueue) : remove index q = (arrange index q).dropLast := rfl

theorem arrange_last (index : Nat) {item : TaskItem} (found : q[index]? = some item) :
    (arrange index q).length = q.length ∧
      ∃ place, (arrange index q)[q.length - 1]? = some { item with index := place } := by
  have inside : index < q.length := (List.getElem?_eq_some_iff.mp found).1
  rw [arrange]
  by_cases last : q.length - 1 = index
  · dsimp only
    rw [if_neg (not_not.mpr last), last]
    exact ⟨rfl, item.index, found⟩
  · have bound : q.length - 1 < q.length := Nat.sub_one_lt_of_lt inside
    obtain ⟨tail, final⟩ := exists_item bound
    have sunk := rearranged_down q.length index (q.length - 1) (swap index (q.length - 1) q)
    have placed := getElem?_swap_right found final
    have kept : ∀ arranged, Rearranged (q.length - 1) (swap index (q.length - 1) q) arranged →
        arranged.length = q.length ∧ ∃ place, arranged[q.length - 1]? = some { item with index := place } := by
      intro arranged moved
      refine ⟨moved.length.trans (length_swap _ _ _), q.length - 1, ?_⟩
      rw [moved.rest _ (Nat.le_refl _)]
      exact placed
    dsimp only
    rw [if_pos last]
    split
    · exact kept _ sunk
    · exact kept _ (sunk.trans (rearranged_up _ _ _ (by omega)))

/-- The item that comes from the end goes down, or else up. -/
theorem isHeap_remove {index : Nat} (heap : IsHeap q) (inside : index < q.length) : IsHeap (remove index q) := by
  obtain ⟨item, found⟩ := exists_item inside
  rw [remove_eq_arrange]
  refine isHeap_dropLast ?_
  rw [(arrange_last index found).1, arrange]
  have bound : q.length - 1 < q.length := Nat.sub_one_lt_of_lt inside
  by_cases last : q.length - 1 = index
  · dsimp only
    rw [if_neg (not_not.mpr last)]
    exact (isHeap_iff.mp heap).mono (Nat.sub_le _ _)
  · have within : q.length - 1 ≤ (swap index (q.length - 1) q).length := by
      rw [length_swap]
      exact Nat.sub_le _ _
    have hole := (isHeap_iff.mp heap).exchange_hole inside bound
    rw [← rankAt_swap inside bound] at hole
    dsimp only
    rw [if_pos last]
    rcases down_hole q.length hole within (by omega) with ⟨stays, below⟩ | ⟨moved, ordered⟩
    · rw [stays, if_neg (Nat.lt_irrefl index)]
      exact up_ordered hole below (by omega) within (Nat.le_of_lt inside)
    · rw [if_pos moved]
      exact ordered

end

/-- The item at the top, which is put back. -/
def peek (q : TaskQueue) : Option (Task × TaskQueue) := (pop q).map fun (t, rest) => (t, push t rest)

/-- `Remove` with the task that it answers. -/
def removeTask (index : Nat) (q : TaskQueue) : Option (Task × TaskQueue) :=
  if index < q.length then popLast (arrange index q) else none

/-- `RemoveById` with the task that it answers. -/
def removeTaskById (taskId : Int) (q : TaskQueue) : Option (Option Task × TaskQueue) :=
  match q.find? fun item => item.task.taskId = taskId with
  | some item => (removeTask item.index q).map fun (t, rest) => (some t, rest)
  | none => some (none, q)

theorem removeTask_eq {index : Nat} {item : TaskItem} {q : TaskQueue} (found : q[index]? = some item) :
    removeTask index q = some (item.task, remove index q) := by
  obtain ⟨size, place, last⟩ := arrange_last index found
  rw [removeTask, if_pos (List.getElem?_eq_some_iff.mp found).1, remove_eq_arrange]
  exact getLast?_popLast { item with index := place } (by rw [size]; exact last)

/-- What the queue keeps between its operations. -/
structure Valid (q : TaskQueue) : Prop where
  indexed : Indexed q
  heap : IsHeap q

inductive Operation where
  | push (t : Task)
  | pop
  | peek
  | remove (index : Nat)
  | removeById (taskId : Int)

namespace Operation

/-- The task that the operation answers and the queue after it, unless it is out of range. -/
def run : Operation → TaskQueue → Option (Option Task × TaskQueue)
  | push t, q => some (none, q.push t)
  | pop, q => q.pop.map fun (t, rest) => (some t, rest)
  | peek, q => q.peek.map fun (t, rest) => (some t, rest)
  | remove index, q => (q.removeTask index).map fun (t, rest) => (some t, rest)
  | removeById taskId, q => q.removeTaskById taskId

/-- What the caller has to see to. -/
def Allowed (q : TaskQueue) : Operation → Prop
  | pop | peek => 0 < q.length
  | remove index => index < q.length
  | push _ | removeById _ => True

def pushes : Operation → List Task
  | push t => [t]
  | _ => []

/-- The task that the operation takes out of the queue. -/
def takes : Operation → Option Task → List Task
  | pop, some t | remove _, some t | removeById _, some t => [t]
  | _, _ => []

/-- What the operation answers, on a queue. -/
def Answers (q : TaskQueue) : Operation → Option Task → Prop
  | push _, answer => answer = none
  | pop, answer | peek, answer => ∃ t ∈ getTasks q, answer = some t ∧ ∀ u ∈ getTasks q, taskLess u t = false
  | remove index, answer => ∃ item, q[index]? = some item ∧ answer = some item.task
  | removeById taskId, answer =>
    answer = none ∧ (∀ t ∈ getTasks q, t.taskId ≠ taskId) ∨ ∃ t ∈ getTasks q, t.taskId = taskId ∧ answer = some t

/-- One operation kept its promises: the queue stays valid, the answer is right, and the
tasks of the queue are those before, with what was pushed and without what was taken. -/
structure Kept (q : TaskQueue) (operation : Operation) (answer : Option Task) (left : TaskQueue) : Prop where
  valid : Valid left
  answers : operation.Answers q answer
  tasks : (operation.pushes ++ getTasks q).Perm (operation.takes answer ++ getTasks left)

end Operation

section

variable {q : TaskQueue}

theorem valid_nil : Valid [] :=
  ⟨fun i item found => by simp at found, fun k above item _ _ found => by simp at found⟩

theorem valid_push (valid : Valid q) (t : Task) : Valid (push t q) :=
  ⟨indexed_push valid.indexed, isHeap_push valid.heap t⟩

theorem kept_push (valid : Valid q) (t : Task) : Operation.Kept q (.push t) none (push t q) :=
  ⟨valid_push valid t, rfl, (push_perm t q).symm⟩

/-- Popping from a queue that is not empty. -/
theorem exists_pop (valid : Valid q) (full : 0 < q.length) : ∃ t rest, pop q = some (t, rest) ∧ Valid rest ∧
    (t ∈ getTasks q ∧ ∀ u ∈ getTasks q, taskLess u t = false) ∧ (getTasks q).Perm (t :: getTasks rest) := by
  obtain ⟨item, top⟩ := exists_item full
  obtain ⟨rest, popped, heap⟩ := pop_top valid.heap top
  obtain ⟨perm, indexed⟩ := pop_perm popped
  have member : item.task ∈ getTasks q := List.mem_map_of_mem (List.mem_of_getElem? top)
  exact ⟨item.task, rest, popped, ⟨indexed valid.indexed, heap⟩, ⟨member, top_first valid.heap top⟩, perm⟩

theorem kept_pop (valid : Valid q) (full : 0 < q.length) :
    ∃ answer left, Operation.pop.run q = some (answer, left) ∧ Operation.Kept q .pop answer left := by
  obtain ⟨t, rest, popped, after, ⟨member, first⟩, perm⟩ := exists_pop valid full
  refine ⟨some t, rest, ?_, after, ⟨t, member, rfl, first⟩, perm⟩
  rw [Operation.run, popped]
  rfl

theorem kept_peek (valid : Valid q) (full : 0 < q.length) :
    ∃ answer left, Operation.peek.run q = some (answer, left) ∧ Operation.Kept q .peek answer left := by
  obtain ⟨t, rest, popped, after, ⟨member, first⟩, perm⟩ := exists_pop valid full
  refine ⟨some t, push t rest, ?_, valid_push after t, ⟨t, member, rfl, first⟩, ?_⟩
  · rw [Operation.run, peek, popped]
    rfl
  · exact perm.trans (push_perm t rest).symm

theorem kept_remove (valid : Valid q) {index : Nat} (inside : index < q.length) :
    ∃ answer left, (Operation.remove index).run q = some (answer, left) ∧
      Operation.Kept q (.remove index) answer left := by
  obtain ⟨item, found⟩ := exists_item inside
  obtain ⟨perm, indexed⟩ := remove_perm found
  refine ⟨some item.task, remove index q, ?_, ⟨indexed valid.indexed, isHeap_remove valid.heap inside⟩,
    ⟨item, found, rfl⟩, perm⟩
  rw [Operation.run, removeTask_eq found]
  rfl

theorem kept_removeById (valid : Valid q) (taskId : Int) :
    ∃ answer left, (Operation.removeById taskId).run q = some (answer, left) ∧
      Operation.Kept q (.removeById taskId) answer left := by
  rw [Operation.run, removeTaskById]
  cases named : q.find? fun item => item.task.taskId = taskId with
  | none =>
    refine ⟨none, q, rfl, valid, .inl ⟨rfl, fun t member => ?_⟩, .refl _⟩
    obtain ⟨item, present, rfl⟩ := List.mem_map.mp member
    simpa using List.find?_eq_none.mp named item present
  | some item =>
    have present := List.mem_of_find?_eq_some named
    obtain ⟨index, found⟩ := List.getElem?_of_mem present
    have inside : index < q.length := (List.getElem?_eq_some_iff.mp found).1
    obtain ⟨perm, indexed⟩ := remove_perm found
    refine ⟨some item.task, remove index q, ?_, ⟨indexed valid.indexed, isHeap_remove valid.heap inside⟩,
      .inr ⟨item.task, List.mem_map_of_mem present, ?_, rfl⟩, perm⟩
    · dsimp only
      rw [valid.indexed index item found, removeTask_eq found]
      rfl
    · simpa using List.find?_some named

/-- An allowed operation on a valid queue runs and keeps its promises. -/
theorem exists_kept (valid : Valid q) {operation : Operation} (allowed : operation.Allowed q) :
    ∃ answer left, operation.run q = some (answer, left) ∧ operation.Kept q answer left := by
  cases operation with
  | push t => exact ⟨none, push t q, rfl, kept_push valid t⟩
  | pop => exact kept_pop valid allowed
  | peek => exact kept_peek valid allowed
  | remove index => exact kept_remove valid allowed
  | removeById taskId => exact kept_removeById valid taskId

/-- An operation that is not allowed does not run. -/
theorem allowed_of_run {operation : Operation} {answer : Option Task} {left : TaskQueue}
    (ran : operation.run q = some (answer, left)) : operation.Allowed q := by
  cases operation with
  | push t => exact trivial
  | removeById taskId => exact trivial
  | pop =>
    cases q with
    | nil => cases ran
    | cons item rest => exact Nat.succ_pos _
  | peek =>
    cases q with
    | nil => cases ran
    | cons item rest => exact Nat.succ_pos _
  | remove index =>
    rw [Operation.run, removeTask] at ran
    split at ran
    · rename_i inside
      exact inside
    · cases ran

/-- The step of a run. -/
theorem kept_of_run (valid : Valid q) {operation : Operation} {answer : Option Task} {left : TaskQueue}
    (ran : operation.run q = some (answer, left)) : operation.Kept q answer left := by
  obtain ⟨answer', left', ran', kept⟩ := exists_kept valid (allowed_of_run ran)
  cases ran.symm.trans ran'
  exact kept

end

/-- The queue after the operations and the tasks that they have taken out of it. -/
def runAll : List Operation → TaskQueue → Option (TaskQueue × List Task)
  | [], q => some (q, [])
  | operation :: rest, q => do
    let (answer, q) ← operation.run q
    let (q, taken) ← runAll rest q
    some (q, operation.takes answer ++ taken)

theorem runAll_kept {operations : List Operation} {q left : TaskQueue} {taken : List Task} (valid : Valid q)
    (ran : runAll operations q = some (left, taken)) :
    Valid left ∧ (operations.flatMap Operation.pushes ++ getTasks q).Perm (taken ++ getTasks left) := by
  induction operations generalizing q taken with
  | nil =>
    cases ran
    exact ⟨valid, .refl _⟩
  | cons operation rest ih =>
    simp only [runAll, bind, Option.bind_eq_some_iff] at ran
    obtain ⟨⟨answer, next⟩, first, ⟨last, later⟩, ran, same⟩ := ran
    cases same
    have kept := kept_of_run valid first
    obtain ⟨valid', perm⟩ := ih kept.valid ran
    refine ⟨valid', ?_⟩
    have step := kept.tasks.append_left (rest.flatMap Operation.pushes)
    have before : ((operation :: rest).flatMap Operation.pushes ++ getTasks q).Perm
        (rest.flatMap Operation.pushes ++ (operation.pushes ++ getTasks q)) := by
      rw [List.flatMap_cons, List.append_assoc]
      exact List.perm_append_comm_assoc _ _ _
    have between : (rest.flatMap Operation.pushes ++ (operation.takes answer ++ getTasks next)).Perm
        (operation.takes answer ++ (rest.flatMap Operation.pushes ++ getTasks next)) :=
      List.perm_append_comm_assoc _ _ _
    rw [List.append_assoc]
    exact ((before.trans step).trans between).trans (perm.append_left _)

/-- The task queue, after every sequence of operations that starts with the empty one:
every item knows its position, no task comes before the one above it, the tasks are those
that were pushed and not taken out, and the next operation, if it is allowed, answers as
it should. -/
theorem queue_correct {operations : List Operation} {q : TaskQueue} {taken : List Task}
    (ran : runAll operations [] = some (q, taken)) :
    Indexed q ∧ IsHeap q ∧ (operations.flatMap Operation.pushes).Perm (taken ++ getTasks q) ∧
      ∀ operation : Operation, operation.Allowed q →
        ∃ answer left, operation.run q = some (answer, left) ∧ operation.Kept q answer left := by
  obtain ⟨valid, perm⟩ := runAll_kept valid_nil ran
  refine ⟨valid.indexed, valid.heap, ?_, fun operation allowed => exists_kept valid allowed⟩
  simpa [getTasks] using perm

/-- Three tasks of different statuses, one of them taken by its id and one popped. -/
theorem three_pushed : ∃ q taken, taken.length = 2 ∧
    (Indexed q ∧ IsHeap q ∧ ([⟨"j", 1, "lamp", "turnOn", .queued, none, 3⟩, ⟨"j", 2, "lamp", "turnOn", .sent, none, 2⟩,
        ⟨"j", 3, "lamp", "turnOn", .queued, none, 1⟩] : List Task).Perm (taken ++ getTasks q) ∧
      ∀ operation : Operation, operation.Allowed q →
        ∃ answer left, operation.run q = some (answer, left) ∧ operation.Kept q answer left) :=
  let operations : List Operation := [.push ⟨"j", 1, "lamp", "turnOn", .queued, none, 3⟩,
    .push ⟨"j", 2, "lamp", "turnOn", .sent, none, 2⟩, .push ⟨"j", 3, "lamp", "turnOn", .queued, none, 1⟩, .peek,
    .removeById 1, .pop]
  ⟨[⟨⟨"j", 3, "lamp", "turnOn", .queued, none, 1⟩, 0⟩], [⟨"j", 1, "lamp", "turnOn", .queued, none, 3⟩,
    ⟨"j", 2, "lamp", "turnOn", .sent, none, 2⟩], rfl, queue_correct (show runAll operations [] = _ from rfl)⟩

end TaskQueue

end Tio.Job
