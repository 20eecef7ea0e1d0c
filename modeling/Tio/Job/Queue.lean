import Mathlib.Data.List.Basic
import Tio.Job.Types

/-! The task queue of the runner (`queue.go`): a binary heap of tasks, kept by
the functions of the package `container/heap`. Every item knows its position. -/

namespace Tio.Job

structure TaskItem where
  task : Task
  index : Nat
  deriving DecidableEq

abbrev TaskQueue := List TaskItem

def taskStatusPriority : TaskStatus → Nat
  | .queued => 1
  | .sent => 2
  | .inProgress => 3
  | _ => 0

def taskLess (i j : Task) : Bool :=
  if taskStatusPriority i.status = taskStatusPriority j.status then i.createdAt < j.createdAt
  else taskStatusPriority j.status < taskStatusPriority i.status

namespace TaskQueue

def getTasks (q : TaskQueue) : List Task := q.map TaskItem.task

def less (q : TaskQueue) (i j : Nat) : Bool :=
  match q[i]?, q[j]? with
  | some a, some b => taskLess a.task b.task
  | _, _ => false

def swap (i j : Nat) (q : TaskQueue) : TaskQueue :=
  match q[i]?, q[j]? with
  | some a, some b => (q.set i { b with index := i }).set j { a with index := j }
  | _, _ => q

/-- `heap.up`; a position has fewer ancestors than its own number. -/
def up : (fuel j : Nat) → TaskQueue → TaskQueue
  | 0, _, q => q
  | fuel + 1, j, q =>
    let i := (j - 1) / 2
    if i = j || !less q j i then q else up fuel i (swap i j q)

/-- `heap.down`, and the position where it stops. -/
def down : (fuel i n : Nat) → TaskQueue → TaskQueue × Nat
  | 0, i, _, q => (q, i)
  | fuel + 1, i, n, q =>
    let j1 := 2 * i + 1
    if n ≤ j1 then (q, i)
    else
      let j := if j1 + 1 < n && less q (j1 + 1) j1 then j1 + 1 else j1
      if !less q j i then (q, i) else down fuel j n (swap i j q)

def push (t : Task) (q : TaskQueue) : TaskQueue :=
  up (q.length + 1) q.length (q ++ [⟨t, q.length⟩])

/-- The last item of the slice and the items before it. -/
def popLast (q : TaskQueue) : Option (Task × TaskQueue) :=
  match q.getLast? with
  | some item => some (item.task, q.dropLast)
  | none => none

def pop (q : TaskQueue) : Option (Task × TaskQueue) :=
  popLast (down q.length 0 (q.length - 1) (swap 0 (q.length - 1) q)).1

def remove (index : Nat) (q : TaskQueue) : TaskQueue :=
  let n := q.length - 1
  let arranged :=
    if n ≠ index then
      let moved := down q.length index n (swap index n q)
      if index < moved.2 then moved.1 else up q.length index moved.1
    else q
  arranged.dropLast

def removeById (taskId : Int) (q : TaskQueue) : TaskQueue :=
  match q.find? fun item => item.task.taskId = taskId with
  | some item => remove item.index q
  | none => q

def removeIds (ids : List Int) (q : TaskQueue) : TaskQueue := ids.foldl (fun q id => removeById id q) q

/-- Every item knows its position. -/
def Indexed (q : TaskQueue) : Prop :=
  ∀ (i : Nat) (item : TaskItem), q[i]? = some item → item.index = i

@[simp] theorem length_swap (i j : Nat) (q : TaskQueue) : (swap i j q).length = q.length := by
  rw [swap]
  split <;> simp

theorem getElem?_swap {i j k : Nat} {q : TaskQueue} (apart : k ≠ i) (apart' : k ≠ j) :
    (swap i j q)[k]? = q[k]? := by
  rw [swap]
  split
  · rw [List.getElem?_set_ne (Ne.symm apart'), List.getElem?_set_ne (Ne.symm apart)]
  · rfl

theorem swap_perm (i j : Nat) (q : TaskQueue) : (getTasks (swap i j q)).Perm (getTasks q) := by
  rw [swap]
  split
  · rename_i a b first second
    obtain ⟨small, rfl⟩ := List.getElem?_eq_some_iff.mp first
    obtain ⟨small', rfl⟩ := List.getElem?_eq_some_iff.mp second
    have inside : i < (getTasks q).length := by simpa [getTasks] using small
    have inside' : j < (getTasks q).length := by simpa [getTasks] using small'
    have moved := List.set_set_perm inside inside'
    simpa [getTasks, List.map_set] using moved
  · exact .refl _

/-- The queue has the same items in another order, and from position `n` on it is
the same. -/
structure Rearranged (n : Nat) (q q' : TaskQueue) : Prop where
  length : q'.length = q.length
  tasks : (getTasks q').Perm (getTasks q)
  indexed : Indexed q → Indexed q'
  rest : ∀ k, n ≤ k → q'[k]? = q[k]?

namespace Rearranged

variable {n : Nat} {q q' q'' : TaskQueue}

theorem refl : Rearranged n q q := ⟨rfl, .refl _, id, fun _ _ => rfl⟩

theorem trans (first : Rearranged n q q') (second : Rearranged n q' q'') : Rearranged n q q'' :=
  ⟨second.length.trans first.length, second.tasks.trans first.tasks,
    second.indexed ∘ first.indexed, fun k far => (second.rest k far).trans (first.rest k far)⟩

end Rearranged

theorem indexed_swap {i j : Nat} {q : TaskQueue} (indexed : Indexed q) : Indexed (swap i j q) := by
  rw [swap]
  split
  · rename_i a b first second
    intro k item found
    rcases eq_or_ne k j with rfl | apart'
    · have inside : k < q.length := (List.getElem?_eq_some_iff.mp second).1
      rw [List.getElem?_set_self (by simpa using inside)] at found
      cases found
      rfl
    · rw [List.getElem?_set_ne (Ne.symm apart')] at found
      rcases eq_or_ne k i with rfl | apart
      · have inside : k < q.length := (List.getElem?_eq_some_iff.mp first).1
        rw [List.getElem?_set_self inside] at found
        cases found
        rfl
      · rw [List.getElem?_set_ne (Ne.symm apart)] at found
        exact indexed k item found
  · exact indexed

theorem rearranged_swap {n i j : Nat} (q : TaskQueue) (near : i < n) (near' : j < n) :
    Rearranged n q (swap i j q) :=
  ⟨length_swap i j q, swap_perm i j q, indexed_swap, fun k far =>
    getElem?_swap (by omega) (by omega)⟩

theorem rearranged_up {n : Nat} (fuel j : Nat) (q : TaskQueue) (near : j < n) :
    Rearranged n q (up fuel j q) := by
  induction fuel generalizing j q with
  | zero => exact .refl
  | succ fuel ih =>
    rw [up]
    split
    · exact .refl
    · exact (rearranged_swap q (by omega) near).trans (ih _ _ (by omega))

theorem rearranged_down (fuel i n : Nat) (q : TaskQueue) : Rearranged n q (down fuel i n q).1 := by
  induction fuel generalizing i q with
  | zero => exact .refl
  | succ fuel ih =>
    rw [down]
    split
    · exact .refl
    · rename_i inside
      have near : (if 2 * i + 1 + 1 < n && less q (2 * i + 1 + 1) (2 * i + 1) then 2 * i + 1 + 1
          else 2 * i + 1) < n := by
        split
        · simp_all
        · omega
      dsimp only
      generalize (if 2 * i + 1 + 1 < n && less q (2 * i + 1 + 1) (2 * i + 1) then 2 * i + 1 + 1
        else 2 * i + 1) = child at near ⊢
      split
      · exact .refl
      · exact (rearranged_swap q (by omega) near).trans (ih _ _)

theorem push_perm (t : Task) (q : TaskQueue) : (getTasks (push t q)).Perm (t :: getTasks q) := by
  have raised := (rearranged_up (n := q.length + 1) (q.length + 1) q.length (q ++ [⟨t, q.length⟩])
    (by omega)).tasks
  refine raised.trans ?_
  simp only [getTasks, List.map_append, List.map_cons, List.map_nil]
  exact List.perm_append_singleton t _

theorem indexed_push {t : Task} {q : TaskQueue} (indexed : Indexed q) : Indexed (push t q) := by
  refine (rearranged_up (n := q.length + 1) _ _ _ (by omega)).indexed fun i item found => ?_
  rcases Nat.lt_or_ge i q.length with inside | outside
  · rw [List.getElem?_append_left inside] at found
    exact indexed i item found
  · rw [List.getElem?_append_right outside] at found
    obtain ⟨small, here⟩ := List.getElem?_eq_some_iff.mp found
    simp only [List.length_cons, List.length_nil] at small
    have last : i = q.length := by omega
    subst last
    simp only [Nat.sub_self, List.getElem_cons_zero] at here
    exact here ▸ rfl

theorem indexed_dropLast {q : TaskQueue} (indexed : Indexed q) : Indexed q.dropLast := by
  intro i item found
  rw [List.getElem?_dropLast] at found
  split at found
  · exact indexed i item found
  · cases found

/-- Without its last item a queue has all tasks but one. -/
theorem dropLast_perm {q : TaskQueue} {item : TaskItem} (last : q[q.length - 1]? = some item) :
    (getTasks q).Perm (item.task :: getTasks q.dropLast) := by
  have tail : q.getLast? = some item := by rw [List.getLast?_eq_getElem?]; exact last
  obtain ⟨front, rfl⟩ := List.getLast?_eq_some_iff.mp tail
  simp only [getTasks, List.map_append, List.map_cons, List.map_nil, List.dropLast_concat]
  exact List.perm_append_singleton _ _

theorem popLast_perm {t : Task} {q rest : TaskQueue} (popped : popLast q = some (t, rest)) :
    (getTasks q).Perm (t :: getTasks rest) ∧ rest = q.dropLast := by
  rw [popLast] at popped
  split at popped
  · rename_i item last
    cases popped
    exact ⟨dropLast_perm (by rwa [List.getLast?_eq_getElem?] at last), rfl⟩
  · cases popped

/-- What is popped and what is left are the tasks of the queue. -/
theorem pop_perm {t : Task} {q rest : TaskQueue} (popped : pop q = some (t, rest)) :
    (getTasks q).Perm (t :: getTasks rest) ∧ (Indexed q → Indexed rest) := by
  rw [pop] at popped
  obtain ⟨taken, rfl⟩ := popLast_perm popped
  have swapped : Rearranged (q.length + 1) q (swap 0 (q.length - 1) q) :=
    rearranged_swap q (by omega) (by omega)
  have sunk := rearranged_down q.length 0 (q.length - 1) (swap 0 (q.length - 1) q)
  refine ⟨(swapped.tasks.symm.trans sunk.tasks.symm).trans taken, fun indexed => ?_⟩
  exact indexed_dropLast (sunk.indexed (swapped.indexed indexed))

theorem getElem?_swap_right {i j : Nat} {q : TaskQueue} {a b : TaskItem} (first : q[i]? = some a)
    (second : q[j]? = some b) : (swap i j q)[j]? = some { a with index := j } := by
  have inside : j < q.length := (List.getElem?_eq_some_iff.mp second).1
  simp only [swap, first, second]
  rw [List.getElem?_set_self (by simpa using inside)]

/-- Removing at a position takes out the item that is there. -/
theorem remove_perm {index : Nat} {item : TaskItem} {q : TaskQueue} (found : q[index]? = some item) :
    (getTasks q).Perm (item.task :: getTasks (remove index q)) ∧
      (Indexed q → Indexed (remove index q)) := by
  have inside : index < q.length := (List.getElem?_eq_some_iff.mp found).1
  rw [remove]
  dsimp only
  by_cases last : q.length - 1 = index
  · simp only [last, ne_eq, not_true_eq_false, if_false]
    exact ⟨dropLast_perm (last ▸ found), indexed_dropLast⟩
  · have bound : q.length - 1 < q.length := by omega
    obtain ⟨tail, ended⟩ : ∃ tail, q[q.length - 1]? = some tail := ⟨_, List.getElem?_eq_getElem bound⟩
    have swapped : Rearranged q.length q (swap index (q.length - 1) q) :=
      rearranged_swap q inside bound
    have sunk := rearranged_down q.length index (q.length - 1) (swap index (q.length - 1) q)
    -- neither direction of the repair reaches the last position
    have repaired : ∀ arranged, Rearranged (q.length - 1) (swap index (q.length - 1) q) arranged →
        (getTasks q).Perm (item.task :: getTasks arranged.dropLast) ∧
          (Indexed q → Indexed arranged.dropLast) := by
      intro arranged moved
      have there : arranged[arranged.length - 1]? = some { item with index := q.length - 1 } := by
        rw [moved.length, length_swap, moved.rest _ (Nat.le_refl _)]
        exact getElem?_swap_right found ended
      have kept := dropLast_perm there
      refine ⟨(swapped.tasks.symm.trans moved.tasks.symm).trans kept, ?_⟩
      exact fun indexed => indexed_dropLast (moved.indexed (swapped.indexed indexed))
    rw [if_pos last]
    split
    · exact repaired _ sunk
    · exact repaired _ (sunk.trans (rearranged_up _ _ _ (by omega)))

theorem indexed_removeById (taskId : Int) {q : TaskQueue} (indexed : Indexed q) :
    Indexed (removeById taskId q) := by
  rw [removeById]
  split
  · rename_i item found
    obtain ⟨i, here⟩ := List.getElem?_of_mem (List.mem_of_find?_eq_some found)
    rw [indexed i item here]
    exact (remove_perm here).2 indexed
  · exact indexed

/-- In a queue whose items know their positions, one task with the id goes. -/
theorem removeById_perm (taskId : Int) {q : TaskQueue} (indexed : Indexed q) :
    (∀ t ∈ getTasks q, t.taskId ≠ taskId) ∧ removeById taskId q = q ∨
      ∃ t, t.taskId = taskId ∧ (getTasks q).Perm (t :: getTasks (removeById taskId q)) := by
  rw [removeById]
  split
  · rename_i item found
    obtain ⟨i, here⟩ := List.getElem?_of_mem (List.mem_of_find?_eq_some found)
    refine .inr ⟨item.task, by simpa using List.find?_some found, ?_⟩
    rw [indexed i item here]
    exact (remove_perm here).1
  · rename_i missing
    refine .inl ⟨fun t member => ?_, rfl⟩
    obtain ⟨item, present, rfl⟩ := List.mem_map.mp member
    simpa using List.find?_eq_none.mp missing item present

theorem mem_removeById {taskId : Int} {q : TaskQueue} (indexed : Indexed q) {t : Task}
    (member : t ∈ getTasks (removeById taskId q)) : t ∈ getTasks q := by
  rcases removeById_perm taskId indexed with ⟨-, same⟩ | ⟨u, -, perm⟩
  · rwa [same] at member
  · exact perm.mem_iff.mpr (List.mem_cons_of_mem _ member)

/-- The id of at most one task is gone after it was removed. -/
theorem removeById_gone {taskId : Int} {q : TaskQueue} (indexed : Indexed q)
    (single : (getTasks q).countP (fun t => t.taskId = taskId) ≤ 1) {t : Task}
    (member : t ∈ getTasks (removeById taskId q)) : t.taskId ≠ taskId := by
  rcases removeById_perm taskId indexed with ⟨absent, same⟩ | ⟨u, here, perm⟩
  · exact absent t (same ▸ member)
  · intro also
    rw [perm.countP_eq, List.countP_cons_of_pos (by simpa using here)] at single
    have positive : 0 < (getTasks (removeById taskId q)).countP (fun t => t.taskId = taskId) :=
      List.countP_pos_iff.mpr ⟨t, member, by simpa using also⟩
    omega

theorem mem_push {t u : Task} {q : TaskQueue} :
    u ∈ getTasks (push t q) ↔ u = t ∨ u ∈ getTasks q := by
  rw [(push_perm t q).mem_iff, List.mem_cons]

theorem mem_pushAll {tasks : List Task} {u : Task} {q : TaskQueue} :
    u ∈ getTasks (tasks.foldl (fun q t => push t q) q) ↔ u ∈ tasks ∨ u ∈ getTasks q := by
  induction tasks generalizing q with
  | nil => simp
  | cons t rest ih =>
    rw [List.foldl_cons, ih, mem_push, List.mem_cons]
    tauto

theorem indexed_pushAll {tasks : List Task} {q : TaskQueue} (indexed : Indexed q) :
    Indexed (tasks.foldl (fun q t => push t q) q) := by
  induction tasks generalizing q with
  | nil => exact indexed
  | cons t rest ih => exact ih (indexed_push indexed)

theorem removeIds_sound (ids : List Int) {q : TaskQueue} (indexed : Indexed q) :
    Indexed (removeIds ids q) ∧ ∀ u ∈ getTasks (removeIds ids q), u ∈ getTasks q := by
  induction ids generalizing q with
  | nil => exact ⟨indexed, fun u member => member⟩
  | cons id rest ih =>
    obtain ⟨kept, fewer⟩ := ih (indexed_removeById id indexed)
    exact ⟨kept, fun u member => mem_removeById indexed (fewer u member)⟩

theorem pushAll_perm (tasks : List Task) (q : TaskQueue) :
    (getTasks (tasks.foldl (fun q t => push t q) q)).Perm (tasks ++ getTasks q) := by
  induction tasks generalizing q with
  | nil => exact .refl _
  | cons t rest ih =>
    exact (ih (push t q)).trans (((push_perm t q).append_left rest).trans List.perm_middle)

/-- Removing by ids takes tasks with these ids out. -/
theorem removeIds_perm (ids : List Int) {q : TaskQueue} (indexed : Indexed q) :
    ∃ gone, (getTasks q).Perm (getTasks (removeIds ids q) ++ gone) ∧ ∀ u ∈ gone, u.taskId ∈ ids := by
  induction ids generalizing q with
  | nil => exact ⟨[], by simp [removeIds], fun u no => nomatch no⟩
  | cons id rest ih =>
    obtain ⟨gone, perm, named⟩ := ih (indexed_removeById id indexed)
    rcases removeById_perm id indexed with ⟨-, same⟩ | ⟨u, here, removed⟩
    · rw [same] at perm
      refine ⟨gone, ?_, fun v member => List.mem_cons_of_mem id (named v member)⟩
      rw [removeIds, List.foldl_cons, same]
      exact perm
    · refine ⟨u :: gone, (removed.trans (perm.cons u)).trans List.perm_middle.symm, fun v member => ?_⟩
      rcases List.mem_cons.mp member with rfl | other
      · rw [here]
        exact List.mem_cons_self
      · exact List.mem_cons_of_mem id (named v other)

end TaskQueue

end Tio.Job
