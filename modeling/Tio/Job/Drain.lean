import Mathlib.Data.List.Pairwise
import Mathlib.Data.List.Perm.Basic
import Tio.Job.Priority

namespace Tio.Job

namespace TaskQueue

def pushAll (tasks : List Task) (q : TaskQueue) : TaskQueue := tasks.foldl (fun q t => push t q) q

/-- Popping until the queue is empty. -/
def drain : (fuel : Nat) → TaskQueue → List Task
  | 0, _ => []
  | fuel + 1, q =>
    match pop q with
    | none => []
    | some (t, rest) => t :: drain fuel rest

theorem valid_pushAll (tasks : List Task) {q : TaskQueue} (valid : Valid q) : Valid (pushAll tasks q) := by
  induction tasks generalizing q with
  | nil => exact valid
  | cons t rest ih => exact ih (valid_push valid t)

/-- What is popped are the tasks of the queue, none before one that it comes after. -/
theorem drain_sorted {fuel : Nat} {q : TaskQueue} (valid : Valid q) (enough : q.length ≤ fuel) :
    (drain fuel q).Perm (getTasks q) ∧ (drain fuel q).Pairwise fun t u => taskLess u t = false := by
  induction fuel generalizing q with
  | zero =>
    have empty : q = [] := List.eq_nil_of_length_eq_zero (Nat.le_zero.mp enough)
    subst empty
    exact ⟨.refl _, .nil⟩
  | succ fuel ih =>
    rcases Nat.eq_zero_or_pos q.length with none | full
    · have empty : q = [] := List.eq_nil_of_length_eq_zero none
      subst empty
      exact ⟨.refl _, .nil⟩
    · obtain ⟨t, rest, popped, after, ⟨-, first⟩, perm⟩ := exists_pop valid full
      have fewer : rest.length ≤ fuel := by
        have size := perm.length_eq
        simp only [getTasks, List.length_map, List.length_cons] at size
        omega
      obtain ⟨perm', sorted⟩ := ih after fewer
      simp only [drain, popped]
      refine ⟨(perm'.cons t).trans perm.symm, List.pairwise_cons.mpr ⟨fun u member => ?_, sorted⟩⟩
      exact first u (perm.mem_iff.mpr (List.mem_cons_of_mem _ (perm'.mem_iff.mp member)))

/-! The queue looks at its tasks through their comparison only. -/

def relabel (f : Task → Task) (q : TaskQueue) : TaskQueue := q.map fun item => { item with task := f item.task }

section

variable {f : Task → Task}

theorem getElem?_relabel (q : TaskQueue) (k : Nat) :
    (relabel f q)[k]? = (q[k]?).map fun item => { item with task := f item.task } := List.getElem?_map

@[simp] theorem length_relabel (q : TaskQueue) : (relabel f q).length = q.length := List.length_map _

theorem swap_relabel (i j : Nat) (q : TaskQueue) : swap i j (relabel f q) = relabel f (swap i j q) := by
  rw [swap, swap, getElem?_relabel, getElem?_relabel]
  cases q[i]? with
  | none => rfl
  | some a =>
    cases q[j]? with
    | none => rfl
    | some b => simp only [Option.map_some, relabel, List.map_set]

variable (same : ∀ t u, taskLess (f t) (f u) = taskLess t u)

include same

theorem less_relabel (q : TaskQueue) (i j : Nat) : less (relabel f q) i j = less q i j := by
  rw [less, less, getElem?_relabel, getElem?_relabel]
  cases q[i]? with
  | none => rfl
  | some a =>
    cases q[j]? with
    | none => rfl
    | some b => exact same a.task b.task

theorem up_relabel (fuel j : Nat) (q : TaskQueue) : up fuel j (relabel f q) = relabel f (up fuel j q) := by
  induction fuel generalizing j q with
  | zero => rfl
  | succ fuel ih =>
    simp only [up, less_relabel same, swap_relabel, ih]
    exact (apply_ite (relabel f) _ _ _).symm

theorem down_relabel (fuel i n : Nat) (q : TaskQueue) :
    down fuel i n (relabel f q) = (relabel f (down fuel i n q).1, (down fuel i n q).2) := by
  induction fuel generalizing i q with
  | zero => rfl
  | succ fuel ih =>
    simp only [down, less_relabel same, swap_relabel, ih]
    generalize (if 2 * i + 1 + 1 < n && less q (2 * i + 1 + 1) (2 * i + 1) then 2 * i + 1 + 1
      else 2 * i + 1) = child
    by_cases leaf : n ≤ 2 * i + 1
    · rw [if_pos leaf, if_pos leaf]
    · rw [if_neg leaf, if_neg leaf]
      split <;> rfl

theorem push_relabel (t : Task) (q : TaskQueue) : push (f t) (relabel f q) = relabel f (push t q) := by
  rw [push, push, ← up_relabel same, length_relabel]
  simp [relabel]

theorem pop_relabel (q : TaskQueue) :
    pop (relabel f q) = (pop q).map fun (t, rest) => (f t, relabel f rest) := by
  rw [pop, pop, length_relabel, swap_relabel, down_relabel same, popLast, popLast]
  simp only [relabel, List.getLast?_map]
  cases (down q.length 0 (q.length - 1) (swap 0 (q.length - 1) q)).1.getLast? with
  | none => rfl
  | some item => simp

theorem pushAll_relabel (tasks : List Task) (q : TaskQueue) :
    pushAll (tasks.map f) (relabel f q) = relabel f (pushAll tasks q) := by
  induction tasks generalizing q with
  | nil => rfl
  | cons t rest ih =>
    rw [List.map_cons, pushAll, List.foldl_cons, push_relabel same]
    exact ih (push t q)

theorem drain_relabel (fuel : Nat) (q : TaskQueue) : drain fuel (relabel f q) = (drain fuel q).map f := by
  induction fuel generalizing q with
  | zero => rfl
  | succ fuel ih =>
    rw [drain, drain, pop_relabel same]
    cases pop q with
    | none => rfl
    | some popped => exact congrArg (f popped.1 :: ·) (ih popped.2)

end

end TaskQueue

open TaskQueue

/-- The tasks of the rows in the order in which they are popped, after one batch. -/
def executed (rows : List (Int × TaskEntity)) : List Task :=
  drain rows.length (pushAll (toTasks rows) [])

theorem executed_sorted (rows : List (Int × TaskEntity)) :
    (executed rows).Perm (toTasks rows) ∧ (executed rows).Pairwise fun t u => taskLess u t = false := by
  have tasks := pushAll_perm (toTasks rows) []
  have size : (pushAll (toTasks rows) []).length = rows.length := by
    have counted := tasks.length_eq
    simpa [getTasks, toTasks, pushAll] using counted
  obtain ⟨perm, sorted⟩ := drain_sorted (valid_pushAll (toTasks rows) valid_nil) (Nat.le_of_eq size)
  refine ⟨perm.trans ?_, sorted⟩
  simpa [getTasks, pushAll] using tasks

/-- The first task may be executed before the second one, when they stand for rows of the
list. -/
def MayPrecede (rows : List (Int × TaskEntity)) (t u : Task) : Prop :=
  taskStatusPriority u.status ≤ taskStatusPriority t.status ∧
    (t.status = u.status → ∀ a ∈ rows, ∀ b ∈ rows, a.1 = t.taskId → b.1 = u.taskId → a.2.createdAt ≤ b.2.createdAt)

/-- The tasks of all rows, by the priority of their status and by the time of creation. -/
def InOrder (rows : List (Int × TaskEntity)) (tasks : List Task) : Prop :=
  tasks.Perm (toTasks rows) ∧ tasks.Pairwise (MayPrecede rows)

/-- Rows are stored under different ids. -/
theorem row_of_id {rows : List (Int × TaskEntity)} (distinct : (rows.map Prod.fst).Nodup) {a b : Int × TaskEntity}
    (first : a ∈ rows) (second : b ∈ rows) (same : a.1 = b.1) : a = b :=
  List.inj_on_of_nodup_map distinct first second same

theorem mem_executed {rows : List (Int × TaskEntity)} {t : Task} : t ∈ executed rows ↔ ∃ row ∈ rows, toTask row = t := by
  rw [(executed_sorted rows).1.mem_iff, toTasks, List.mem_map]

theorem toTask_of_id {rows : List (Int × TaskEntity)} (distinct : (rows.map Prod.fst).Nodup) {t : Task}
    (member : t ∈ executed rows) {row : Int × TaskEntity} (present : row ∈ rows) (named : row.1 = t.taskId) :
    t = toTask row := by
  obtain ⟨other, present', rfl⟩ := mem_executed.mp member
  rw [row_of_id distinct present present' named]

/-- The rows of one status have one time of creation. -/
def Simultaneous (rows : List (Int × TaskEntity)) : Prop :=
  ∀ a ∈ rows, ∀ b ∈ rows, a.2.status = b.2.status → a.2.createdAt = b.2.createdAt

instance (rows : List (Int × TaskEntity)) : Decidable (Simultaneous rows) :=
  inferInstanceAs (Decidable (∀ a ∈ rows, ∀ b ∈ rows, a.2.status = b.2.status → a.2.createdAt = b.2.createdAt))

/-- Tasks come by the priority of their status in any case. -/
theorem priority_of_taskLess {rows : List (Int × TaskEntity)} {t u : Task} (first : t ∈ executed rows)
    (second : u ∈ executed rows) (after : taskLess u t = false) :
    taskStatusPriority u.status ≤ taskStatusPriority t.status := by
  obtain ⟨a, -, rfl⟩ := mem_executed.mp first
  obtain ⟨b, -, rfl⟩ := mem_executed.mp second
  rw [taskLess] at after
  split at after
  · rename_i same
    exact Nat.le_of_eq same
  · simpa using after

theorem inOrder_of_simultaneous {rows : List (Int × TaskEntity)} (distinct : (rows.map Prod.fst).Nodup)
    (simultaneous : Simultaneous rows) : InOrder rows (executed rows) := by
  obtain ⟨perm, sorted⟩ := executed_sorted rows
  refine ⟨perm, sorted.imp_of_mem fun {t u} first second after => ⟨priority_of_taskLess first second after, ?_⟩⟩
  intro same a present b present' named named'
  refine Int.le_of_eq (simultaneous a present b present' ?_)
  rw [toTask_of_id distinct first present named, toTask_of_id distinct second present' named'] at same
  exact same

theorem simultaneous_perm {rows order : List (Int × TaskEntity)} (perm : order.Perm rows)
    (simultaneous : Simultaneous rows) : Simultaneous order :=
  fun a first b second => simultaneous a (perm.mem_iff.mp first) b (perm.mem_iff.mp second)

/-- Two rows of one status, exchanged, give an exchanged execution. -/
theorem executed_exchange {rows : List (Int × TaskEntity)} (distinct : (rows.map Prod.fst).Nodup)
    {a b : Int × TaskEntity} (first : a ∈ rows) (second : b ∈ rows) (same : a.2.status = b.2.status) :
    executed (rows.map (Equiv.swap a b)) = (executed rows).map (Equiv.swap (toTask a) (toTask b)) := by
  have compared : ∀ t u, taskLess (Equiv.swap (toTask a) (toTask b) t) (Equiv.swap (toTask a) (toTask b) u) =
      taskLess t u := by
    have kept : ∀ t, (Equiv.swap (toTask a) (toTask b) t).status = t.status ∧
        (Equiv.swap (toTask a) (toTask b) t).createdAt = t.createdAt := by
      intro t
      by_cases left : t = toTask a
      · subst left
        rw [Equiv.swap_apply_left]
        exact ⟨same.symm, rfl⟩
      · by_cases right : t = toTask b
        · subst right
          rw [Equiv.swap_apply_right]
          exact ⟨same, rfl⟩
        · rw [Equiv.swap_apply_of_ne_of_ne left right]
          exact ⟨rfl, rfl⟩
    intro t u
    rw [taskLess, taskLess, (kept t).1, (kept t).2, (kept u).1, (kept u).2]
  have tasks : toTasks (rows.map (Equiv.swap a b)) = (toTasks rows).map (Equiv.swap (toTask a) (toTask b)) := by
    rw [toTasks, toTasks, List.map_map, List.map_map]
    refine List.map_congr_left fun row present => ?_
    have apart : ∀ {other}, other ∈ rows → row ≠ other → toTask row ≠ toTask other :=
      fun stored differs equal => differs (row_of_id distinct present stored (congrArg Task.taskId equal))
    by_cases left : row = a
    · subst left
      simp
    · by_cases right : row = b
      · subst right
        simp
      · rw [Function.comp_apply, Function.comp_apply, Equiv.swap_apply_of_ne_of_ne left right,
          Equiv.swap_apply_of_ne_of_ne (apart first left) (apart second right)]
  have relabeled := drain_relabel compared rows.length (pushAll (toTasks rows) [])
  rw [← pushAll_relabel compared, ← tasks] at relabeled
  rw [executed, executed, List.length_map]
  exact relabeled

/-- Of two members of a list, one stands before the other. -/
theorem pairwise_either {α : Type*} {R : α → α → Prop} {l : List α} (pairwise : l.Pairwise R) {x y : α} (first : x ∈ l)
    (second : y ∈ l) (apart : x ≠ y) : R x y ∨ R y x := by
  have symmetric : Std.Symm fun x y => R x y ∨ R y x := ⟨fun _ _ either => either.symm⟩
  exact List.Pairwise.forall (R := fun x y => R x y ∨ R y x) (pairwise.imp fun before => Or.inl before) first second
    apart

theorem exchange_perm {rows : List (Int × TaskEntity)} (distinct : (rows.map Prod.fst).Nodup)
    {a b : Int × TaskEntity} (first : a ∈ rows) (second : b ∈ rows) : (rows.map (Equiv.swap a b)).Perm rows := by
  have apart : rows.Nodup := List.Nodup.of_map Prod.fst distinct
  have kept : ∀ row ∈ rows, Equiv.swap a b row ∈ rows := by
    intro row present
    by_cases left : row = a
    · rw [left, Equiv.swap_apply_left]
      exact second
    · by_cases right : row = b
      · rw [right, Equiv.swap_apply_right]
        exact first
      · rw [Equiv.swap_apply_of_ne_of_ne left right]
        exact present
  refine (List.perm_ext_iff_of_nodup (apart.map (Equiv.swap a b).injective) apart).mpr fun row => ?_
  rw [List.mem_map]
  constructor
  · rintro ⟨other, present, rfl⟩
    exact kept other present
  · intro present
    exact ⟨_, kept row present, Equiv.swap_apply_self a b row⟩

theorem simultaneous_of_inOrder {rows : List (Int × TaskEntity)} (distinct : (rows.map Prod.fst).Nodup)
    (ordered : ∀ order : List (Int × TaskEntity), order.Perm rows → InOrder order (executed order)) :
    Simultaneous rows := by
  intro a first b second same
  by_cases equal : a = b
  · rw [equal]
  · have apart : toTask a ≠ toTask b := fun both => equal (row_of_id distinct first second (congrArg Task.taskId both))
    have shuffled := exchange_perm distinct first second
    have one := (ordered rows (.refl rows)).2
    have other := (ordered _ shuffled).2
    rw [executed_exchange distinct first second same, List.pairwise_map] at other
    -- one of the two tasks comes first in one execution, and the other one in the other
    have stored := shuffled.mem_iff.mpr first
    have stored' := shuffled.mem_iff.mpr second
    rcases pairwise_either (one.and other) (mem_executed.mpr ⟨a, first, rfl⟩) (mem_executed.mpr ⟨b, second, rfl⟩)
      apart with ⟨before, after⟩ | ⟨before, after⟩
    · rw [Equiv.swap_apply_left, Equiv.swap_apply_right] at after
      exact Int.le_antisymm (before.2 same a first b second rfl rfl) (after.2 same.symm b stored' a stored rfl rfl)
    · rw [Equiv.swap_apply_left, Equiv.swap_apply_right] at after
      exact Int.le_antisymm (after.2 same a stored b stored' rfl rfl) (before.2 same.symm b second a first rfl rfl)

/-- Every list of the rows is executed in order exactly when no two rows of one status
were created at different times. -/
theorem executed_inOrder_iff {rows : List (Int × TaskEntity)} (distinct : (rows.map Prod.fst).Nodup) :
    (∀ order : List (Int × TaskEntity), order.Perm rows → InOrder order (executed order)) ↔ Simultaneous rows := by
  constructor
  · exact simultaneous_of_inOrder distinct
  · intro simultaneous order perm
    exact inOrder_of_simultaneous ((perm.map Prod.fst).nodup_iff.mpr distinct) (simultaneous_perm perm simultaneous)

/-- Three tasks of one job, created one after the other. -/
def createdRow (id : Int) (createdAt : Int) : Int × TaskEntity :=
  (id, ⟨"lights", "lamp", "turnOn", .queued, false, none, none, createdAt, 1⟩)

theorem three_created_out_of_order : ¬ ∀ rows : List (Int × TaskEntity), (rows.map Prod.fst).Nodup →
    InOrder rows (executed rows) := by
  intro ordered
  have apart : ([createdRow 1 10, createdRow 2 20, createdRow 3 30].map Prod.fst).Nodup := by
    decide
  obtain ⟨-, order⟩ := ordered _ apart
  have popped : executed [createdRow 1 10, createdRow 2 20, createdRow 3 30] =
      [toTask (createdRow 1 10), toTask (createdRow 3 30), toTask (createdRow 2 20)] := rfl
  rw [popped] at order
  have last := (List.pairwise_cons.mp (List.pairwise_cons.mp order).2).1 _ List.mem_cons_self
  have early := last.2 rfl (createdRow 3 30) (by simp) (createdRow 2 20) (by simp) rfl rfl
  exact absurd early (by decide)

/-- Two tasks of one moment and an older one that is already sent. -/
def sentRows : List (Int × TaskEntity) :=
  [createdRow 1 10, createdRow 2 10, (3, { (createdRow 3 5).2 with status := .sent })]

theorem three_created_in_order : Simultaneous sentRows ∧ InOrder sentRows (executed sentRows) := by
  have same : Simultaneous sentRows := by
    decide
  exact ⟨same, (executed_inOrder_iff (by decide)).mpr same sentRows (List.Perm.refl _)⟩

end Tio.Job
