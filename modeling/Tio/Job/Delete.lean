import Tio.Job.Priority
import Tio.Job.System

namespace Tio.Job

open Tio.Core TaskQueue

/-- The tasks that wait in the runner. -/
structure Backlog where
  curQ : TaskQueue
  valid : Valid curQ
  offlineThingTasks : List (String × List Task)

theorem valid_removeById (taskId : Int) {q : TaskQueue} (valid : Valid q) : Valid (removeById taskId q) := by
  refine ⟨indexed_removeById taskId valid.indexed, ?_⟩
  rw [removeById]
  cases named : q.find? fun item => item.task.taskId = taskId with
  | none => exact valid.heap
  | some item =>
    obtain ⟨index, found⟩ := List.getElem?_of_mem (List.mem_of_find?_eq_some named)
    dsimp only
    rw [valid.indexed index item found]
    exact isHeap_remove valid.heap (List.getElem?_eq_some_iff.mp found).1

theorem valid_removeIds (ids : List Int) {q : TaskQueue} (valid : Valid q) : Valid (removeIds ids q) := by
  induction ids generalizing q with
  | nil => exact valid
  | cons id rest ih => exact ih (valid_removeById id valid)

namespace Backlog

/-- The tasks that wait for a thing. -/
def tasksOf (thingId : String) (b : Backlog) : List Task := (Assoc.get thingId b.offlineThingTasks).getD []

def delete (msg : DeleteTaskMsg) (b : Backlog) : Backlog :=
  if msg.tasks ≠ [] then {
    curQ := removeIds msg.tasks b.curQ
    valid := valid_removeIds msg.tasks b.valid
    offlineThingTasks := b.offlineThingTasks.map fun (thingId, v) => (thingId, rebuilt msg.tasks v) }
  else if msg.jobId ≠ "" then
    let l := (getTasks b.curQ).filter fun t => t.jobId = msg.jobId
    { curQ := removeIds (l.map Task.taskId) b.curQ
      valid := valid_removeIds (l.map Task.taskId) b.valid
      offlineThingTasks := b.offlineThingTasks.map fun (thingId, v) =>
        (thingId, v.filter fun t => t.jobId ≠ msg.jobId) }
  else b

end Backlog

/-- Exactly the tasks that the message names are gone, and the others are where they were. -/
def Deleted (msg : DeleteTaskMsg) (before after : Backlog) : Prop :=
  (getTasks after.curQ).Perm ((getTasks before.curQ).filter fun t => ¬ msg.Names t) ∧
    ∀ thingId, after.tasksOf thingId = (before.tasksOf thingId).filter fun t => ¬ msg.Names t

/-- How many of the tasks have the id. -/
def countId (id : Int) (tasks : List Task) : Nat := tasks.countP fun t => t.taskId = id

theorem countId_cons (id : Int) (t : Task) (tasks : List Task) :
    countId id (t :: tasks) = countId id tasks + if t.taskId = id then 1 else 0 := by
  simp [countId, List.countP_cons]

theorem countId_eq_zero_iff {id : Int} {tasks : List Task} : countId id tasks = 0 ↔ ∀ t ∈ tasks, t.taskId ≠ id := by
  simp [countId, List.countP_eq_zero]

/-- Every id of the list takes one task out, as long as there is one. -/
theorem countId_removeIds (ids : List Int) {q : TaskQueue} (indexed : Indexed q) (id : Int) :
    countId id (getTasks (removeIds ids q)) = countId id (getTasks q) - ids.count id := by
  induction ids generalizing q with
  | nil => rfl
  | cons other rest ih =>
    have later := ih (indexed_removeById other indexed)
    rw [removeIds, List.foldl_cons]
    refine later.trans ?_
    rw [List.count_cons]
    rcases removeById_perm other indexed with ⟨absent, same⟩ | ⟨u, here, removed⟩
    · rw [same]
      by_cases equal : other = id
      · rw [countId_eq_zero_iff.mpr (equal ▸ absent), Nat.zero_sub, Nat.zero_sub]
      · simp [equal]
    · have counted : countId id (getTasks q) = countId id (u :: getTasks (removeById other q)) :=
        removed.countP_eq _
      rw [counted, countId_cons, here]
      by_cases equal : other = id
      · simp only [equal, if_true, beq_self_eq_true]
        omega
      · simp [equal]

/-- Removing by ids leaves the tasks that no id names exactly when no id stands for more
tasks than it is given times. -/
theorem removeIds_perm_iff (ids : List Int) {q : TaskQueue} (indexed : Indexed q) :
    (getTasks (removeIds ids q)).Perm ((getTasks q).filter fun t => t.taskId ∉ ids) ↔
      ∀ id ∈ ids, countId id (getTasks q) ≤ ids.count id := by
  constructor
  · intro perm id member
    have none_left : countId id (getTasks (removeIds ids q)) = 0 := by
      refine countId_eq_zero_iff.mpr fun t present same => ?_
      have unnamed := of_decide_eq_true (List.mem_filter.mp (perm.mem_iff.mp present)).2
      exact unnamed (same ▸ member)
    rw [countId_removeIds ids indexed] at none_left
    exact Nat.le_of_sub_eq_zero none_left
  · intro enough
    obtain ⟨gone, perm, named⟩ := removeIds_perm ids indexed
    have kept : ∀ t ∈ getTasks (removeIds ids q), t.taskId ∉ ids := by
      intro t present member
      have none_left := countId_removeIds ids indexed t.taskId
      rw [Nat.sub_eq_zero_of_le (enough t.taskId member)] at none_left
      exact countId_eq_zero_iff.mp none_left t present rfl
    have all : (getTasks (removeIds ids q)).filter (fun t => t.taskId ∉ ids) = getTasks (removeIds ids q) :=
      List.filter_eq_self.mpr fun t present => decide_eq_true (kept t present)
    have nothing : gone.filter (fun t => t.taskId ∉ ids) = [] :=
      List.filter_eq_nil_iff.mpr fun t present => by simpa using named t present
    have split := perm.filter fun t => decide (t.taskId ∉ ids)
    rw [List.filter_append, all, nothing, List.append_nil] at split
    exact split.symm

namespace Backlog

theorem tasksOf_map (b : Backlog) (f : List Task → List Task) (empty : f [] = []) (thingId : String) :
    (Assoc.get thingId (b.offlineThingTasks.map fun (thingId, v) => (thingId, f v))).getD [] =
      f (b.tasksOf thingId) := by
  rw [tasksOf]
  induction b.offlineThingTasks with
  | nil => exact empty.symm
  | cons entry rest ih =>
    rw [List.map_cons, Assoc.get_cons, Assoc.get_cons]
    split
    · rfl
    · exact ih

end Backlog

/-- Each id of the message stands for at most as many tasks of the queue as it is given
times, and for none of a thing that is offline; without ids, no task of another job in the
queue has the id of one of the job. -/
def Reaches (msg : DeleteTaskMsg) (b : Backlog) : Prop :=
  if msg.tasks ≠ [] then
    (∀ id ∈ msg.tasks, countId id (getTasks b.curQ) ≤ msg.tasks.count id) ∧
      ∀ thingId, ∀ t ∈ b.tasksOf thingId, t.taskId ∉ msg.tasks
  else msg.jobId ≠ "" →
    ∀ t ∈ getTasks b.curQ, ∀ u ∈ getTasks b.curQ, t.jobId = msg.jobId → u.taskId = t.taskId → u.jobId = msg.jobId

section

variable {msg : DeleteTaskMsg} (b : Backlog)

/-- With ids, the message is carried out exactly when they reach all their tasks. -/
theorem deleted_ids_iff (ids : msg.tasks ≠ []) : Deleted msg b (b.delete msg) ↔ Reaches msg b := by
  have names : ∀ t, msg.Names t ↔ t.taskId ∈ msg.tasks := fun t => by rw [DeleteTaskMsg.Names, if_pos ids]
  have offline : ∀ thingId, (b.delete msg).tasksOf thingId = b.tasksOf thingId := by
    intro thingId
    rw [Backlog.delete, if_pos ids]
    exact (b.tasksOf_map (rebuilt msg.tasks) rfl thingId).trans (rebuilt_eq msg.tasks _)
  have queue : (b.delete msg).curQ = removeIds msg.tasks b.curQ := by
    rw [Backlog.delete, if_pos ids]
  rw [Deleted, Reaches, if_pos ids, queue]
  simp only [names, offline]
  refine and_congr (removeIds_perm_iff msg.tasks b.valid.indexed) (forall_congr' fun thingId => ?_)
  rw [eq_comm, List.filter_eq_self]
  simp only [decide_eq_true_eq]

/-- The ids of the tasks of a job, one for each of its tasks in the queue. -/
theorem count_snapshot (jobId : String) (tasks : List Task) (id : Int)
    (own : ∀ u ∈ tasks, u.taskId = id → u.jobId = jobId) :
    countId id tasks = ((tasks.filter fun t => t.jobId = jobId).map Task.taskId).count id := by
  rw [countId, List.count, List.countP_map, List.countP_filter]
  refine List.countP_congr fun t present => ?_
  simp only [Function.comp_apply, decide_eq_true_eq, Bool.and_eq_true, beq_iff_eq]
  exact ⟨fun same => ⟨same, own t present same⟩, fun both => both.1⟩

/-- The ids of the tasks of a job take all of them out of the queue, as long as no task of
another job has one of them. -/
theorem removed_job (jobId : String) {q : TaskQueue} (indexed : Indexed q)
    (own : ∀ t ∈ getTasks q, ∀ u ∈ getTasks q, t.jobId = jobId → u.taskId = t.taskId → u.jobId = jobId) :
    (getTasks (removeIds (((getTasks q).filter fun t => t.jobId = jobId).map Task.taskId) q)).Perm
      ((getTasks q).filter fun t => t.jobId ≠ jobId) := by
  have members : ∀ id, id ∈ ((getTasks q).filter fun t => t.jobId = jobId).map Task.taskId ↔
      ∃ t ∈ getTasks q, t.jobId = jobId ∧ t.taskId = id := by
    intro id
    simp [and_assoc]
  have removed := (removeIds_perm_iff _ indexed).mpr fun id member => by
    obtain ⟨t, present, named, same⟩ := (members id).mp member
    exact Nat.le_of_eq (count_snapshot jobId (getTasks q) id
      fun u present' equal => own t present u present' named (equal.trans same.symm))
  refine removed.trans (.of_eq (List.filter_congr fun t present => ?_))
  rw [decide_eq_decide, members, not_iff_not]
  constructor
  · rintro ⟨u, present', named, same⟩
    exact own u present' t present named same.symm
  · intro named
    exact ⟨t, present, named, rfl⟩

/-- Without ids, the message is carried out when the ids of the job are its own. -/
theorem deleted_job (ids : msg.tasks = []) (reaches : Reaches msg b) : Deleted msg b (b.delete msg) := by
  have none_given : ¬ msg.tasks ≠ [] := not_not.mpr ids
  rw [Reaches, if_neg none_given] at reaches
  by_cases empty : msg.jobId = ""
  · have names : ∀ t, ¬ msg.Names t := fun t named => by
      rw [DeleteTaskMsg.Names, if_neg none_given] at named
      exact named.1 empty
    rw [Backlog.delete, if_neg none_given, if_neg (not_not.mpr empty), Deleted]
    simp [names]
  · have names : ∀ t, msg.Names t ↔ t.jobId = msg.jobId := fun t => by
      rw [DeleteTaskMsg.Names, if_neg none_given, and_iff_right empty]
    have own := reaches empty
    rw [Backlog.delete, if_neg none_given, if_pos empty, Deleted]
    simp only [names]
    constructor
    · exact removed_job msg.jobId b.valid.indexed own
    · intro thingId
      exact b.tasksOf_map (fun v => v.filter fun t => t.jobId ≠ msg.jobId) rfl thingId

end

/-- A task id stands for tasks of one job, as it does in the table of the tasks. -/
def IdsNameJobs (b : Backlog) : Prop :=
  ∀ t ∈ getTasks b.curQ, ∀ u ∈ getTasks b.curQ, u.taskId = t.taskId → u.jobId = t.jobId

/-- A message that reaches what it names deletes exactly that; and no other message does,
when it gives ids or when an id stands for tasks of one job. -/
theorem tasks_deleted_iff (msg : DeleteTaskMsg) (b : Backlog) :
    (Reaches msg b → Deleted msg b (b.delete msg)) ∧
      (msg.tasks ≠ [] ∨ IdsNameJobs b → (Deleted msg b (b.delete msg) ↔ Reaches msg b)) := by
  by_cases ids : msg.tasks = []
  · refine ⟨deleted_job b ids, fun either => ⟨fun _ => ?_, deleted_job b ids⟩⟩
    have own := either.resolve_left (not_not.mpr ids)
    rw [Reaches, if_neg (not_not.mpr ids)]
    exact fun _ t present u present' named same => (own t present u present' same).trans named
  · exact ⟨(deleted_ids_iff b ids).mpr, fun _ => deleted_ids_iff b ids⟩

/-- A task that waits for its thing stays when it is deleted by its id. -/
theorem offline_task_stays : ¬ ∀ (msg : DeleteTaskMsg) (b : Backlog), Deleted msg b (b.delete msg) := by
  intro deleted
  have lists := (deleted ⟨"", [7]⟩ ⟨[], valid_nil, [("lamp", [⟨"lights", 7, "lamp", "turnOn", .queued, none, 0⟩])]⟩).2
  exact absurd (lists "lamp") (by decide)

/-- The runner's step on the message. -/
theorem deleteTask_eq (m : Memory) (valid : Valid m.curQ) (msg : DeleteTaskMsg) :
    let b := Backlog.delete msg ⟨m.curQ, valid, m.offlineThingTasks⟩
    (m.deleteTask msg).curQ = b.curQ ∧ (m.deleteTask msg).offlineThingTasks = b.offlineThingTasks := by
  dsimp only
  rw [Memory.deleteTask, Backlog.delete]
  split
  · exact ⟨rfl, rfl⟩
  · split <;> exact ⟨rfl, rfl⟩

end Tio.Job
