import Tio.Job.Quiet

namespace Tio.Job

open Tio.Core

/-- The things that the stored tasks of a job are for. -/
def Db.thingsOf (db : Db) (jobId : String) : List String :=
  (db.tasksOf jobId).map fun row => row.2.thingId

/-- The ids of the stored tasks of a job, each with its thing. -/
def Db.entriesOf (db : Db) (jobId : String) : List (Int × String) :=
  (db.tasksOf jobId).map fun row => (row.1, row.2.thingId)

/-- There is a task for every entry of the target of the job. -/
def TasksStored (jobId : String) (j : JobEntity) (db : Db) : Prop :=
  j.things.Sublist (db.thingsOf jobId)

instance (jobId : String) (j : JobEntity) (db : Db) : Decidable (TasksStored jobId j db) :=
  inferInstanceAs (Decidable (j.things.Sublist (db.thingsOf jobId)))

/-- Every stored task of the job is over. -/
def AllOver (jobId : String) (db : Db) : Prop :=
  ∀ row ∈ db.tasks, row.2.jobId = jobId → isTaskTerminal row.2.status = true

def DbOp.deletesTask : DbOp → Bool
  | .deleteTask .. => true
  | _ => false

def Request.deletesTask : Request → Bool
  | .deleteTask .. => true
  | _ => false

/-- No task is deleted on its own. -/
def Undeleted (m : Memory) : Prop := ∀ call ∈ m.calls, call.request.deletesTask = false

section

variable {now : Int} {db : Db} {op : DbOp} {jobId : String}

theorem sublist_of_eq {α : Type} {xs ys : List α} (same : xs = ys) : xs.Sublist ys :=
  same ▸ List.Sublist.refl xs

theorem thingsOf_eq (db : Db) (jobId : String) :
    db.thingsOf jobId = (db.entriesOf jobId).map Prod.snd := by
  simp [Db.thingsOf, Db.entriesOf]

theorem mem_entriesOf {row : Int × TaskEntity} (member : row ∈ db.tasks) (here : row.2.jobId = jobId) :
    (row.1, row.2.thingId) ∈ db.entriesOf jobId :=
  List.mem_map.mpr ⟨row, List.mem_filter.mpr ⟨member, by simp [here]⟩, rfl⟩

theorem of_mem_entriesOf {entry : Int × String} (member : entry ∈ db.entriesOf jobId) :
    ∃ row ∈ db.tasks, row.1 = entry.1 ∧ row.2.jobId = jobId := by
  obtain ⟨row, selected, rfl⟩ := List.mem_map.mp member
  obtain ⟨present, here⟩ := List.mem_filter.mp selected
  exact ⟨row, present, rfl, of_decide_eq_true here⟩

theorem entriesOf_mapTasks {change : Int × TaskEntity → TaskEntity}
    (keeps : ∀ row, (change row).jobId = row.2.jobId ∧ (change row).thingId = row.2.thingId) :
    (db.mapTasks change).entriesOf jobId = db.entriesOf jobId := by
  simp only [Db.entriesOf, Db.tasksOf, Db.mapTasks]
  rw [List.filter_map, List.map_map]
  simp only [Function.comp_def, fun row => (keeps row).1, fun row => (keeps row).2]

theorem entriesOf_updateTask {taskId : Int} {change : TaskEntity → TaskEntity}
    (keeps : ∀ t, (change t).jobId = t.jobId ∧ (change t).thingId = t.thingId) :
    (db.updateTask taskId change).entriesOf jobId = db.entriesOf jobId := by
  refine entriesOf_mapTasks fun row => ?_
  split
  · exact keeps row.2
  · exact ⟨rfl, rfl⟩

theorem entriesOf_cancelTasks (now : Int) (other : String) (force : Bool) :
    (db.cancelTasks now other force).entriesOf jobId = db.entriesOf jobId := by
  refine entriesOf_mapTasks fun row => ?_
  split <;> exact ⟨rfl, rfl⟩

theorem entriesOf_insertTasks (tasks : List TaskEntity) :
    (db.entriesOf jobId).Sublist ((db.insertTasks tasks).entriesOf jobId) := by
  simp only [Db.entriesOf, Db.tasksOf, Db.insertTasks, List.filter_append, List.map_append]
  exact List.sublist_append_left _ _

/-- The deletion of another job leaves the tasks of this one. -/
theorem entriesOf_others {other : String} (apart : other ≠ jobId) :
    (db.filterTasks fun row => row.2.jobId ≠ other).entriesOf jobId = db.entriesOf jobId := by
  simp only [Db.entriesOf, Db.tasksOf, Db.filterTasks, List.filter_filter]
  congr 1
  refine List.filter_congr fun row _ => ?_
  by_cases here : row.2.jobId = jobId
  · simp [here, apart.symm]
  · simp [here]

/-- As long as the job is stored its tasks are, unless they are deleted one by one. -/
theorem entriesOf_exec (keeps : op.deletesTask = false) {j' : JobEntity}
    (stored' : Assoc.get jobId (op.exec now db).1.jobs = some j') :
    (db.entriesOf jobId).Sublist ((op.exec now db).1.entriesOf jobId) := by
  cases op with
  | createTasks tasks =>
    rw [DbOp.exec, Db.createTasks]
    split
    · exact List.Sublist.refl _
    · exact entriesOf_insertTasks tasks
  | createJob other j =>
    rw [DbOp.exec]
    split <;> exact List.Sublist.refl _
  | updateJob other change =>
    rw [DbOp.exec, Db.updateJob]
    split <;> exact List.Sublist.refl _
  | cancelJob other force =>
    rw [DbOp.exec, Db.cancelJob]
    split
    · exact List.Sublist.refl _
    · split
      · exact List.Sublist.refl _
      · split
        · exact List.Sublist.refl _
        · rw [entriesOf_cancelTasks, Db.updateJob]
          split <;> exact List.Sublist.refl _
  | deleteJob other force =>
    by_cases named : other = jobId
    · subst named
      rw [DbOp.exec, Db.deleteJob] at stored' ⊢
      split at stored'
      · simp at stored'
      · split at stored'
        · simp_all
        · split at stored'
          · simp_all
          · simp at stored'
    · have others : db.entriesOf jobId = _ := (entriesOf_others named).symm
      rw [DbOp.exec, Db.deleteJob]
      split
      · exact sublist_of_eq others
      · split
        · exact List.Sublist.refl _
        · split
          · exact List.Sublist.refl _
          · exact sublist_of_eq others
  | cancelTasks other force => exact sublist_of_eq (entriesOf_cancelTasks now other force).symm
  | timeOutTask taskId =>
    exact sublist_of_eq (entriesOf_updateTask (by simp)).symm
  | reportTask taskId status =>
    rw [DbOp.exec, Db.reportTask]
    split
    · exact List.Sublist.refl _
    · split
      · exact List.Sublist.refl _
      · exact sublist_of_eq (entriesOf_updateTask (by simp)).symm
  | cancelTask thingId other version force =>
    rw [DbOp.exec, Db.cancelTask]
    split
    · exact List.Sublist.refl _
    · repeat' split
      all_goals first
        | exact List.Sublist.refl _
        | exact sublist_of_eq (entriesOf_updateTask (by simp)).symm
  | deleteTask => cases keeps
  | _ => exact List.Sublist.refl _

/-- The task rows of a job stay as long as the job does. -/
theorem rows_stay (keeps : op.deletesTask = false) {row : Int × TaskEntity} {j' : JobEntity}
    (member : row ∈ db.tasks) (stored' : Assoc.get row.2.jobId (op.exec now db).1.jobs = some j') :
    ∃ row' ∈ (op.exec now db).1.tasks, row'.1 = row.1 := by
  have kept := (entriesOf_exec keeps stored').subset (mem_entriesOf member rfl)
  obtain ⟨row', present, same, -⟩ := of_mem_entriesOf kept
  exact ⟨row', present, same⟩

theorem tasksStored_exec {j : JobEntity} (keeps : op.deletesTask = false) (stored : TasksStored jobId j db)
    {j' : JobEntity} (stored' : Assoc.get jobId (op.exec now db).1.jobs = some j')
    (things : j'.things = j.things) : TasksStored jobId j' (op.exec now db).1 := by
  have kept := (entriesOf_exec keeps stored').map Prod.snd
  rw [← thingsOf_eq, ← thingsOf_eq] at kept
  rw [TasksStored, things]
  exact stored.trans kept

theorem allOver_exec (keyed : Keyed db) (settled : AllOver jobId db)
    (others : ∀ tasks, op = .createTasks tasks → ∀ t ∈ tasks, t.jobId ≠ jobId) :
    AllOver jobId (op.exec now db).1 := by
  intro row member here
  cases tasksAfter_exec keyed now op with
  | same _ tasks => exact settled row (tasks ▸ member) here
  | canceled _ force chosen going tasks =>
    rw [tasks] at member
    obtain ⟨old, present, rfl⟩ := List.mem_map.mp member
    dsimp only at here ⊢
    split
    · rfl
    · rename_i kept
      rw [if_neg kept] at here
      exact settled old present here
  | timedOut taskId tasks =>
    rw [tasks] at member
    obtain ⟨old, present, rfl⟩ := List.mem_map.mp member
    dsimp only at here ⊢
    split
    · rfl
    · rename_i kept
      rw [if_neg kept] at here
      exact settled old present here
  | reported taskId status going tasks =>
    rw [tasks] at member
    obtain ⟨old, present, rfl⟩ := List.mem_map.mp member
    dsimp only at here ⊢
    split
    · rename_i named
      rw [if_pos named] at here
      have ended := settled old present here
      rw [going old present named] at ended
      cases ended
    · rename_i kept
      rw [if_neg kept] at here
      exact settled old present here
  | deleted _ keep tasks =>
    rw [tasks] at member
    exact settled row (List.mem_filter.mp member).1 here
  | created fresh tasks =>
    rw [tasks] at member
    rcases List.mem_append.mp member with old | new
    · exact settled row old here
    · exact absurd here (others fresh rfl row.2 (mem_of_numbered new))

end

section

variable {s s' : State} {a : Action} {jobId : String}

theorem op_of_undeleted {now : Int} {m : Memory} {op : DbOp} (undeleted : Undeleted m)
    (sent : Requests now m a op) : op.deletesTask = false := by
  cases sent with
  | deleteTask ok k thingId jobId taskId force here =>
    exact undeleted _ (List.mem_of_getElem? here)
  | preload _ _ _ _ _ _ finishes | drained _ _ _ _ _ _ _ finishes | checked _ _ _ _ _ _ finishes =>
    cases finishes <;> rfl
  | _ => rfl

theorem undeleted_step {now : Int} {m m' : Memory} {reply : Reply} (undeleted : Undeleted m)
    (taken : resume now m reply a = some m') (other : ∀ r, a = .call r → r.deletesTask = false) :
    Undeleted m' := by
  intro call member
  obtain ⟨k, found⟩ := List.getElem?_of_mem member
  cases resume_calls taken found with
  | before _ _ _ here => exact undeleted call (List.mem_of_getElem? here)
  | started r => exact other r rfl
  | updated => rfl
  | removed _ r operation _ _ here =>
    exact undeleted ⟨r, .sendRemove operation⟩ (List.mem_of_getElem? here)
  | served _ _ old _ here => exact undeleted old (List.mem_of_getElem? here)

theorem rows_stay_step {j' : JobEntity} {row : Int × TaskEntity} (undeleted : Undeleted s.memory)
    (taken : step s a = some s') (member : row ∈ s.db.tasks)
    (stored' : Assoc.get row.2.jobId s'.db.jobs = some j') : ∃ row' ∈ s'.db.tasks, row'.1 = row.1 := by
  rcases step_db taken with ⟨same, -⟩ | ⟨op, requested, -, same⟩
  · exact ⟨row, same ▸ member, rfl⟩
  · rw [same] at stored' ⊢
    exact rows_stay (op_of_undeleted undeleted (requests_of_request requested)) member stored'

theorem tasksStored_step {j j' : JobEntity} (undeleted : Undeleted s.memory)
    (taken : step s a = some s') (stored : TasksStored jobId j s.db)
    (stored' : Assoc.get jobId s'.db.jobs = some j') (things : j'.things = j.things) :
    TasksStored jobId j' s'.db := by
  rcases step_db taken with ⟨same, -⟩ | ⟨op, requested, -, same⟩
  · rw [same, TasksStored, things]
    exact stored
  · rw [same] at stored' ⊢
    exact tasksStored_exec (op_of_undeleted undeleted (requests_of_request requested)) stored stored' things

/-- A job whose tasks are all over gets tasks only from its creation. -/
theorem allOver_step (keyed : Keyed s.db) (taken : step s a = some s') (settled : AllOver jobId s.db)
    (others : ∀ (k : Nat) (context : JobContext) (things : List String),
      s.memory.closures[k]? = some (.submitted (.createJob context things)) → context.jobId ≠ jobId) :
    AllOver jobId s'.db := by
  rcases step_db taken with ⟨same, -⟩ | ⟨op, requested, -, same⟩
  · rwa [same]
  · rw [same]
    refine allOver_exec keyed settled ?_
    rintro tasks rfl t member
    obtain ⟨ok, k, context, things, -, here, rfl⟩ := request_createTasks requested
    obtain ⟨thing, -, rfl⟩ := List.mem_map.mp member
    exact others k context things here

/-- What a creation stores. -/
theorem step_of_stores (taken : step s a = some s') (stores : Stores jobId s.memory (access s a).2 a) :
    ∃ (k : Nat) (ok : Bool) (context : JobContext) (things : List String), a = .run k ok ∧
      s.memory.closures[k]? = some (.submitted (.createJob context things)) ∧ context.jobId = jobId ∧
      things ≠ [] ∧
      s'.db = s.db.insertTasks (toTaskEntities s.clock context.jobId context.operation things) ∧
      (access s a).2 = .taskIds ((numbered s.db.nextTaskId
        (toTaskEntities s.clock context.jobId context.operation things)).map Prod.fst) := by
  obtain ⟨k, ok, context, things, ids, rfl, here, named, replied⟩ := stores
  obtain ⟨op, sent, answered, exec⟩ :=
    replied_of_ne_failed (s := s) (a := .run k ok) (by simp [replied])
  rw [replied] at exec
  obtain ⟨tasks, rfl, rfl, db⟩ := exec_taskIds_reply exec
  obtain ⟨ok', k', context', things', same, here', rfl⟩ := request_createTasks (request_of_requests sent)
  cases same
  rw [here] at here'
  cases here'
  refine ⟨k, ok, context, things, rfl, here, named, ?_, ?_, replied⟩
  · rintro rfl
    cases exec
  · rcases step_db taken with ⟨-, silent⟩ | ⟨op, requested, -, after⟩
    · rw [silent _ (request_of_requests sent)] at answered
      cases answered
    · rw [request_of_requests sent] at requested
      cases requested
      rw [after, db]

theorem thingsOf_created (db : Db) (now : Int) (jobId operation : String) (things : List String) :
    (db.insertTasks (toTaskEntities now jobId operation things)).thingsOf jobId =
      db.thingsOf jobId ++ things := by
  have fresh : ∀ (first : Int) (things : List String),
      ((numbered first (toTaskEntities now jobId operation things)).filter fun row =>
        row.2.jobId = jobId).map (fun row => row.2.thingId) = things := by
    intro first things
    induction things generalizing first with
    | nil => rfl
    | cons thing rest ih =>
      have later := ih (first + 1)
      simp only [toTaskEntities, List.map_cons, numbered] at later ⊢
      simpa using later
  simp only [Db.thingsOf, Db.tasksOf, Db.insertTasks, List.filter_append, List.map_append]
  rw [fresh]

end

end Tio.Job
