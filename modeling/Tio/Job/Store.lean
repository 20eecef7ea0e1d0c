import Tio.Job.Types

/-! The database of the job subsystem (`repo.go`) and the transactions that the
management service runs on it (`service.go`). Every operation is one atomic step
on the tables; its reply is what the caller gets to see. -/

namespace Tio.Job

open Tio.Core

/-- The tables. The ids of tasks start at one, and none is given twice. -/
structure Db where
  jobs : List (String × JobEntity)
  tasks : List (Int × TaskEntity)
  nextTaskId : Int
  /-- Whether the dialect hands a deleted row back. -/
  returning : Bool
  positive : 0 < nextTaskId
  given : ∀ row ∈ tasks, 0 < row.1 ∧ row.1 < nextTaskId

def Db.mapTasks (db : Db) (change : Int × TaskEntity → TaskEntity) : Db := { db with
  tasks := db.tasks.map fun row => (row.1, change row)
  given := by
    intro row member
    obtain ⟨old, present, rfl⟩ := List.mem_map.mp member
    exact db.given old present }

def Db.filterTasks (db : Db) (keep : Int × TaskEntity → Bool) : Db := { db with
  tasks := db.tasks.filter keep
  given := fun row member => db.given row (List.mem_filter.mp member).1 }

/-- The columns that one update of a job row sets. -/
structure JobChange where
  status : Option Status
  startedAt : Option Int
  completedAt : Option Int
  forceCanceled : Option Bool
  timeout : Option TimeoutConfig

def JobChange.apply (change : JobChange) (j : JobEntity) : JobEntity := { j with
  status := change.status.getD j.status
  startedAt := change.startedAt.or j.startedAt
  completedAt := change.completedAt.or j.completedAt
  forceCanceled := change.forceCanceled.getD j.forceCanceled
  timeout := change.timeout.or j.timeout }

inductive DbOp where
  | createJob (jobId : String) (j : JobEntity)
  | getJob (jobId : String)
  | updateJob (jobId : String) (change : JobChange)
  | cancelJob (jobId : String) (force : Bool)
  | deleteJob (jobId : String) (force : Bool)
  | pendingJobs
  | pendingTasks (jobIds : List String)
  | createTasks (tasks : List TaskEntity)
  | tasksById (taskIds : List Int)
  | tasksOfJob (jobId : String)
  | countTaskStatus (jobId : String)
  | cancelTasks (jobId : String) (force : Bool)
  | timeOutTask (taskId : Int)
  | reportTask (taskId : Int) (status : TaskStatus)
  | cancelTask (thingId jobId : String) (version : Int) (force : Bool)
  | deleteTask (thingId jobId : String) (taskId : Int) (force : Bool)

inductive Reply where
  | failed
  | done
  | job (row : Option JobEntity)
  | jobs (rows : List (String × JobEntity))
  | taskIds (ids : List Int)
  | tasks (rows : List (Int × TaskEntity))
  | task (row : Int × TaskEntity)
  | statuses (found : List TaskStatus)

def Db.tasksOf (db : Db) (jobId : String) : List (Int × TaskEntity) :=
  db.tasks.filter fun row => row.2.jobId = jobId

/-- The update of all tasks of a job that the condition selects. -/
def Db.cancelTasks (db : Db) (now : Int) (jobId : String) (force : Bool) : Db :=
  db.mapTasks fun row =>
    if row.2.jobId = jobId ∧ (row.2.status = .queued ∨ (force = true ∧ isTaskOngoing row.2.status)) then
      { row.2 with status := .canceled, forceCanceled := force, completedAt := some now }
    else row.2

def Db.updateJob (db : Db) (jobId : String) (change : JobChange) : Db :=
  match Assoc.get jobId db.jobs with
  | some j => { db with jobs := Assoc.set jobId (change.apply j) db.jobs }
  | none => db

def Db.updateTask (db : Db) (taskId : Int) (change : TaskEntity → TaskEntity) : Db :=
  db.mapTasks fun row => if row.1 = taskId then change row.2 else row.2

/-- The transaction of `CancelJob`. -/
def Db.cancelJob (db : Db) (now : Int) (jobId : String) (force : Bool) : Db × Reply :=
  match Assoc.get jobId db.jobs with
  | none => (db, .failed)
  | some j =>
    if isJobToTerminal j.status then (db, .failed)
    else if !force && j.status = .inProgress then (db, .failed)
    else ((db.updateJob jobId ⟨some .canceling, none, none, some force, none⟩).cancelTasks
      now jobId force, .job (some j))

/-- A forced deletion does not ask whether there is a row. The tasks go by the constraint of
the table. Of sqlite, where they go in a statement of their own whose error nobody looks at,
it is assumed that both statements succeed and that nothing comes between them. -/
def Db.deleteJob (db : Db) (jobId : String) (force : Bool) : Db × Reply :=
  let rest : Db := { db.filterTasks fun row => row.2.jobId ≠ jobId with
    jobs := Assoc.erase jobId db.jobs }
  if force then (rest, .job none)
  else match Assoc.get jobId db.jobs with
    | none => (db, .failed)
    | some j =>
      if j.status = .inProgress then (db, .failed)
      else (rest, .job (if db.returning then some j else none))

/-- The ids that the database gives to new rows. -/
def numbered (first : Int) : List TaskEntity → List (Int × TaskEntity)
  | [] => []
  | t :: rest => (first, t) :: numbered (first + 1) rest

theorem numbered_bounds {first : Int} {tasks : List TaskEntity} {row : Int × TaskEntity}
    (member : row ∈ numbered first tasks) : first ≤ row.1 ∧ row.1 < first + tasks.length := by
  induction tasks generalizing first with
  | nil => cases member
  | cons t rest ih =>
    rcases List.mem_cons.mp member with rfl | later
    · simp only [List.length_cons]
      omega
    · have bounds := ih later
      simp only [List.length_cons]
      omega

theorem second_positive : (0 : Int) < 2 := by decide

theorem numbered_given {tasks : List TaskEntity} {next : Int} (enough : 1 + (tasks.length : Int) ≤ next) :
    ∀ row ∈ numbered 1 tasks, 0 < row.1 ∧ row.1 < next := by
  intro row member
  have bounds := numbered_bounds member
  omega

def Db.insertTasks (db : Db) (tasks : List TaskEntity) : Db := { db with
  tasks := db.tasks ++ numbered db.nextTaskId tasks
  nextTaskId := db.nextTaskId + tasks.length
  positive := by
    have positive := db.positive
    omega
  given := by
    have positive := db.positive
    intro row member
    rcases List.mem_append.mp member with old | fresh
    · have bounds := db.given row old
      omega
    · have bounds := numbered_bounds fresh
      omega }

/-- An empty batch is refused. -/
def Db.createTasks (db : Db) (tasks : List TaskEntity) : Db × Reply :=
  if tasks.isEmpty then (db, .failed)
  else (db.insertTasks tasks, .taskIds ((numbered db.nextTaskId tasks).map Prod.fst))

/-- The row that comes first by the time of its creation. -/
def firstCreated : List (Int × TaskEntity) → Option (Int × TaskEntity)
  | [] => none
  | row :: rest =>
    match firstCreated rest with
    | some other => if other.2.createdAt < row.2.createdAt then some other else some row
    | none => some row

/-- The transaction of `CancelTask`; an empty id does not narrow the query. -/
def Db.cancelTask (db : Db) (now : Int) (thingId jobId : String) (version : Int) (force : Bool) :
    Db × Reply :=
  match firstCreated (db.tasks.filter fun row =>
    (jobId = "" || row.2.jobId = jobId) && (thingId = "" || row.2.thingId = thingId)) with
  | none => (db, .failed)
  | some (taskId, t) =>
    if isTaskTerminal t.status then (db, .failed)
    else if !force && t.status = .inProgress then (db, .failed)
    else if 0 < version && t.version ≠ version then (db, .failed)
    else (db.updateTask taskId fun t => { t with
      status := .canceled
      forceCanceled := force
      completedAt := some now }, .task (taskId, t))

/-- The row that comes first by its id. -/
def firstNumbered : List (Int × TaskEntity) → Option (Int × TaskEntity)
  | [] => none
  | row :: rest =>
    match firstNumbered rest with
    | some other => if other.1 < row.1 then some other else some row
    | none => some row

/-- The zero id does not narrow the query. -/
def Db.getTask (db : Db) (taskId : Int) : Option (Int × TaskEntity) :=
  firstNumbered (db.tasks.filter fun row => taskId = 0 || row.1 = taskId)

/-- The transaction of `DeleteTask`. -/
def Db.deleteTask (db : Db) (thingId jobId : String) (taskId : Int) (force : Bool) : Db × Reply :=
  match db.getTask taskId with
  | none => (db, .failed)
  | some (taskId, t) =>
    if t.thingId ≠ thingId then (db, .failed)
    else if t.jobId ≠ jobId then (db, .failed)
    else if !force && t.status = .inProgress then (db, .failed)
    else (db.filterTasks fun row => row.1 ≠ taskId, .task (taskId, t))

/-- The transaction of `updateTaskStatus`. It asks the status that it read, not
the one it writes, whether the task is completed. -/
def Db.reportTask (db : Db) (now taskId : Int) (status : TaskStatus) : Db × Reply :=
  match db.getTask taskId with
  | none => (db, .failed)
  | some (_, t) =>
    if isTaskTerminal t.status then (db, .failed)
    else (db.updateTask taskId fun t => { t with
      status := status
      completedAt := if isTaskTerminal t.status then some now else t.completedAt }, .done)

def isPending : Status → Bool
  | .waiting | .inProgress | .canceling | .removing => true
  | _ => false

def isTaskPending : TaskStatus → Bool
  | .queued | .sent | .inProgress => true
  | _ => false

def DbOp.exec (now : Int) (db : Db) : DbOp → Db × Reply
  | .createJob jobId j =>
    match Assoc.get jobId db.jobs with
    | some _ => (db, .failed)
    | none => ({ db with jobs := Assoc.set jobId j db.jobs }, .done)
  | .getJob jobId => (db, .job (Assoc.get jobId db.jobs))
  | .updateJob jobId change => (db.updateJob jobId change, .done)
  | .cancelJob jobId force => db.cancelJob now jobId force
  | .deleteJob jobId force => db.deleteJob jobId force
  | .pendingJobs => (db, .jobs (db.jobs.filter fun row => isPending row.2.status))
  | .pendingTasks jobIds => (db, .tasks (db.tasks.filter fun row =>
      row.2.jobId ∈ jobIds && isTaskPending row.2.status))
  | .createTasks tasks => db.createTasks tasks
  | .tasksById taskIds => (db, .tasks (db.tasks.filter fun row => row.1 ∈ taskIds))
  | .tasksOfJob jobId => (db, .tasks ((db.tasksOf jobId).filter fun row => isTaskOngoing row.2.status))
  | .countTaskStatus jobId => (db, .statuses ((db.tasksOf jobId).map fun row => row.2.status).eraseDups)
  | .cancelTasks jobId force => (db.cancelTasks now jobId force, .done)
  | .timeOutTask taskId => (db.updateTask taskId fun t => { t with
      status := .timedOut
      completedAt := some now }, .done)
  | .reportTask taskId status => db.reportTask now taskId status
  | .cancelTask thingId jobId version force => db.cancelTask now thingId jobId version force
  | .deleteTask thingId jobId taskId force => db.deleteTask thingId jobId taskId force

end Tio.Job
