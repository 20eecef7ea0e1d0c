import Tio.Job.Pending
import Tio.Job.Queue
import Tio.Job.Store

/-! The goroutines of the job subsystem. Every goroutine is a program counter with
the locals it still needs, and stops in front of each operation on something that
another goroutine can touch: the database, a channel, the context map, a pool. -/

namespace Tio.Job

/-- `rolloutLoop` with the filters it calls, and `preloadPendingJobs` before it.
The index `i` and the length `l` are those of the schedule loop. -/
inductive RolloutPc where
  | loadJobs
  | loadTasks (jobs : List (String × JobEntity))
  | preload (jobs : List (String × JobEntity × List Task))
  | select
  | schedule (i l : Nat)
  | drain (i l : Nat)
  | finish (i l : Nat)
  | clear (i l : Nat)
  | outOfTime (i l : Nat)
  | endSend (i l : Nat)
  | endTasks (i l : Nat)
  | endJob (i l : Nat) (ok : Bool)
  | reload (i l : Nat)
  | timeout (i l : Nat) (tasks remain : List Task)
  | publish (i l : Nat)
  | put (i l : Nat) (rolloutTasks : List Task)
  | rolled (i l count : Nat)

/-- `Start` returned. The program serves requests only after that (`main.go`). -/
def RolloutPc.started : RolloutPc → Bool
  | .loadJobs | .loadTasks _ | .preload _ => false
  | _ => true

/-- `Center.watchTaskChangeLoop`, with the jobs that the tick still has to check. -/
inductive WatchPc where
  | select
  | count (todo : List String)
  | getJob (jobId : String) (todo : List String)
  | finish (jobId : String) (status : Status) (todo : List String)
  | forget (jobId : String) (todo : List String)
  | sendRemove (jobId : String) (todo : List String)

/-- `sysOpTaskLoop`; `c` counts the tasks that this turn has popped. -/
inductive SysOpPc where
  | select
  | pop (c : Nat)
  | submit (c : Nat) (t : Task)
  | sendSent (c : Nat) (t : Task)

structure TaskChangeMsg where
  task : Task
  status : TaskStatus

/-- `Runner.watchTaskChangeLoop`. -/
inductive ChangePc where
  | select
  | update (msg : TaskChangeMsg)
  | send (msg : TaskChangeMsg)

inductive WorkerPc where
  | running
  | sendResult (status : TaskStatus)
  | finished

/-- An action in the pool of the runner. -/
structure Worker where
  task : Task
  pc : WorkerPc

/-- Tasks are named by their job only when no ids are given. -/
structure DeleteTaskMsg where
  jobId : String
  tasks : List Int

namespace DeleteTaskMsg

/-- The message of `DeleteTaskOfJob` and `CancelTaskOfJob`. -/
abbrev job (jobId : String) : DeleteTaskMsg := ⟨jobId, []⟩

/-- The message of `DeleteTask` and `CancelTask`. -/
abbrev task (taskId : Int) : DeleteTaskMsg := ⟨"", [taskId]⟩

/-- The message names the task. -/
def Names (msg : DeleteTaskMsg) (t : Task) : Prop :=
  if msg.tasks ≠ [] then t.taskId ∈ msg.tasks else msg.jobId ≠ "" ∧ t.jobId = msg.jobId

instance (msg : DeleteTaskMsg) : DecidablePred msg.Names := fun t =>
  inferInstanceAs (Decidable (if msg.tasks ≠ [] then t.taskId ∈ msg.tasks else msg.jobId ≠ "" ∧ t.jobId = msg.jobId))

theorem names_job (jobId : String) (t : Task) : (job jobId).Names t ↔ jobId ≠ "" ∧ t.jobId = jobId := by
  simp [Names]

end DeleteTaskMsg

/-- The rebuilt list of an offline thing. The `break` leaves only the loop over the ids,
so that the task is appended whether the loop finds its id or not. -/
def rebuilt (ids : List Int) (v : List Task) : List Task :=
  v.foldl (fun vn t => match ids.find? fun id => t.taskId = id with
    | some _ => vn ++ [t]
    | none => vn ++ [t]) []

theorem rebuilt_eq (ids : List Int) (v : List Task) : rebuilt ids v = v := by
  have appended : ∀ front : List Task, v.foldl (fun vn t => match ids.find? fun id => t.taskId = id with
      | some _ => vn ++ [t]
      | none => vn ++ [t]) front = front ++ v := by
    induction v with
    | nil => exact fun front => (List.append_nil front).symm
    | cons t rest ih =>
      intro front
      rw [List.foldl_cons, ih]
      cases ids.find? fun id => t.taskId = id <;> simp
  exact appended []

/-- What `ReceiveMgrMsg` submits to the pool of the center. -/
inductive Submission where
  | createJob (context : JobContext) (things : List String)
  | delete (operation : String) (msg : DeleteTaskMsg)

/-- A closure in the pool of the center. -/
inductive Closure where
  | submitted (work : Submission)
  | readTasks (context : JobContext) (taskIds : List Int)
  | addPendingJob (item : PendingJobItem)
  | deleted (msg : DeleteTaskMsg)
  | finished

/-- The fields of an update. The description is read by none of the goroutines. -/
inductive UpdateFields where
  | description
  | configs (timeout : Option TimeoutConfig)
  deriving DecidableEq

def UpdateFields.timeout : UpdateFields → Option TimeoutConfig
  | .description => none
  | .configs timeout => timeout

/-- The service sends a message about configs. -/
def UpdateFields.sends : UpdateFields → Bool
  | .description => false
  | .configs _ => true

/-- A request to the management service that passed its check. -/
inductive Request where
  | createJob (jobId operation : String) (things : List String) (scheduling : Option SchedulingConfig)
      (rollout : Option RolloutConfig) (timeout : Option TimeoutConfig)
  | updateJob (jobId : String) (fields : UpdateFields)
  | cancelJob (jobId : String) (force : Bool)
  | deleteJob (jobId : String) (force : Bool)
  | cancelTask (thingId jobId : String) (version : Int) (force : Bool)
  | deleteTask (thingId jobId : String) (taskId : Int) (force : Bool)
  deriving DecidableEq

inductive CallPc where
  | start
  | readBack
  | write
  | sendUpdate
  | dropContext (operation : String)
  | sendRemove (operation : String)
  | submit (work : Submission)
  | writeCanceled
  | returned (ok : Bool)

structure Call where
  request : Request
  pc : CallPc

structure Memory where
  contexts : List (String × JobContext)
  pendingJobs : List PendingJobItem
  rollout : RolloutPc
  pendingCheckJobs : List String
  watch : WatchPc
  curQ : TaskQueue
  offlineThingTasks : List (String × List Task)
  sysOp : SysOpPc
  change : ChangePc
  workers : List Worker
  calls : List Call
  closures : List Closure

/-- What one goroutine does next. A step that reaches the database says whether
the database answers; a step that receives names its sender. -/
inductive Action where
  | elapse (duration : Nat)
  | rollout (ok : Bool)
  | rolloutTick
  | recvPending (closure : Nat)
  | recvUpdate (call : Nat)
  | recvRemove (call : Nat)
  | recvFinished
  | watch (ok : Bool)
  | watchTick (order : List String)
  | recvChange
  | change (ok : Bool)
  | recvSent
  | recvResult (worker : Nat)
  | sysOp (online : Option Bool) (accepted : Bool)
  | sysOpTick
  | connect (thingId : String) (connected : Bool)
  | recvPut
  | recvEndDelete
  | recvDelete (closure : Nat)
  | work (worker : Nat) (succeeded : Bool)
  | call (request : Request)
  | serve (call : Nat) (ok : Bool)
  | run (closure : Nat) (ok : Bool)

/-- The path of a request about a job names the job. -/
def Request.named : Request → Bool
  | .createJob jobId .. | .updateJob jobId _ | .cancelJob jobId _ | .deleteJob jobId _ => jobId ≠ ""
  | .cancelTask .. | .deleteTask .. => true

/-- The message to the rollout loop that a call which ends a job sends. -/
def Request.removal : Request → Option (String × Bool)
  | .cancelJob jobId force | .deleteJob jobId force => some (jobId, force)
  | _ => none

def Action.ok : Action → Bool
  | .rollout ok | .watch ok | .change ok | .serve _ ok | .run _ ok => ok
  | _ => true

end Tio.Job
