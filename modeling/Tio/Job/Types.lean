import Tio.Core.Assoc

/-! Jobs and their tasks, as they are stored and as the loops of the center and
the runner hold them (`types.go`, `job.go`, `entity.go`). -/

namespace Tio.Job

/-- The status of a job. The zero value of the type is the empty text, which is
none of the declared values. -/
inductive Status where
  | zero
  | waiting
  | inProgress
  | canceling
  | canceled
  | completed
  | removing
  deriving DecidableEq

inductive TaskStatus where
  | queued
  | sent
  | inProgress
  | failed
  | succeeded
  | canceled
  | timedOut
  | rejected
  deriving DecidableEq

inductive ScheduleEndBehavior where
  | stopRollout
  | cancel
  | forceCancel
  deriving DecidableEq

structure SchedulingConfig where
  startTime : Int
  endTime : Option Int
  endBehavior : ScheduleEndBehavior
  deriving DecidableEq

structure RolloutConfig where
  maxPerMinute : Int
  deriving DecidableEq

structure TimeoutConfig where
  inProgressMinutes : Int
  deriving DecidableEq

structure JobEntity where
  things : List String
  operation : String
  scheduling : Option SchedulingConfig
  rollout : Option RolloutConfig
  timeout : Option TimeoutConfig
  status : Status
  forceCanceled : Bool
  startedAt : Option Int
  completedAt : Option Int
  deriving DecidableEq

structure TaskEntity where
  jobId : String
  thingId : String
  operation : String
  status : TaskStatus
  forceCanceled : Bool
  startedAt : Option Int
  completedAt : Option Int
  createdAt : Int
  version : Int
  deriving DecidableEq

structure Task where
  jobId : String
  taskId : Int
  thingId : String
  operation : String
  status : TaskStatus
  startedAt : Option Int
  createdAt : Int
  deriving DecidableEq

structure JobContext where
  jobId : String
  operation : String
  scheduling : Option SchedulingConfig
  rollout : Option RolloutConfig
  timeout : Option TimeoutConfig
  status : Status
  deriving DecidableEq

structure PendingJobItem where
  context : JobContext
  tasks : List Task
  rolloutStat : List (Int × Nat)
  deriving DecidableEq

/-- One of the six values that the type declares. -/
def Status.declared : Status → Bool
  | .zero => false
  | _ => true

def isJobToTerminal : Status → Bool
  | .canceling | .canceled | .removing | .completed => true
  | _ => false

def isJobTerminal : Status → Bool
  | .canceled | .completed => true
  | _ => false

def isTaskTerminal : TaskStatus → Bool
  | .failed | .succeeded | .timedOut | .rejected | .canceled => true
  | _ => false

def isTaskOngoing : TaskStatus → Bool
  | .sent | .inProgress => true
  | _ => false

def ongoingTasks (tasks : List Task) : List Task := tasks.filter fun t => isTaskOngoing t.status

def isDirectMethodOp (operation : String) : Bool := "$directMethod/".toList.isPrefixOf operation.toList

def isUpdateShadowOp (operation : String) : Bool := "$updateShadow/".toList.isPrefixOf operation.toList

def isSysOp (operation : String) : Bool := isDirectMethodOp operation || isUpdateShadowOp operation

/-- The conversion from a row does not copy the time of its creation. -/
def toTask (row : Int × TaskEntity) : Task where
  jobId := row.2.jobId
  taskId := row.1
  thingId := row.2.thingId
  operation := row.2.operation
  status := row.2.status
  startedAt := row.2.startedAt
  createdAt := 0

def toTasks (rows : List (Int × TaskEntity)) : List Task := rows.map toTask

/-- The columns get their defaults in the database. -/
def toTaskEntities (now : Int) (jobId operation : String) (things : List String) : List TaskEntity :=
  things.map fun thing => {
    jobId := jobId
    thingId := thing
    operation := operation
    status := .queued
    forceCanceled := false
    startedAt := none
    completedAt := none
    createdAt := now
    version := 1 }

/-- The context of a job from its row, by way of `toDetail`. -/
def toContext (jobId : String) (j : JobEntity) : JobContext where
  jobId := jobId
  operation := j.operation
  scheduling := j.scheduling
  rollout := j.rollout
  timeout := j.timeout
  status := j.status

def isJobScheduleBeforeStartTime (now : Int) (jc : JobContext) : Bool :=
  jc.scheduling.any fun config => now < config.startTime

def isJobScheduleAfterEndTime (now : Int) (jc : JobContext) : Bool :=
  jc.scheduling.any fun config => config.endTime.any fun finish => finish < now

def isJobScheduleInTime (now : Int) (jc : JobContext) : Bool :=
  !isJobScheduleBeforeStartTime now jc && !isJobScheduleAfterEndTime now jc

/-- Whether `checkTimeoutTask` writes the task as timed out; a minute is 60000 ms. -/
def isTimeout (now inProgressMinutes : Int) (t : Task) : Bool :=
  t.status = .inProgress && t.startedAt.any fun started => inProgressMinutes * 60000 ≤ now - started

def jobNextRolloutCount (now maxCountPerMinute : Int) (p : PendingJobItem) : Nat :=
  let curMinuteCount : Int :=
    (p.rolloutStat.filter fun r => now - 60000 < r.1).foldl (fun count r => count + (r.2 : Int)) 0
  if maxCountPerMinute ≤ curMinuteCount then 0
  else min (maxCountPerMinute - curMinuteCount).toNat p.tasks.length

/-- How many tasks of an item are put to the runner in one pass. -/
def rolloutCount (now : Int) (v : PendingJobItem) : Nat :=
  match v.context.rollout with
  | some config =>
    if 0 < config.maxPerMinute then jobNextRolloutCount now config.maxPerMinute v else v.tasks.length
  | none => v.tasks.length

theorem rolloutCount_le (now : Int) (v : PendingJobItem) : rolloutCount now v ≤ v.tasks.length := by
  rw [rolloutCount]
  split
  · split
    · rw [jobNextRolloutCount]
      split
      · exact Nat.zero_le _
      · exact Nat.min_le_right _ _
    · exact Nat.le_refl _
  · exact Nat.le_refl _

theorem mem_ongoingTasks {t : Task} {tasks : List Task} (member : t ∈ ongoingTasks tasks) :
    t ∈ tasks := (List.mem_filter.mp member).1

end Tio.Job
