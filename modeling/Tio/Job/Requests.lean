import Tio.Job.Frame

namespace Tio.Job

/-- The status that `doFinishJob` writes over the one that it was told. -/
def finishStatus : Status → Option Status
  | .canceling => some .canceled
  | .waiting | .inProgress => some .completed
  | .canceled => some .zero
  | .removing | .completed | .zero => none

/-- What `doFinishJob` sends for the status it was told. -/
inductive Finishes (now : Int) (jobId : String) (told : Status) : DbOp → Prop
  | update (st : Status) (finishes : finishStatus told = some st) :
      Finishes now jobId told (.updateJob jobId ⟨some st, none, some now, none, none⟩)
  | delete (removing : told = .removing) : Finishes now jobId told (.deleteJob jobId true)

/-- The step sends the operation. -/
inductive Requests (now : Int) (m : Memory) : Action → DbOp → Prop
  | loadJobs (ok : Bool) (here : m.rollout = .loadJobs) : Requests now m (.rollout ok) .pendingJobs
  | loadTasks (ok : Bool) (jobs : List (String × JobEntity)) (here : m.rollout = .loadTasks jobs) :
      Requests now m (.rollout ok) (.pendingTasks (jobs.map Prod.fst))
  | preload (ok : Bool) (jobId : String) (told : JobEntity) (rest : List (String × JobEntity × List Task))
      (op : DbOp) (here : m.rollout = .preload ((jobId, told, []) :: rest))
      (finishes : Finishes now jobId told.status op) : Requests now m (.rollout ok) op
  | start (ok : Bool) (i l : Nat) (v : PendingJobItem) (here : m.rollout = .schedule i l)
      (inside : i < l) (found : m.pendingJobs[i]? = some v)
      (inTime : isJobScheduleInTime now v.context = true) (waits : v.context.status = .waiting) :
      Requests now m (.rollout ok)
        (.updateJob v.context.jobId ⟨some .inProgress, some now, none, none, none⟩)
  | drained (ok : Bool) (i l : Nat) (v : PendingJobItem) (op : DbOp) (here : m.rollout = .finish i l)
      (found : m.pendingJobs[i]? = some v)
      (finishes : Finishes now v.context.jobId v.context.status op) : Requests now m (.rollout ok) op
  | endTasks (ok : Bool) (i l : Nat) (v : PendingJobItem) (here : m.rollout = .endTasks i l)
      (found : m.pendingJobs[i]? = some v) :
      Requests now m (.rollout ok) (.cancelTasks v.context.jobId (endForce v.context))
  | endJob (ok : Bool) (i l : Nat) (before : Bool) (v : PendingJobItem)
      (here : m.rollout = .endJob i l before) (found : m.pendingJobs[i]? = some v) :
      Requests now m (.rollout ok) (.updateJob v.context.jobId
        ⟨some .canceled, none, some now, some (endForce v.context), none⟩)
  | reload (ok : Bool) (i l : Nat) (v : PendingJobItem) (here : m.rollout = .reload i l)
      (found : m.pendingJobs[i]? = some v) :
      Requests now m (.rollout ok) (.tasksOfJob v.context.jobId)
  | timeOut (ok : Bool) (i l : Nat) (t : Task) (rest remain : List Task) (v : PendingJobItem)
      (minutes : Int) (here : m.rollout = .timeout i l (t :: rest) remain)
      (found : m.pendingJobs[i]? = some v) (limit : timeoutMinutes v.context = some minutes)
      (late : isTimeout now minutes t = true) : Requests now m (.rollout ok) (.timeOutTask t.taskId)
  | count (ok : Bool) (jobId : String) (todo : List String) (here : m.watch = .count (jobId :: todo)) :
      Requests now m (.watch ok) (.countTaskStatus jobId)
  | getJob (ok : Bool) (jobId : String) (todo : List String) (here : m.watch = .getJob jobId todo) :
      Requests now m (.watch ok) (.getJob jobId)
  | checked (ok : Bool) (jobId : String) (told : Status) (todo : List String) (op : DbOp)
      (here : m.watch = .finish jobId told todo) (finishes : Finishes now jobId told op) :
      Requests now m (.watch ok) op
  | report (ok : Bool) (msg : TaskChangeMsg) (here : m.change = .update msg) :
      Requests now m (.change ok) (.reportTask msg.task.taskId msg.status)
  | createJob (ok : Bool) (k : Nat) (jobId operation : String) (things : List String)
      (scheduling : Option SchedulingConfig) (rollout : Option RolloutConfig)
      (timeout : Option TimeoutConfig)
      (here : m.calls[k]? = some ⟨.createJob jobId operation things scheduling rollout timeout, .start⟩) :
      Requests now m (.serve k ok)
        (.createJob jobId (toEntity operation things scheduling rollout timeout))
  | readBack (ok : Bool) (k : Nat) (jobId operation : String) (things : List String)
      (scheduling : Option SchedulingConfig) (rollout : Option RolloutConfig)
      (timeout : Option TimeoutConfig)
      (here : m.calls[k]? =
        some ⟨.createJob jobId operation things scheduling rollout timeout, .readBack⟩) :
      Requests now m (.serve k ok) (.getJob jobId)
  | updateJobGet (ok : Bool) (k : Nat) (jobId : String) (fields : UpdateFields)
      (here : m.calls[k]? = some ⟨.updateJob jobId fields, .start⟩) :
      Requests now m (.serve k ok) (.getJob jobId)
  | updateJob (ok : Bool) (k : Nat) (jobId : String) (fields : UpdateFields)
      (here : m.calls[k]? = some ⟨.updateJob jobId fields, .write⟩) :
      Requests now m (.serve k ok) (.updateJob jobId ⟨none, none, none, none, fields.timeout⟩)
  | cancelJob (ok : Bool) (k : Nat) (jobId : String) (force : Bool)
      (here : m.calls[k]? = some ⟨.cancelJob jobId force, .start⟩) :
      Requests now m (.serve k ok) (.cancelJob jobId force)
  | canceled (ok : Bool) (k : Nat) (jobId : String) (force : Bool)
      (here : m.calls[k]? = some ⟨.cancelJob jobId force, .writeCanceled⟩) :
      Requests now m (.serve k ok)
        (.updateJob jobId ⟨some .canceled, none, some now, some force, none⟩)
  | deleteJob (ok : Bool) (k : Nat) (jobId : String) (force : Bool)
      (here : m.calls[k]? = some ⟨.deleteJob jobId force, .start⟩) :
      Requests now m (.serve k ok) (.deleteJob jobId force)
  | cancelTask (ok : Bool) (k : Nat) (thingId jobId : String) (version : Int) (force : Bool)
      (here : m.calls[k]? = some ⟨.cancelTask thingId jobId version force, .start⟩) :
      Requests now m (.serve k ok) (.cancelTask thingId jobId version force)
  | deleteTask (ok : Bool) (k : Nat) (thingId jobId : String) (taskId : Int) (force : Bool)
      (here : m.calls[k]? = some ⟨.deleteTask thingId jobId taskId force, .start⟩) :
      Requests now m (.serve k ok) (.deleteTask thingId jobId taskId force)
  | createTasks (ok : Bool) (k : Nat) (context : JobContext) (things : List String)
      (here : m.closures[k]? = some (.submitted (.createJob context things))) :
      Requests now m (.run k ok)
        (.createTasks (toTaskEntities now context.jobId context.operation things))
  | readTasks (ok : Bool) (k : Nat) (context : JobContext) (taskIds : List Int)
      (here : m.closures[k]? = some (.readTasks context taskIds)) :
      Requests now m (.run k ok) (.tasksById taskIds)

section

variable {now : Int} {m : Memory} {a : Action} {op : DbOp}

theorem doFinishJob_eq_some_iff {jobId : String} {told : Status} :
    doFinishJob now jobId told = some op ↔ Finishes now jobId told op := by
  constructor
  · intro sent
    cases told <;> cases sent <;> first | exact .update _ rfl | exact .delete rfl
  · intro finishes
    cases finishes with
    | update st finishes => cases told <;> cases finishes <;> rfl
    | delete removing => rw [removing, doFinishJob]

theorem requests_of_request (sent : request now m a = some op) : Requests now m a op := by
  cases a with
  | rollout ok =>
    simp only [request, Memory.rolloutOp, bind, Memory.current] at sent
    split at sent <;> grind [Option.bind_eq_some_iff, doFinishJob_eq_some_iff, Requests]
  | watch ok =>
    simp only [request, Memory.watchOp] at sent
    split at sent <;> grind [doFinishJob_eq_some_iff, Requests]
  | change ok =>
    simp only [request, Memory.changeOp] at sent
    grind [Requests]
  | serve k ok =>
    simp only [request, bind, Option.bind_eq_some_iff] at sent
    obtain ⟨⟨r, pc⟩, found, sent⟩ := sent
    unfold Memory.serveOp at sent
    split at sent <;> grind [Requests]
  | run k ok =>
    simp only [request, bind, Option.bind_eq_some_iff] at sent
    obtain ⟨closure, found, sent⟩ := sent
    unfold Memory.closureOp at sent
    split at sent <;> grind [Requests]
  | _ => cases sent

theorem request_of_requests (requests : Requests now m a op) : request now m a = some op := by
  cases requests with
  | preload ok jobId told rest op here finishes =>
    simpa [request, Memory.rolloutOp, here] using doFinishJob_eq_some_iff.mpr finishes
  | drained ok i l v op here found finishes =>
    simpa [request, Memory.rolloutOp, Memory.current, here, found] using
      doFinishJob_eq_some_iff.mpr finishes
  | checked ok jobId told todo op here finishes =>
    simpa [request, Memory.watchOp, here] using doFinishJob_eq_some_iff.mpr finishes
  | _ => simp [request, Memory.rolloutOp, Memory.watchOp, Memory.changeOp, Memory.current,
      Memory.serveOp, Memory.closureOp, *]

/-- The operations of a step, read off from where its actor stands. -/
theorem request_eq_some_iff : request now m a = some op ↔ Requests now m a op :=
  ⟨requests_of_request, request_of_requests⟩

end

end Tio.Job
