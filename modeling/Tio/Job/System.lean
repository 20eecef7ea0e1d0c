import Tio.Core.Run
import Tio.Job.Memory

/-! The steps of the job subsystem (`center.go`, `runner.go`, `service.go`). A
step sends at most one operation to the database and goes on with its reply. -/

namespace Tio.Job

open Tio.Core

structure State where
  db : Db
  clock : Int
  memory : Memory

/-- The status with which a job is finished, for the status it is believed to have. -/
def doFinishJob (now : Int) (jobId : String) : Status → Option DbOp
  | .canceling => some (.updateJob jobId ⟨some .canceled, none, some now, none, none⟩)
  | .removing => some (.deleteJob jobId true)
  | .waiting | .inProgress => some (.updateJob jobId ⟨some .completed, none, some now, none, none⟩)
  -- the variable for the new status is never set on this path
  | .canceled => some (.updateJob jobId ⟨some .zero, none, some now, none, none⟩)
  | .completed | .zero => none

def endForce (context : JobContext) : Bool :=
  context.scheduling.any fun config => config.endBehavior = .forceCancel

/-- The minutes that a task of the job may stay in progress, when there is a limit. -/
def timeoutMinutes (context : JobContext) : Option Int :=
  context.timeout.bind fun config =>
    if config.inProgressMinutes ≤ 0 then none else some config.inProgressMinutes

def toEntity (operation : String) (things : List String) (scheduling : Option SchedulingConfig)
    (rollout : Option RolloutConfig) (timeout : Option TimeoutConfig) : JobEntity where
  things := things
  operation := operation
  scheduling := scheduling
  rollout := rollout
  timeout := timeout
  status := .waiting
  forceCanceled := false
  startedAt := none
  completedAt := none

namespace Memory

def removeJobContext (jobId : String) (m : Memory) : Memory :=
  { m with contexts := Assoc.erase jobId m.contexts }

def setJobContext (context : JobContext) (m : Memory) : Memory :=
  { m with contexts := Assoc.set context.jobId context m.contexts }

def goto (pc : RolloutPc) (m : Memory) : Memory := { m with rollout := pc }

def setItem (i : Nat) (v : PendingJobItem) (m : Memory) : Memory :=
  { m with pendingJobs := m.pendingJobs.set i v }

def delItem (i : Nat) (m : Memory) : Memory :=
  { m with pendingJobs := m.pendingJobs.eraseIdx i }

/-- The schedule loop starts over the list as it is. -/
def startPass (m : Memory) : Memory := m.goto (.schedule 0 m.pendingJobs.length)

/-- The item the schedule loop is at. -/
def current (m : Memory) : Option PendingJobItem :=
  match m.rollout with
  | .schedule i _ | .drain i _ | .finish i _ | .clear i _ | .outOfTime i _ | .endSend i _
  | .endTasks i _ | .endJob i _ _ | .reload i _ | .timeout i _ _ _ | .publish i _ | .put i _ _
  | .rolled i _ _ => m.pendingJobs[i]?
  | .loadJobs | .loadTasks _ | .preload _ | .select => none

def rolloutOp (now : Int) (m : Memory) : Option DbOp :=
  match m.rollout with
  | .loadJobs => some .pendingJobs
  | .loadTasks jobs => some (.pendingTasks (jobs.map Prod.fst))
  | .preload ((jobId, j, []) :: _) => doFinishJob now jobId j.status
  | .schedule i l => do
    let v ← m.current
    if i < l && isJobScheduleInTime now v.context && v.context.status = .waiting then
      some (.updateJob v.context.jobId ⟨some .inProgress, some now, none, none, none⟩)
    else none
  | .finish .. => do
    let v ← m.current
    doFinishJob now v.context.jobId v.context.status
  | .endTasks .. => do
    let v ← m.current
    some (.cancelTasks v.context.jobId (endForce v.context))
  | .endJob .. => do
    let v ← m.current
    some (.updateJob v.context.jobId
      ⟨some .canceled, none, some now, some (endForce v.context), none⟩)
  | .reload .. => do
    let v ← m.current
    some (.tasksOfJob v.context.jobId)
  | .timeout _ _ (t :: _) _ => do
    let v ← m.current
    let minutes ← timeoutMinutes v.context
    if isTimeout now minutes t then some (.timeOutTask t.taskId) else none
  | _ => none

/-- A panic and a fatal error end the program: there is no step. -/
def rolloutNext (now : Int) (reply : Reply) (m : Memory) : Option Memory :=
  match m.rollout with
  | .loadJobs =>
    match reply with
    | .jobs jobs => some (m.goto (.loadTasks jobs))
    | _ => none
  | .loadTasks jobs =>
    match reply with
    | .tasks rows => some (m.goto (.preload (jobs.map fun (jobId, j) =>
        (jobId, j, toTasks (rows.filter fun row => row.2.jobId = jobId)))))
    | _ => none
  | .preload [] => some (m.goto .select)
  | .preload ((jobId, j, tasks) :: rest) =>
    if tasks.isEmpty then some (m.goto (.preload rest))
    else some { m with
      pendingJobs := m.pendingJobs ++ [⟨toContext jobId j, tasks, []⟩]
      rollout := .preload rest }
  | .select => none
  | .schedule i l =>
    if l ≤ i then some (m.goto .select)
    else do
      let v ← m.pendingJobs[i]?
      if isJobScheduleInTime now v.context then
        if v.context.status = .waiting then
          -- the copy changes even when the database does not answer
          some ((m.setItem i { v with context := { v.context with status := .inProgress } }).goto
            (.drain i l))
        else some (m.goto (.drain i l))
      else some (m.goto (.outOfTime i l))
  | .drain i l => do
    let v ← m.pendingJobs[i]?
    let tasks := if isJobToTerminal v.context.status then ongoingTasks v.tasks else v.tasks
    let m := m.setItem i { v with tasks := tasks }
    if tasks.isEmpty then some (m.goto (.finish i l))
    else some (m.goto (.timeout i l tasks []))
  | .finish i l => some (m.goto (.clear i l))
  | .clear i _ => do
    let v ← m.pendingJobs[i]?
    let m := if v.context.status = .inProgress then m else m.removeJobContext v.context.jobId
    let m := m.delItem i
    some (m.goto (.schedule (i + 1) m.pendingJobs.length))
  | .outOfTime i l => do
    let v ← m.pendingJobs[i]?
    if isJobScheduleBeforeStartTime now v.context then some (m.goto (.schedule (i + 1) l))
    else
      let config ← v.context.scheduling
      match config.endBehavior with
      | .stopRollout =>
        let tasks := ongoingTasks v.tasks
        some ((m.setItem i { v with tasks := tasks }).goto (.timeout i l tasks []))
      | .cancel | .forceCancel =>
        let m := m.setItem i { v with context := { v.context with status := .canceled } }
        if isSysOp v.context.operation then some (m.goto (.endSend i l))
        else some (m.goto (.endTasks i l))
  | .endSend .. => none
  | .endTasks i l => some (m.goto (.endJob i l (reply matches .done)))
  | .endJob i l ok => do
    let v ← m.pendingJobs[i]?
    if !(ok && reply matches .done) then some (m.goto (.schedule (i + 1) l))
    else if endForce v.context then some (m.goto (.clear i l))
    else some (m.goto (.reload i l))
  | .reload i l => do
    let v ← m.pendingJobs[i]?
    match reply with
    | .tasks rows =>
      some ((m.setItem i { v with tasks := toTasks rows }).goto (.timeout i l (toTasks rows) []))
    | _ => some (m.goto (.schedule (i + 1) l))
  | .timeout i l tasks remain => do
    let v ← m.pendingJobs[i]?
    match timeoutMinutes v.context, tasks with
    | none, _ => some (m.goto (.publish i l))
    | some minutes, t :: rest =>
      if isTimeout now minutes t then some (m.goto (.timeout i l rest remain))
      else some (m.goto (.timeout i l rest (remain ++ [t])))
    | some _, [] =>
      let m := m.setItem i { v with tasks := remain }
      if remain.isEmpty then some (m.goto (.clear i l)) else some (m.goto (.publish i l))
  | .publish i l => do
    let v ← m.pendingJobs[i]?
    let m := m.setJobContext v.context
    let count := rolloutCount now v
    let m := m.setItem i { v with tasks := v.tasks.drop count }
    if isSysOp v.context.operation then some (m.goto (.put i l (v.tasks.take count)))
    else some (m.goto (.rolled i l count))
  | .put .. => none
  | .rolled i l count => do
    let v ← m.pendingJobs[i]?
    let m := m.setItem i { v with rolloutStat := v.rolloutStat ++ [(now, count)] }
    if v.tasks.isEmpty then
      let m := m.delItem i
      some (m.goto (.schedule (i + 1) m.pendingJobs.length))
    else some (m.goto (.schedule (i + 1) l))

def watchOp (now : Int) (m : Memory) : Option DbOp :=
  match m.watch with
  | .count (jobId :: _) => some (.countTaskStatus jobId)
  | .getJob jobId _ => some (.getJob jobId)
  | .finish jobId status _ => doFinishJob now jobId status
  | _ => none

def watchNext (reply : Reply) (m : Memory) : Option Memory :=
  match m.watch with
  | .select => none
  | .count [] => some { m with watch := .select }
  | .count (jobId :: todo) =>
    match reply with
    | .statuses found =>
      if found.all isTaskTerminal then some { m with watch := .getJob jobId todo }
      else some { m with watch := .count todo }
    | _ => some { m with watch := .count todo }
  | .getJob jobId todo =>
    match reply with
    | .job (some j) => some { m with watch := .finish jobId j.status todo }
    | .job none => some { m with watch := .forget jobId todo }
    | _ => some { m with watch := .count todo }
  | .finish jobId _ todo => some { m with watch := .forget jobId todo }
  | .forget jobId todo => some { m.removeJobContext jobId with watch := .sendRemove jobId todo }
  | .sendRemove .. => none

def changeOp (m : Memory) : Option DbOp :=
  match m.change with
  | .update msg => some (.reportTask msg.task.taskId msg.status)
  | _ => none

def changeNext (m : Memory) : Option Memory :=
  match m.change with
  | .update msg => some { m with change := .send msg }
  | _ => none

def concurrentOnTick : Nat := 10

/-- The loop over the queue, up to the action of one task. A thing whose
connection cannot be asked counts as online. -/
def sysOpNext (online : Option Bool) (accepted : Bool) (m : Memory) : Option Memory :=
  match m.sysOp with
  | .select | .sendSent .. => none
  | .pop c =>
    if c < concurrentOnTick then
      match TaskQueue.pop m.curQ with
      | none => some { m with sysOp := .select }
      | some (t, rest) =>
        match Assoc.get t.jobId m.contexts with
        | none => some { m with curQ := rest, sysOp := .pop (c + 1) }
        | some context =>
          if isJobToTerminal context.status then some { m with curQ := rest, sysOp := .pop (c + 1) }
          else some { m with curQ := rest, sysOp := .submit (c + 1) t }
    else some { m with sysOp := .select }
  | .submit c t =>
    if isDirectMethodOp t.operation && online = some false then
      let waiting := (Assoc.get t.thingId m.offlineThingTasks).getD []
      some { m with
        offlineThingTasks := Assoc.set t.thingId (waiting ++ [t]) m.offlineThingTasks
        sysOp := .pop c }
    else if isSysOp t.operation && !accepted then
      some { m with curQ := TaskQueue.push t m.curQ, sysOp := .select }
    else
      let workers := if isSysOp t.operation then m.workers ++ [⟨t, .running⟩] else m.workers
      if t.status = .queued then some { m with workers := workers, sysOp := .sendSent c t }
      else some { m with workers := workers, sysOp := .pop c }

/-- The tasks of a thing that comes online go back to the queue. -/
def connected (thingId : String) (m : Memory) : Memory :=
  match Assoc.get thingId m.offlineThingTasks with
  | some tasks => { m with
    curQ := tasks.foldl (fun q t => TaskQueue.push t q) m.curQ
    offlineThingTasks := Assoc.erase thingId m.offlineThingTasks }
  | none => m

def deleteTask (msg : DeleteTaskMsg) (m : Memory) : Memory :=
  if msg.tasks ≠ [] then { m with
    curQ := TaskQueue.removeIds msg.tasks m.curQ
    offlineThingTasks := m.offlineThingTasks.map fun (thingId, v) => (thingId, rebuilt msg.tasks v) }
  else if msg.jobId ≠ "" then
    let l := (TaskQueue.getTasks m.curQ).filter fun t => t.jobId = msg.jobId
    { m with
      curQ := TaskQueue.removeIds (l.map Task.taskId) m.curQ
      offlineThingTasks := m.offlineThingTasks.map fun (thingId, v) =>
        (thingId, v.filter fun t => t.jobId ≠ msg.jobId) }
  else m

def serveOp (now : Int) (call : Call) : Option DbOp :=
  match call.request, call.pc with
  | .createJob jobId operation things scheduling rollout timeout, .start =>
    some (.createJob jobId (toEntity operation things scheduling rollout timeout))
  | .createJob jobId .., .readBack => some (.getJob jobId)
  | .updateJob jobId _, .start => some (.getJob jobId)
  | .updateJob jobId fields, .write => some (.updateJob jobId ⟨none, none, none, none, fields.timeout⟩)
  | .cancelJob jobId force, .start => some (.cancelJob jobId force)
  | .cancelJob jobId force, .writeCanceled =>
    some (.updateJob jobId ⟨some .canceled, none, some now, some force, none⟩)
  | .deleteJob jobId force, .start => some (.deleteJob jobId force)
  | .cancelTask thingId jobId version force, .start => some (.cancelTask thingId jobId version force)
  | .deleteTask thingId jobId taskId force, .start => some (.deleteTask thingId jobId taskId force)
  | _, _ => none

/-- The next program counter of a call. A row that is gone when the creation reads
it back makes the handler panic; the request ends without an answer. -/
def serveNext (reply : Reply) (call : Call) : Option CallPc :=
  match call.request, call.pc with
  | .createJob .., .start =>
    match reply with
    | .done => some .readBack
    | _ => some (.returned false)
  | .createJob jobId .., .readBack =>
    match reply with
    | .job (some j) => some (.submit (.createJob (toContext jobId j) j.things))
    | _ => some (.returned false)
  | .updateJob _ fields, .start =>
    match reply with
    | .job (some j) => if isJobToTerminal j.status && fields.sends then some (.returned false) else some .write
    | _ => some (.returned false)
  | .updateJob _ fields, .write =>
    match reply with
    | .done => if fields.sends then some .sendUpdate else some (.returned true)
    | _ => some (.returned false)
  | .cancelJob .., .start =>
    match reply with
    | .job (some j) => some (.dropContext j.operation)
    | _ => some (.returned false)
  | .deleteJob .., .start =>
    match reply with
    -- without a row the operation is the empty text
    | .job row => some (.dropContext ((row.map JobEntity.operation).getD ""))
    | _ => some (.returned false)
  | .cancelJob .., .dropContext operation | .deleteJob .., .dropContext operation =>
    some (.sendRemove operation)
  | .cancelTask .., .start | .deleteTask .., .start =>
    match reply with
    | .task row => some (.submit (.delete row.2.operation (.task row.1)))
    | _ => some (.returned false)
  | .cancelJob .., .submit _ => some .writeCanceled
  | _, .submit _ => some (.returned true)
  | .cancelJob .., .writeCanceled => some (.returned true)
  | _, _ => none

def setCall (i : Nat) (call : Call) (m : Memory) : Memory := { m with calls := m.calls.set i call }

def serve (i : Nat) (reply : Reply) (m : Memory) : Option Memory := do
  let call ← m.calls[i]?
  let pc ← serveNext reply call
  let m := m.setCall i { call with pc := pc }
  match call.request, call.pc with
  | .cancelJob jobId force, .dropContext _ => some (if force then m.removeJobContext jobId else m)
  | .deleteJob jobId _, .dropContext _ => some (m.removeJobContext jobId)
  | _, .submit work => some { m with closures := m.closures ++ [.submitted work] }
  | _, _ => some m

def closureOp (now : Int) : Closure → Option DbOp
  | .submitted (.createJob context things) =>
    some (.createTasks (toTaskEntities now context.jobId context.operation things))
  | .readTasks _ taskIds => some (.tasksById taskIds)
  | _ => none

def closureNext (reply : Reply) : Closure → Option Closure
  | .submitted (.createJob context _) =>
    match reply with
    | .taskIds ids => some (.readTasks context ids)
    | _ => some .finished
  | .readTasks context _ =>
    match reply with
    | .tasks rows => some (.addPendingJob ⟨context, toTasks rows, []⟩)
    | _ => some .finished
  | .submitted (.delete operation _) => if isSysOp operation then none else some .finished
  | .addPendingJob _ | .deleted _ | .finished => none

def setClosure (i : Nat) (closure : Closure) (m : Memory) : Memory :=
  { m with closures := m.closures.set i closure }

/-- The item that the message names first gets the new timeout. -/
def updateContext (jobId : String) (timeout : Option TimeoutConfig) (m : Memory) : Memory :=
  match m.pendingJobs.findIdx? fun v => v.context.jobId = jobId with
  | some i =>
    match m.pendingJobs[i]? with
    | some v =>
      let context := { v.context with timeout := timeout.or v.context.timeout }
      (m.setItem i { v with context := context }).setJobContext context
    | none => m
  | none => m

/-- The rollout loop receives a message that removes a job, and goes back to `select`. -/
def receiveRemove (jobId : String) (force : Bool) (m : Memory) : Option Memory := do
  let (pending, forget) ← removePendingJob jobId force m.pendingJobs
  let m := { m with pendingJobs := pending }
  some (if forget then m.removeJobContext jobId else m)

end Memory

/-- The operation that a step sends to the database. -/
def request (now : Int) (m : Memory) : Action → Option DbOp
  | .rollout _ => m.rolloutOp now
  | .watch _ => m.watchOp now
  | .change _ => m.changeOp
  | .serve i _ => do
    let call ← m.calls[i]?
    Memory.serveOp now call
  | .run i _ => do
    let closure ← m.closures[i]?
    Memory.closureOp now closure
  | _ => none

/-- The memory after a step; a step that is not enabled has none. -/
def resume (now : Int) (m : Memory) (reply : Reply) : Action → Option Memory
  | .elapse _ => some m
  | .rollout _ => m.rolloutNext now reply
  | .rolloutTick =>
    match m.rollout with
    | .select => some m.startPass
    | _ => none
  | .recvPending i =>
    match m.rollout, m.closures[i]? with
    | .select, some (.addPendingJob item) =>
      some ({ m with pendingJobs := m.pendingJobs ++ [item] }.setClosure i .finished).startPass
    | _, _ => none
  | .recvUpdate i =>
    match m.rollout, m.calls[i]? with
    | .select, some ⟨.updateJob jobId (.configs timeout), .sendUpdate⟩ =>
      some (((m.updateContext jobId timeout).setCall i
        ⟨.updateJob jobId (.configs timeout), .returned true⟩)).startPass
    | _, _ => none
  | .recvRemove i =>
    match m.rollout, m.calls[i]? with
    | .select, some ⟨r, .sendRemove operation⟩ => do
      let (jobId, force) ← r.removal
      let m ← m.receiveRemove jobId force
      some (m.setCall i ⟨r, .submit (.delete operation (.job jobId))⟩)
    | _, _ => none
  | .recvFinished =>
    match m.rollout, m.watch with
    | .select, .sendRemove jobId todo => do
      let m ← m.receiveRemove jobId true
      some { m with watch := .count todo, pendingCheckJobs := m.pendingCheckJobs.erase jobId }
    | _, _ => none
  | .watch _ => m.watchNext reply
  | .watchTick order =>
    match m.watch with
    | .select => if order.isPerm m.pendingCheckJobs then some { m with watch := .count order } else none
    | _ => none
  | .recvChange =>
    match m.watch, m.change with
    | .select, .send msg => some { m with
      change := .select
      pendingCheckJobs :=
        if isTaskTerminal msg.status then m.pendingCheckJobs.insert msg.task.jobId
        else m.pendingCheckJobs }
    | _, _ => none
  | .change _ => m.changeNext
  | .recvSent =>
    match m.change, m.sysOp with
    | .select, .sendSent c t => some { m with change := .update ⟨t, .sent⟩, sysOp := .pop c }
    | _, _ => none
  | .recvResult i =>
    match m.change, m.workers[i]? with
    | .select, some ⟨t, .sendResult status⟩ => some { m with
      change := .update ⟨t, status⟩
      workers := m.workers.set i ⟨t, .finished⟩ }
    | _, _ => none
  | .sysOp online accepted => m.sysOpNext online accepted
  | .sysOpTick =>
    match m.sysOp with
    | .select => some { m with sysOp := .pop 0 }
    | _ => none
  | .connect thingId connected =>
    match m.sysOp with
    | .select => some { (if connected then m.connected thingId else m) with sysOp := .pop 0 }
    | _ => none
  | .recvPut =>
    match m.sysOp, m.rollout with
    | .select, .put i l rolloutTasks => some { m with
      curQ := rolloutTasks.foldl (fun q t => TaskQueue.push t q) m.curQ
      rollout := .rolled i l rolloutTasks.length }
    | _, _ => none
  | .recvEndDelete =>
    match m.sysOp, m.rollout with
    | .select, .endSend i l => do
      let v ← m.pendingJobs[i]?
      some ((m.deleteTask (.job v.context.jobId)).goto (.endTasks i l))
    | _, _ => none
  | .recvDelete i =>
    match m.sysOp, m.closures[i]? with
    | .select, some (.submitted (.delete operation msg)) =>
      if isSysOp operation then some ((m.deleteTask msg).setClosure i (.deleted msg)) else none
    | _, _ => none
  | .work i succeeded =>
    match m.workers[i]? with
    | some ⟨t, .running⟩ => some { m with
      workers := m.workers.set i ⟨t, .sendResult (if succeeded then .succeeded else .failed)⟩ }
    | _ => none
  | .call r =>
    if m.rollout.started && r.named then some { m with calls := m.calls ++ [⟨r, .start⟩] } else none
  | .serve i _ => m.serve i reply
  | .run i _ => do
    let closure ← m.closures[i]?
    let next ← Memory.closureNext reply closure
    some (m.setClosure i next)

/-- The database and its reply; an operation it does not answer has no effect. -/
def access (s : State) (a : Action) : Db × Reply :=
  match request s.clock s.memory a with
  | some op => if a.ok then op.exec s.clock s.db else (s.db, .failed)
  | none => (s.db, .failed)

def Action.elapsed : Action → Nat
  | .elapse duration => duration
  | _ => 0

def step (s : State) (a : Action) : Option State :=
  (resume s.clock s.memory (access s a).2 a).map fun m =>
    ⟨(access s a).1, s.clock + a.elapsed, m⟩

/-- The program before `preloadPendingJobs`. -/
def boot (db : Db) (clock : Int) : State where
  db := db
  clock := clock
  memory := {
    contexts := []
    pendingJobs := []
    rollout := .loadJobs
    pendingCheckJobs := []
    watch := .select
    curQ := []
    offlineThingTasks := []
    sysOp := .select
    change := .select
    workers := []
    calls := []
    closures := [] }

end Tio.Job
