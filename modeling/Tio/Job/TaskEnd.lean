import Tio.Job.Requests
import Tio.Job.Runner
import Tio.Job.Tables

namespace Tio.Job

open Tio.Core

/-- A task that reached its end keeps the status it ended with. -/
def TaskEndKept (db db' : Db) : Prop :=
  ∀ row ∈ db.tasks, isTaskTerminal row.2.status = true →
    ∀ row' ∈ db'.tasks, row'.1 = row.1 → row'.2.status = row.2.status

/-- A task has a time of completion exactly when it is over. -/
def Stamped (db : Db) : Prop :=
  ∀ row ∈ db.tasks, row.2.completedAt.isSome = isTaskTerminal row.2.status

/-- The schedule loop writes a task of its list as timed out. -/
inductive TimesOut (now : Int) (m : Memory) : Action → Int → Prop
  | checked (ok : Bool) (i l : Nat) (t : Task) (rest remain : List Task) (v : PendingJobItem)
      (minutes : Int) (here : m.rollout = .timeout i l (t :: rest) remain)
      (found : m.pendingJobs[i]? = some v) (limit : timeoutMinutes v.context = some minutes)
      (late : isTimeout now minutes t = true) : TimesOut now m (.rollout ok) t.taskId

/-- The copy of the task that timed out is older than the end of the task. -/
def LateTimeout (s : State) (a : Action) : Prop :=
  a.ok = true ∧ ∃ taskId, TimesOut s.clock s.memory a taskId ∧
    ∃ row ∈ s.db.tasks, row.1 = taskId ∧ isTaskTerminal row.2.status = true ∧ row.2.status ≠ .timedOut

/-- The runner is about to write the result of a task that is not over. -/
def Reports (s : State) : Prop :=
  ∃ msg, s.memory.change = .update msg ∧ isTaskTerminal msg.status = true ∧
    ∃ row ∈ s.db.tasks, row.1 = msg.task.taskId ∧ isTaskTerminal row.2.status = false

/-- A result that the runner forwards is about a task that is gone or over. -/
def ForwardsWritten (s : State) : Prop :=
  ∀ msg, s.memory.change = .send msg → isTaskTerminal msg.status = true →
    ∀ row ∈ s.db.tasks, row.1 = msg.task.taskId → isTaskTerminal row.2.status = true

/-- Every task that somebody holds got its id from the table. -/
structure Known (s : State) : Prop where
  keyed : Keyed s.db
  indexed : TaskQueue.Indexed s.memory.curQ
  center : Held (fun _ t => t.taskId < s.db.nextTaskId) s.memory
  runner : InRunner (fun t => t.taskId < s.db.nextTaskId) s.memory
  underway : Underway (fun t => t.taskId < s.db.nextTaskId) s.memory

section

variable {now : Int} {db db' : Db} {op : DbOp} {m : Memory} {a : Action}

theorem request_timeOutTask {taskId : Int} :
    request now m a = some (.timeOutTask taskId) ↔ TimesOut now m a taskId := by
  rw [request_eq_some_iff]
  constructor
  · intro requests
    cases requests with
    | timeOut ok i l t rest remain v minutes here found limit late =>
      exact .checked ok i l t rest remain v minutes here found limit late
    | preload _ _ _ _ _ _ finishes | drained _ _ _ _ _ _ _ finishes | checked _ _ _ _ _ _ finishes =>
      cases finishes
  · rintro ⟨ok, i, l, t, rest, remain, v, minutes, here, found, limit, late⟩
    exact .timeOut ok i l t rest remain v minutes here found limit late

theorem request_reportTask {taskId : Int} {status : TaskStatus} :
    request now m a = some (.reportTask taskId status) ↔
      (∃ ok, a = .change ok) ∧ ∃ msg, m.change = .update msg ∧ msg.task.taskId = taskId ∧
        msg.status = status := by
  rw [request_eq_some_iff]
  constructor
  · intro requests
    cases requests with
    | report ok msg here => exact ⟨⟨ok, rfl⟩, msg, here, rfl, rfl⟩
    | preload _ _ _ _ _ _ finishes | drained _ _ _ _ _ _ _ finishes | checked _ _ _ _ _ _ finishes =>
      cases finishes
  · rintro ⟨⟨ok, rfl⟩, msg, here, rfl, rfl⟩
    exact .report ok msg here

/-- A change of rows that leaves those that are over with their status. -/
theorem taskEndKept_mapTasks (keyed : Keyed db) {change : Int × TaskEntity → TaskEntity}
    (tasks : db'.tasks = (db.mapTasks change).tasks)
    (fixed : ∀ row ∈ db.tasks, isTaskTerminal row.2.status = true →
      (change row).status = row.2.status) : TaskEndKept db db' := by
  intro row member ended row' member' same
  rw [tasks] at member'
  obtain ⟨old, present, rfl⟩ := List.mem_map.mp member'
  cases keyed.unique member present same
  exact fixed row member ended

theorem taskEndKept_after (keyed : Keyed db) (after : TasksAfter now db db' op)
    (other : ∀ taskId, op ≠ .timeOutTask taskId) : TaskEndKept db db' := by
  cases after with
  | same _ tasks =>
    intro row member ended row' member' same
    rw [keyed.unique member (tasks ▸ member') same]
  | canceled _ force chosen going tasks =>
    refine taskEndKept_mapTasks keyed tasks fun row member ended => ?_
    split
    · rename_i selected
      rw [going row member selected] at ended
      cases ended
    · rfl
  | timedOut taskId tasks => exact absurd rfl (other taskId)
  | reported taskId status going tasks =>
    refine taskEndKept_mapTasks keyed tasks fun row member ended => ?_
    split
    · rename_i here
      rw [going row member here] at ended
      cases ended
    · rfl
  | deleted _ keep tasks =>
    intro row member ended row' member' same
    rw [tasks] at member'
    rw [keyed.unique member (List.mem_filter.mp member').1 same]
  | created fresh tasks =>
    intro row member ended row' member' same
    rw [tasks] at member'
    rcases List.mem_append.mp member' with old | new
    · rw [keyed.unique member old same]
    · have given := (db.given row member).2
      have bounds := numbered_bounds new
      omega

/-- The update of `checkTimeoutTask` does not ask for the status of the row. -/
theorem taskEndKept_timeOutTask (keyed : Keyed db) (now taskId : Int) :
    TaskEndKept db ((DbOp.timeOutTask taskId).exec now db).1 ↔
      ¬∃ row ∈ db.tasks, row.1 = taskId ∧ isTaskTerminal row.2.status = true ∧
        row.2.status ≠ .timedOut := by
  constructor
  · rintro kept ⟨row, member, here, ended, other⟩
    have stays := kept row member ended _ (List.mem_map_of_mem member) rfl
    simp only [here, if_true] at stays
    exact other stays.symm
  · intro free
    refine taskEndKept_mapTasks keyed rfl fun row member ended => ?_
    split
    · rename_i here
      by_contra other
      exact free ⟨row, member, here, ended, fun same => other same.symm⟩
    · rfl

theorem taskEndKept_step {s s' : State} (keyed : Keyed s.db) (taken : step s a = some s') :
    TaskEndKept s.db s'.db ↔ ¬LateTimeout s a := by
  rcases step_db taken with ⟨same, silent⟩ | ⟨op, requested, answered, same⟩
  · refine iff_of_true ?_ ?_
    · rw [same]
      exact taskEndKept_after keyed (TasksAfter.same .pendingJobs rfl : TasksAfter 0 s.db s.db .pendingJobs) nofun
    · rintro ⟨answered, taskId, timesOut, -⟩
      rw [silent _ (request_timeOutTask.mpr timesOut)] at answered
      cases answered
  · rw [same]
    by_cases timesOut : ∃ taskId, op = .timeOutTask taskId
    · obtain ⟨taskId, rfl⟩ := timesOut
      rw [taskEndKept_timeOutTask keyed, LateTimeout, not_iff_not]
      constructor
      · intro found
        exact ⟨answered, taskId, request_timeOutTask.mp requested, found⟩
      · rintro ⟨-, other, timesOut, found⟩
        rw [request_timeOutTask.mpr timesOut] at requested
        cases requested
        exact found
    · refine iff_of_true (taskEndKept_after keyed (tasksAfter_exec keyed s.clock op) ?_) ?_
      · rintro taskId rfl
        exact timesOut ⟨taskId, rfl⟩
      · rintro ⟨-, taskId, out, -⟩
        rw [request_timeOutTask.mpr out] at requested
        cases requested
        exact timesOut ⟨taskId, rfl⟩

theorem stamped_mapTasks (stamped : Stamped db) {change : Int × TaskEntity → TaskEntity}
    (tasks : db'.tasks = (db.mapTasks change).tasks)
    (fine : ∀ row ∈ db.tasks, row.2.completedAt.isSome = isTaskTerminal row.2.status →
      (change row).completedAt.isSome = isTaskTerminal (change row).status) : Stamped db' := by
  intro row member
  rw [tasks] at member
  obtain ⟨old, present, rfl⟩ := List.mem_map.mp member
  exact fine old present (stamped old present)

theorem stamped_after (stamped : Stamped db) (after : TasksAfter now db db' op)
    (other : ∀ taskId status, op = .reportTask taskId status → isTaskTerminal status = true →
      ∀ row ∈ db.tasks, row.1 = taskId → isTaskTerminal row.2.status = true)
    (fresh : ∀ tasks, op = .createTasks tasks →
      ∀ t ∈ tasks, t.completedAt = none ∧ t.status = .queued) : Stamped db' := by
  cases after with
  | same _ tasks => simpa [Stamped, tasks] using stamped
  | canceled _ force chosen going tasks =>
    refine stamped_mapTasks stamped tasks fun row member before => ?_
    split
    · rfl
    · exact before
  | timedOut taskId tasks =>
    refine stamped_mapTasks stamped tasks fun row member before => ?_
    split
    · rfl
    · exact before
  | reported taskId status going tasks =>
    refine stamped_mapTasks stamped tasks fun row member before => ?_
    split
    · rename_i here
      have ends : isTaskTerminal status = false := by
        by_contra ended
        have finished := other taskId status rfl (by simpa using ended) row member here
        rw [going row member here] at finished
        cases finished
      simp only [going row member here, Bool.false_eq_true, if_false, ends] at before ⊢
      exact before
    · exact before
  | deleted _ keep tasks =>
    intro row member
    rw [tasks] at member
    exact stamped row (List.mem_filter.mp member).1
  | created new tasks =>
    intro row member
    rw [tasks] at member
    rcases List.mem_append.mp member with old | created
    · exact stamped row old
    · obtain ⟨none, queued⟩ := fresh new rfl row.2 (mem_of_numbered created)
      simp [none, queued, isTaskTerminal]

theorem request_createTasks {tasks : List TaskEntity}
    (requested : request now m a = some (.createTasks tasks)) :
    ∃ ok i context things, a = .run i ok ∧
      m.closures[i]? = some (.submitted (.createJob context things)) ∧
      tasks = toTaskEntities now context.jobId context.operation things := by
  cases request_eq_some_iff.mp requested with
  | createTasks ok i context things here => exact ⟨ok, i, context, things, rfl, here, rfl⟩
  | preload _ _ _ _ _ _ finishes | drained _ _ _ _ _ _ _ finishes | checked _ _ _ _ _ _ finishes =>
    cases finishes

/-- A result is written without the time of the completion. -/
theorem stamped_step {s s' : State} (keyed : Keyed s.db) (stamped : Stamped s.db)
    (taken : step s a = some s') : Stamped s'.db ↔ ¬(a = .change true ∧ Reports s) := by
  rcases step_db taken with ⟨same, silent⟩ | ⟨op, requested, answered, same⟩
  · refine iff_of_true (same ▸ stamped) ?_
    rintro ⟨rfl, msg, here, -⟩
    have answered := silent _ (request_reportTask.mpr ⟨⟨true, rfl⟩, msg, here, rfl, rfl⟩)
    cases answered
  · rw [same]
    constructor
    · rintro still ⟨rfl, msg, here, ends, row, member, named, going⟩
      rw [request_reportTask.mpr ⟨⟨true, rfl⟩, msg, here, rfl, rfl⟩] at requested
      cases requested
      rcases reportTask_cases keyed s.clock msg.task.taskId msg.status with ⟨finished, -⟩ | ⟨-, tasks⟩
      · rw [finished row member named] at going
        cases going
      · have written : Stamped (s.db.reportTask s.clock msg.task.taskId msg.status).1 := still
        rw [Stamped, tasks] at written
        have stamp := written _ (List.mem_map_of_mem member)
        have before := stamped row member
        simp only [named, if_true, going, Bool.false_eq_true, if_false, before, ends] at stamp
    · intro free
      refine stamped_after stamped (tasksAfter_exec keyed s.clock op) ?_ ?_
      · rintro taskId status rfl ends row member rfl
        obtain ⟨⟨ok, rfl⟩, msg, here, named, rfl⟩ := request_reportTask.mp requested
        by_contra going
        refine free ⟨congrArg Action.change answered, msg, here, ends, row, member, named.symm, ?_⟩
        simpa using going
      · rintro tasks rfl t member
        obtain ⟨ok, i, context, things, rfl, here, rfl⟩ := request_createTasks requested
        obtain ⟨thing, listed, rfl⟩ := List.mem_map.mp member
        exact ⟨rfl, rfl⟩

theorem known_step {s s' : State} (known : Known s) (taken : step s a = some s') : Known s' := by
  have resumed := step_resume taken
  have grown := (step_rows taken).given
  have put : ∀ i l rolloutTasks, s.memory.rollout = .put i l rolloutTasks →
      ∀ t ∈ rolloutTasks, t.taskId < s.db.nextTaskId := by
    intro i l rolloutTasks sender
    obtain ⟨v, -, batch⟩ := known.center.put i l rolloutTasks sender
    exact batch
  have center := held_step known.center resumed fun jobId row arrives =>
    (s.db.given row (arrives_stored arrives).1).2
  exact ⟨keyed_step known.keyed taken, indexed_step known.indexed resumed,
    center.mono fun _ t => (Int.lt_of_lt_of_le · grown),
    (inRunner_step known.indexed known.runner put resumed).mono fun t => (Int.lt_of_lt_of_le · grown),
    (underway_step known.underway known.runner.hand resumed).mono fun t => (Int.lt_of_lt_of_le · grown)⟩

theorem known_boot {db : Db} (keyed : Keyed db) (clock : Int) : Known (boot db clock) := by
  refine ⟨keyed, ?_, ⟨?_, ?_, ?_, ?_, ?_⟩, ⟨?_, ?_, ?_⟩, ⟨?_, ?_, ?_, ?_⟩⟩
  all_goals simp [boot, TaskQueue.getTasks, TaskQueue.Indexed]

/-- What is over stays over, for a task whose id the table gave. -/
theorem over_step {s s' : State} {taskId : Int} (taken : step s a = some s')
    (given : taskId < s.db.nextTaskId)
    (finished : ∀ row ∈ s.db.tasks, row.1 = taskId → isTaskTerminal row.2.status = true) :
    ∀ row ∈ s'.db.tasks, row.1 = taskId → isTaskTerminal row.2.status = true :=
  ((step_rows taken).finished taskId ⟨given, finished⟩).finished

/-- A result that is written leaves its task over. -/
theorem over_of_reported {s s' : State} {msg : TaskChangeMsg} (keyed : Keyed s.db)
    (here : s.memory.change = .update msg) (ends : isTaskTerminal msg.status = true)
    (taken : step s (.change true) = some s') :
    ∀ row ∈ s'.db.tasks, row.1 = msg.task.taskId → isTaskTerminal row.2.status = true := by
  have requested : request s.clock s.memory (.change true) =
      some (.reportTask msg.task.taskId msg.status) :=
    request_reportTask.mpr ⟨⟨true, rfl⟩, msg, here, rfl, rfl⟩
  have written : s'.db = (s.db.reportTask s.clock msg.task.taskId msg.status).1 := by
    rw [(step_eq_some_iff.mp taken).2.1, access, requested]
    rfl
  rw [written]
  intro row member named
  rcases reportTask_cases keyed s.clock msg.task.taskId msg.status with ⟨finished, tasks⟩ | ⟨-, tasks⟩
  · exact finished row (tasks ▸ member) named
  · rw [tasks] at member
    obtain ⟨old, present, rfl⟩ := List.mem_map.mp member
    simp only at named
    simp only [named, if_true, ends]

/-- The message of a result goes on, whatever became of the write. -/
theorem forwardsWritten_step {s s' : State} (known : Known s) (written : ForwardsWritten s)
    (taken : step s a = some s') : ForwardsWritten s' ↔ ¬(a = .change false ∧ Reports s) := by
  have resumed := step_resume taken
  by_cases moves : ∃ ok, a = .change ok
  · obtain ⟨ok, rfl⟩ := moves
    simp only [resume, Memory.changeNext] at resumed
    split at resumed
    · rename_i msg here
      have sends : s'.memory.change = .send msg := by grind
      cases ok with
      | true =>
        refine iff_of_true (fun other sent ends => ?_) (by simp)
        rw [sends] at sent
        cases sent
        exact over_of_reported known.keyed here ends taken
      | false =>
        have same : s'.db = s.db := by
          rcases step_db taken with ⟨same, -⟩ | ⟨op, -, answered, -⟩
          · exact same
          · cases answered
        constructor
        · rintro still ⟨-, other, here', ends, row, member, named, going⟩
          rw [here] at here'
          cases here'
          rw [still msg sends ends row (same ▸ member) named] at going
          cases going
        · intro free other sent ends row member named
          rw [sends] at sent
          cases sent
          by_contra going
          exact free ⟨rfl, msg, here, ends, row, same ▸ member, named, by simpa using going⟩
    · cases resumed
  · refine iff_of_true (fun msg sent ends => ?_) fun changes => moves ⟨false, changes.1⟩
    have before : s.memory.change = .send msg := by
      have frame := step_frame taken
      cases a with
      | change ok => exact absurd ⟨ok, rfl⟩ moves
      | recvSent | recvResult _ | recvChange =>
        simp only [resume] at resumed
        grind
      | _ => exact frame.change rfl ▸ sent
    exact over_step taken (known.underway.send msg before) (written msg before ends)

end

/-- In a run from a keyed table a task that is over keeps its status if and only if
no timeout is written over the end of a task. -/
theorem task_end_kept_iff (db : {db : Db // Keyed db}) (clock : Int) (actions : List Action) :
    Always step (fun s _ s' => TaskEndKept s.db s'.db) (boot db.1 clock) actions ↔
      Meets step (fun s a => ¬LateTimeout s a) (boot db.1 clock) actions := by
  refine always_iff_meets (fun s => Keyed s.db) ?_ ?_ actions db.2
  · exact fun s a s' keyed taken => taskEndKept_step keyed taken
  · exact fun s a s' keyed _ taken => keyed_step keyed taken

/-- A job whose only task has been in progress for longer than its limit. -/
def overdueDb : Db where
  jobs := [("a", { toEntity "$updateShadow/x" ["thing"] none none (some ⟨1⟩) with status := .inProgress })]
  tasks := numbered 1 ((toTaskEntities 0 "a" "$updateShadow/x" ["thing"]).map fun t =>
    { t with status := .inProgress, startedAt := some 0 })
  nextTaskId := 2
  returning := true
  positive := second_positive
  given := numbered_given (by decide)

/-- The task is preloaded, then canceled, and then the schedule loop checks its copy. -/
def overdueRun : List Action :=
  List.replicate 4 (.rollout true) ++ [.call (.cancelTask "thing" "a" 0 true), .serve 0 true] ++
  [.rolloutTick, .rollout true, .rollout true]

/-- The canceled task becomes a task that timed out. -/
theorem canceled_task_times_out : Keyed overdueDb ∧
    (execute step (boot overdueDb 120000) overdueRun).map (fun s =>
      s.db.tasks.map fun row => row.2.status) = some [.canceled] ∧
    (execute step (boot overdueDb 120000) (overdueRun ++ [.rollout true])).map (fun s =>
      s.db.tasks.map fun row => row.2.status) = some [.timedOut] :=
  ⟨by decide, rfl, rfl⟩

/-- In a run from a table whose tasks are stamped every task stays stamped if and
only if no result of a task is written. -/
theorem tasks_stamped_iff (db : {db : Db // Keyed db ∧ Stamped db}) (clock : Int)
    (actions : List Action) :
    Always step (fun _ _ s' => Stamped s'.db) (boot db.1 clock) actions ↔
      Meets step (fun s a => ¬(a = .change true ∧ Reports s)) (boot db.1 clock) actions := by
  refine always_iff_meets (fun s => Keyed s.db ∧ Stamped s.db) ?_ ?_ actions db.2
  · exact fun s a s' sound taken => stamped_step sound.1 sound.2 taken
  · exact fun s a s' sound free taken =>
      ⟨keyed_step sound.1 taken, (stamped_step sound.1 sound.2 taken).mpr free⟩

/-- A job is created, and its task is put, submitted and done. -/
def resultRun : List Action :=
  List.replicate 3 (.rollout true) ++
  [.call (.createJob "a" "$updateShadow/x" ["thing"] none none none), .serve 0 true, .serve 0 true,
    .serve 0 true, .run 0 true, .run 0 true, .recvPending 0] ++
  List.replicate 4 (.rollout true) ++ [.recvPut, .sysOpTick, .sysOp none true, .sysOp none true] ++
  [.recvSent, .change true, .recvChange, .work 0 true, .recvResult 0]

theorem emptyDb_stamped : Stamped emptyDb := by
  intro row member
  exact absurd member List.not_mem_nil

/-- The task that succeeded has no time of completion. -/
theorem succeeded_task_unstamped : Keyed emptyDb ∧ Stamped emptyDb ∧
    (execute step (boot emptyDb 0) (resultRun ++ [.change true])).map (fun s =>
      s.db.tasks.map fun row => (row.2.status, row.2.completedAt)) = some [(.succeeded, none)] :=
  ⟨by decide, emptyDb_stamped, rfl⟩

/-- In a run from a keyed table the runner forwards written results only, if and only
if no write of a result fails. -/
theorem forwards_written_iff (db : {db : Db // Keyed db}) (clock : Int) (actions : List Action) :
    Always step (fun _ _ s' => ForwardsWritten s') (boot db.1 clock) actions ↔
      Meets step (fun s a => ¬(a = .change false ∧ Reports s)) (boot db.1 clock) actions := by
  refine always_iff_meets (fun s => Known s ∧ ForwardsWritten s) ?_ ?_ actions ?_
  · exact fun s a s' sound taken => forwardsWritten_step sound.1 sound.2 taken
  · exact fun s a s' sound free taken =>
      ⟨known_step sound.1 taken, (forwardsWritten_step sound.1 sound.2 taken).mpr free⟩
  · exact ⟨known_boot db.2 clock, fun _ sends => by cases sends⟩

/-- The message that goes on to the loop of the rollouts. -/
def ChangePc.outgoing : ChangePc → Option TaskChangeMsg
  | .send msg => some msg
  | _ => none

/-- The database does not answer, and the result goes on. -/
theorem failed_write_forwarded :
    ∃ s, execute step (boot emptyDb 0) (resultRun ++ [.change false]) = some s ∧ ¬ForwardsWritten s := by
  have stored : (execute step (boot emptyDb 0) (resultRun ++ [.change false])).map (fun s =>
      s.db.tasks.map fun row => (row.1, row.2.status)) = some [(1, .sent)] := rfl
  have sent : (execute step (boot emptyDb 0) (resultRun ++ [.change false])).map (fun s =>
      s.memory.change.outgoing.map fun msg => (msg.task.taskId, msg.status)) =
      some (some (1, .succeeded)) := rfl
  obtain ⟨s, reached, rows⟩ := Option.map_eq_some_iff.mp stored
  rw [reached, Option.map_some, Option.some.injEq] at sent
  refine ⟨s, reached, fun written => ?_⟩
  cases here : s.memory.change with
  | send msg =>
    simp only [here, ChangePc.outgoing, Option.map_some, Option.some.injEq, Prod.mk.injEq] at sent
    have member : (1, TaskStatus.sent) ∈ s.db.tasks.map fun row => (row.1, row.2.status) := by simp [rows]
    obtain ⟨row, present, same⟩ := List.mem_map.mp member
    simp only [Prod.mk.injEq] at same
    have finished := written msg here (by rw [sent.2]; rfl) row present (same.1.trans sent.1.symm)
    rw [same.2] at finished
    cases finished
  | select | update _ => simp [here, ChangePc.outgoing] at sent

end Tio.Job
