import Tio.Job.Whereabouts

namespace Tio.Job

open Tio.Core TaskQueue

/-- The window of the job stops its rollout while the item has tasks that were not sent. -/
def strands (jobId : String) (s : State) : Action → Bool
  | .rollout _ =>
    match s.memory.rollout with
    | .outOfTime i _ => (s.memory.pendingJobs[i]?).any fun v => v.context.jobId = jobId &&
        !isJobScheduleBeforeStartTime s.clock v.context &&
        v.context.scheduling.any (fun config => config.endBehavior = .stopRollout) &&
        v.tasks.any fun t => !isTaskOngoing t.status
    | _ => false
  | _ => false

/-- The job is created with an operation that is none of the system. -/
def customizes (jobId : String) : Action → Bool
  | .call (.createJob other operation ..) => other = jobId && !isSysOp operation
  | _ => false

/-- The step leaves the job to the loops, and the database answers. -/
structure Undisturbed (jobId : String) (s : State) (a : Action) : Prop where
  spared : endsJob jobId s a = false
  unused : ¬Reuses jobId s a
  keeps : abandons jobId s.memory a = false
  rolls : strands jobId s a = false
  system : customizes jobId a = false
  answered : a.ok = true

instance (jobId : String) (s : State) (a : Action) : Decidable (Undisturbed jobId s a) :=
  decidable_of_iff (endsJob jobId s a = false ∧ ¬Reuses jobId s a ∧ abandons jobId s.memory a = false ∧
    strands jobId s a = false ∧ customizes jobId a = false ∧ a.ok = true)
    ⟨fun h => ⟨h.1, h.2.1, h.2.2.1, h.2.2.2.1, h.2.2.2.2.1, h.2.2.2.2.2⟩, fun fine =>
      ⟨fine.spared, fine.unused, fine.keeps, fine.rolls, fine.system, fine.answered⟩⟩

/-- The tables with which the program starts: the job is of a system operation and not
about to end, and the preload will look for its tasks. -/
structure Startable (jobId : String) (db : Db) : Prop where
  keyed : Keyed db
  distinct : (Assoc.keys db.jobs).Nodup
  row : ∀ j, Assoc.get jobId db.jobs = some j →
    j.status ≠ .canceling ∧ j.status ≠ .removing ∧ isSysOp j.operation = true
  system : ∀ row ∈ db.tasks, row.2.jobId = jobId → isSysOp row.2.operation = true
  listed : ∀ row ∈ db.tasks, row.2.jobId = jobId → isTaskTerminal row.2.status = false →
    (Assoc.get jobId db.jobs).any (fun j => isPending j.status) = true

/-- The message is not about the job or one of its tasks. -/
def DeleteTaskMsg.Elsewhere (jobId : String) (db : Db) (msg : DeleteTaskMsg) : Prop :=
  if msg.tasks ≠ [] then ∀ taskId ∈ msg.tasks, taskId < db.nextTaskId ∧ ¬Alive jobId db taskId
  else msg.jobId ≠ jobId

/-- A job that is left to the loops, and its tasks. -/
structure Kept (jobId : String) (s : State) : Prop where
  steady : Steady jobId s
  works : Works (fun context => isSysOp context.operation = true) jobId s.memory
  row : ∀ j, Assoc.get jobId s.db.jobs = some j → isSysOp j.operation = true
  rows : ∀ row ∈ s.db.tasks, row.2.jobId = jobId → isSysOp row.2.operation = true
  asked : ∀ call ∈ s.memory.calls, ∀ operation things scheduling rollout timeout,
    call.request = .createJob jobId operation things scheduling rollout timeout → isSysOp operation = true
  center : Held (fun other t => other = jobId → isSysOp t.operation = true) s.memory
  runner : InRunner (fun t => t.jobId = jobId → isSysOp t.operation = true) s.memory
  results : Results s.memory
  emptied : Emptied False jobId s.memory
  calls : ∀ call ∈ s.memory.calls, ∀ operation msg, call.pc = .submit (.delete operation msg) →
    msg.Elsewhere jobId s.db
  closures : ∀ operation msg, .submitted (.delete operation msg) ∈ s.memory.closures → msg.Elsewhere jobId s.db
  loading : s.memory.rollout = .loadJobs → ∀ taskId, Alive jobId s.db taskId →
    (Assoc.get jobId s.db.jobs).any (fun j => isPending j.status) = true
  tracked : ∀ taskId, Alive jobId s.db taskId → Tracked jobId taskId s.memory

section

variable {s s' : State} {a : Action} {jobId : String} {taskId : Int}

/-- A task that is not over was not over, or its id is new. -/
theorem alive_before (keyed : Keyed s.db) (taken : step s a = some s') (given : taskId < s.db.nextTaskId)
    (alive : Alive jobId s'.db taskId) : Alive jobId s.db taskId := by
  by_contra ended
  obtain ⟨row, member, rfl, named, going⟩ := alive
  obtain ⟨old, present, same, own⟩ := (step_rows taken).rows row member given
  have finished : ∀ other ∈ s.db.tasks, other.1 = row.1 → isTaskTerminal other.2.status = true := by
    intro other listed alike
    cases keyed.unique present listed (alike.trans same.symm)
    by_contra unfinished
    exact ended ⟨old, present, same, own.trans named, by simpa using unfinished⟩
  rw [over_step taken given finished row member rfl] at going
  cases going

/-- A new task of the job is one that its creation will read back. -/
theorem tracked_created (grounded : Grounded s) (taken : step s a = some s') (alive : Alive jobId s'.db taskId)
    (fresh : s.db.nextTaskId ≤ taskId) : Tracked jobId taskId s'.memory := by
  obtain ⟨row, member, rfl, named, -⟩ := alive
  obtain ⟨k, ok, context, things, rfl, here, about⟩ := stored_of_new grounded taken member fresh
  have requested : request s.clock s.memory (.run k ok) =
      some (.createTasks (toTaskEntities s.clock context.jobId context.operation things)) :=
    request_of_requests (.createTasks ok k context things here)
  have old : row ∉ s.db.tasks := by
    intro present
    have given := (s.db.given row present).2
    omega
  obtain ⟨closure, next, found, continues, same⟩ := resume_run (step_resume taken)
  rw [here] at found
  cases found
  rcases step_db taken with ⟨still, -⟩ | ⟨op, sent, answered, after⟩
  · exact absurd (still ▸ member) old
  · rw [requested] at sent
    cases sent
    rw [access_answered requested answered] at continues
    rw [after] at member
    simp only [DbOp.exec, Db.createTasks] at member continues
    split at member
    · exact absurd member old
    · rename_i filled
      rw [if_neg filled] at continues
      cases continues
      have created := (List.mem_append.mp member).resolve_left old
      refine .reading context _ ?_ (about.trans named) (List.mem_map_of_mem created)
      rw [same]
      exact mem_set_found here _

theorem pending_of_not_terminal {status : TaskStatus} (going : isTaskTerminal status = false) :
    isTaskPending status = true := by
  cases status <;> first | rfl | cases going

/-- The preload finds the row of the job. -/
theorem tracked_loadJobs (answered : a.ok = true) (taken : step s a = some s')
    (here : s.memory.rollout = .loadJobs)
    (loading : (Assoc.get jobId s.db.jobs).any (fun j => isPending j.status) = true) :
    Tracked jobId taskId s'.memory := by
  have resumed := step_resume taken
  obtain ⟨j, stored, pending⟩ := (Option.any_eq_true _ _).mp loading
  rcases alone_still (by rw [here]; rfl) resumed with ⟨ok, rfl⟩ | ⟨still, -⟩
  · have replied := access_answered (s := s) (request_of_requests (.loadJobs ok here)) answered
    generalize s'.memory = m' at resumed
    cases Memory.rolls_of_rolloutNext resumed with
    | jobsLoaded jobs _ reply =>
      rw [replied] at reply
      cases reply
      refine .loadTasks _ rfl (List.mem_map_of_mem (List.mem_filter.mpr ⟨Assoc.mem_of_get stored, pending⟩))
    | _ => simp_all
  · exact .loadJobs (still.trans here)

/-- The preload finds the task. -/
theorem tracked_loadTasks (answered : a.ok = true) (taken : step s a = some s')
    {jobs : List (String × JobEntity)} (here : s.memory.rollout = .loadTasks jobs) (listed : jobId ∈ Assoc.keys jobs)
    (alive : Alive jobId s.db taskId) : Tracked jobId taskId s'.memory := by
  have resumed := step_resume taken
  rcases alone_still (by rw [here]; rfl) resumed with ⟨ok, rfl⟩ | ⟨still, -⟩
  · have replied := access_answered (s := s) (request_of_requests (.loadTasks ok jobs here)) answered
    generalize s'.memory = m' at resumed
    cases Memory.rolls_of_rolloutNext resumed with
    | tasksLoaded jobs' rows stop reply =>
      rw [here] at stop
      cases stop
      rw [replied] at reply
      cases reply
      obtain ⟨row, member, rfl, named, going⟩ := alive
      obtain ⟨⟨_, j⟩, within, rfl⟩ := List.mem_map.mp listed
      refine .preload _ j _ rfl (List.mem_map_of_mem within) ⟨toTask row, List.mem_map_of_mem ?_, rfl⟩
      refine List.mem_filter.mpr ⟨List.mem_filter.mpr ⟨member, ?_⟩, decide_eq_true named⟩
      simpa [named, pending_of_not_terminal going] using ⟨j, within⟩
    | _ => simp_all
  · exact .loadTasks jobs (still.trans here) listed

/-- The creation reads the task back. -/
theorem tracked_reading (answered : a.ok = true) (taken : step s a = some s') {context : JobContext}
    {taskIds : List Int} (member : .readTasks context taskIds ∈ s.memory.closures) (named : context.jobId = jobId)
    (listed : taskId ∈ taskIds) (alive : Alive jobId s.db taskId) : Tracked jobId taskId s'.memory := by
  rcases closure_step (step_resume taken) member with still | ⟨k, ok, next, rfl, here, continues, after⟩ |
    ⟨k, item, rfl, here, other⟩ | ⟨operation, msg, other⟩
  · exact .reading context taskIds still named listed
  · rw [access_answered (s := s) (request_of_requests (.readTasks ok k context taskIds here)) answered] at continues
    cases continues
    obtain ⟨row, present, rfl, -⟩ := alive
    refine .creating _ after named ⟨toTask row, List.mem_map_of_mem ?_, rfl⟩
    exact List.mem_filter.mpr ⟨present, decide_eq_true listed⟩
  · cases other
  · cases other

theorem tracked_creating (taken : step s a = some s') {item : PendingJobItem}
    (member : .addPendingJob item ∈ s.memory.closures) (named : item.context.jobId = jobId)
    (within : Lists taskId item.tasks) : Tracked jobId taskId s'.memory := by
  rcases closure_step (step_resume taken) member with still | ⟨k, ok, next, rfl, here, continues, after⟩ |
    ⟨k, item', rfl, here, other⟩ | ⟨operation, msg, other⟩
  · exact .creating item still named within
  · cases continues
  · cases other
    obtain ⟨item', idle, sender, same⟩ := resume_recvPending (step_resume taken)
    rw [here] at sender
    cases sender
    rw [same]
    exact .of_item (List.mem_append_right _ List.mem_cons_self) named within (by simp [Memory.startPass, Memory.goto])
  · cases other

/-- The timeout filter drops a task when it is over. -/
theorem timedOut_over {ok : Bool} (answered : Action.ok (.rollout ok) = true) (taken : step s (.rollout ok) = some s')
    {i l : Nat} {t : Task} {rest remain : List Task} {v : PendingJobItem} {minutes : Int}
    (here : s.memory.rollout = .timeout i l (t :: rest) remain) (found : s.memory.pendingJobs[i]? = some v)
    (limit : timeoutMinutes v.context = some minutes) (late : isTimeout s.clock minutes t = true) :
    ¬Alive jobId s'.db t.taskId := by
  have sent := request_of_requests (.timeOut ok i l t rest remain v minutes here found limit late)
  rintro ⟨row, member, same, -, going⟩
  rw [db_answered taken sent answered] at member
  obtain ⟨old, -, rfl⟩ := List.mem_map.mp member
  have same : old.1 = t.taskId := same
  dsimp only at going
  rw [if_pos same] at going
  cases going

/-- The loop loses no task of a job that is left to it. -/
theorem not_loses (kept : Kept jobId s) (fine : Undisturbed jobId s a) (taken : step s a = some s')
    (alive' : Alive jobId s'.db taskId) {k : Nat} {v : PendingJobItem} (found : s.memory.pendingJobs[k]? = some v)
    (named : v.context.jobId = jobId) (ok : Bool) (moves : a = .rollout ok) :
    ¬Loses s.clock (access s a).2 s.memory k v taskId := by
  subst moves
  have member := List.mem_of_getElem? found
  have going := kept.steady.opened.works.pending v member named
  intro loses
  cases loses with
  | drained l t here ends =>
    rw [going] at ends
    cases ends
  | stopped l t config here late scheduled stops within same waits =>
    have rolls := fine.rolls
    have left : v.tasks.any (fun t => !isTaskOngoing t.status) = true :=
      List.any_eq_true.mpr ⟨t, within, by simpa using waits⟩
    simp [strands, here, found, named, late, scheduled, stops, left] at rolls
  | reloaded l rows here =>
    rw [kept.steady.staged.ending k v (by rw [here]; rfl) found] at going
    cases going
  | timedOut l t rest remain minutes here limit late same =>
    exact timedOut_over fine.answered taken here found limit late (same ▸ alive')
  | cleared l here within =>
    obtain ⟨t, member, -⟩ := within
    rw [(kept.emptied k l v (.inr here) found named).resolve_right id] at member
    cases member
  | custom l here custom =>
    rw [kept.works.pending v member named] at custom
    cases custom

/-- The runner gets no message that deletes the task. -/
theorem spares_waiting (kept : Kept jobId s) (taken : step s a = some s') {t : Task} (named : t.jobId = jobId)
    (alive : Alive jobId s.db t.taskId) (msg : DeleteTaskMsg) (gets : a.event s.memory = some (.delete msg)) :
    ¬(RunnerEvent.delete msg).explains t := by
  cases a with
  | recvEndDelete =>
    obtain ⟨i, l, v, idle, here, found, -⟩ := resume_recvEndDelete (step_resume taken)
    simp only [Action.event, Memory.current, here, found, Option.map_some] at gets
    cases gets
    intro about
    have about : t.jobId = v.context.jobId := ((DeleteTaskMsg.names_job _ t).mp about).2
    have going := kept.steady.opened.works.pending v (List.mem_of_getElem? found) (about.symm.trans named)
    rw [kept.steady.staged.ending i v (by rw [here]; rfl) found] at going
    cases going
  | recvDelete k =>
    simp only [Action.event] at gets
    split at gets <;> cases gets
    rename_i operation here
    have elsewhere := kept.closures operation msg (List.mem_of_getElem? here)
    intro about
    simp only [RunnerEvent.explains, DeleteTaskMsg.Names] at about
    rw [DeleteTaskMsg.Elsewhere] at elsewhere
    split at about
    · rename_i given
      rw [if_pos given] at elsewhere
      exact (elsewhere t.taskId about).2 alive
    · rename_i bare
      rw [if_neg bare] at elsewhere
      exact elsewhere (about.2.symm.trans named)
  | recvPut =>
    simp only [Action.event] at gets
    split at gets <;> cases gets
  | _ => cases gets

/-- The task of a worker is over when its result is written. -/
theorem tracked_running (kept : Kept jobId s) (taken : step s a = some s') {w : Worker}
    (member : w ∈ s.memory.workers) (going : w.pc.finishes = false) (named : w.task.jobId = jobId)
    (same : w.task.taskId = taskId) : Tracked jobId taskId s'.memory := by
  rcases running_step (step_resume taken) member going with ⟨w', member', going', alike⟩ | ⟨status, result, here⟩
  · exact .running w' member' going' (alike ▸ named) (alike ▸ same)
  · exact .reported _ here (kept.results w member status result) named same

/-- Somebody goes on with a task that is not over. -/
theorem tracked_step (kept : Kept jobId s) (fine : Undisturbed jobId s a) (taken : step s a = some s')
    (alive' : Alive jobId s'.db taskId) : Tracked jobId taskId s'.memory := by
  have steady := kept.steady
  have resumed := step_resume taken
  by_cases given : taskId < s.db.nextTaskId
  · have alive := alive_before steady.grounded.known.keyed taken given alive'
    cases kept.tracked taskId alive with
    | loadJobs here => exact tracked_loadJobs fine.answered taken here (kept.loading here taskId alive)
    | loadTasks jobs here listed => exact tracked_loadTasks fine.answered taken here listed alive
    | preload jobs j tasks here listed within => exact preload_tracked resumed here listed within
    | reading context taskIds member named listed => exact tracked_reading fine.answered taken member named listed alive
    | creating item member named within => exact tracked_creating taken member named within
    | pending k v found named within =>
      refine pending_step resumed steady.unlimited found named within (not_loses kept fine taken alive' found named)
        ?_ ?_
      · intro i r operation force _ here removes
        exact steady.opened.spared _ (List.mem_of_getElem? here) force removes
      · intro todo _ here
        exact not_allOver_of_alive alive (steady.judged (by rw [here]; rfl))
    | put i l rolloutTasks v here found named within =>
      exact put_tracked resumed steady.grounded.home here found named within
    | waiting t member named same =>
      obtain ⟨owner, owned⟩ := steady.owned
      have goes := waiting_step resumed steady.grounded.known.indexed steady.staged.parked owned.runner member
        (named ▸ steady.carried (.inl ⟨t, member, named⟩)) (inRunner_iff.mp kept.runner t member named)
        (spares_waiting kept taken named (same ▸ alive))
      rcases goes with waits | runs
      · exact .waiting t waits named same
      · exact .running _ runs rfl named same
    | running w member going named same => exact tracked_running kept taken member going named same
    | reported msg here ends named same =>
      rcases reported_stays resumed here with ⟨ok, rfl⟩ | still
      · obtain rfl : ok = true := fine.answered
        obtain ⟨row, member, here', -, going⟩ := alive'
        rw [over_of_reported steady.grounded.known.keyed here ends taken row member (here'.trans same.symm)] at going
        cases going
      · exact .reported msg still ends named same
  · exact tracked_created steady.grounded taken alive' (by omega)

/-- The operation of a row is the one with which it was created. -/
theorem kept_row (kept : Kept jobId s) (taken : step s a = some s') (j' : JobEntity)
    (stored' : Assoc.get jobId s'.db.jobs = some j') : isSysOp j'.operation = true := by
  rcases step_rowFrom taken stored' with same | ⟨op, sent, -, source⟩
  · exact kept.row j' same
  · cases source with
    | kept _ _ stored => exact kept.row j' stored
    | created _ missing =>
      cases sent with
      | createJob ok k _ operation things scheduling rollout timeout here =>
        exact kept.asked _ (List.mem_of_getElem? here) operation things scheduling rollout timeout rfl
      | preload _ _ _ _ _ _ finishes | drained _ _ _ _ _ _ _ finishes | checked _ _ _ _ _ _ finishes =>
        cases finishes
    | updated change j stored => exact kept.row j stored
    | canceled force j stored => exact kept.row j stored

theorem kept_rows (kept : Kept jobId s) (taken : step s a = some s') :
    ∀ row ∈ s'.db.tasks, row.2.jobId = jobId → isSysOp row.2.operation = true := by
  intro row member named
  rcases step_db taken with ⟨same, -⟩ | ⟨op, requested, -, same⟩
  · exact kept.rows row (same ▸ member) named
  · rw [same] at member
    cases tasksAfter_exec kept.steady.grounded.known.keyed s.clock op with
    | same _ tasks => exact kept.rows row (tasks ▸ member) named
    | canceled _ force chosen _ tasks =>
      rw [tasks] at member
      obtain ⟨old, present, rfl⟩ := List.mem_map.mp member
      dsimp only at named ⊢
      split at named <;> rename_i picked <;> simp only [picked] at * <;> exact kept.rows old present named
    | timedOut _ tasks | reported _ _ _ tasks =>
      rw [tasks] at member
      obtain ⟨old, present, rfl⟩ := List.mem_map.mp member
      dsimp only at named ⊢
      split at named <;> rename_i picked <;> simp only [picked] at * <;> exact kept.rows old present named
    | deleted _ keep tasks =>
      rw [tasks] at member
      exact kept.rows row (List.mem_filter.mp member).1 named
    | created fresh tasks =>
      rw [tasks] at member
      rcases List.mem_append.mp member with old | new
      · exact kept.rows row old named
      · obtain ⟨ok, k, context, things, rfl, here, rfl⟩ := request_createTasks requested
        obtain ⟨thing, -, made⟩ := List.mem_map.mp (mem_of_numbered new)
        rw [← made] at named ⊢
        exact kept.works.closures _ (List.mem_of_getElem? here) context rfl named

theorem kept_asked (kept : Kept jobId s) (fine : Undisturbed jobId s a) (taken : step s a = some s') :
    ∀ call ∈ s'.memory.calls, ∀ operation things scheduling rollout timeout,
      call.request = .createJob jobId operation things scheduling rollout timeout → isSysOp operation = true := by
  intro call member operation things scheduling rollout timeout same
  obtain ⟨k, found⟩ := List.getElem?_of_mem member
  cases resume_calls (step_resume taken) found with
  | before _ _ _ here => exact kept.asked call (List.mem_of_getElem? here) _ _ _ _ _ same
  | started r =>
    have same : r = .createJob jobId operation things scheduling rollout timeout := same
    have system := fine.system
    rw [same] at system
    simpa [customizes] using system
  | updated => cases same
  | removed _ r _ _ _ here => exact kept.asked _ (List.mem_of_getElem? here) _ _ _ _ _ same
  | served _ _ old pc here => exact kept.asked old (List.mem_of_getElem? here) _ _ _ _ _ same

/-- The tasks that arrive have the operation of the job. -/
theorem arrives_system (kept : Kept jobId s) {other : String} {row : Int × TaskEntity}
    (arrives : Arrives s.memory (access s a).2 a other row) (named : other = jobId) :
    isSysOp (toTask row).operation = true := by
  obtain ⟨member, ⟨own, -⟩ | ⟨i, context, taskIds, here, own, listed⟩⟩ := arrives_stored arrives
  · exact kept.rows row member (own.trans named)
  · have read := (kept.steady.grounded.reading context taskIds (List.mem_of_getElem? here)).2.2 row member listed
    exact kept.rows row member (read.trans (own.trans named))

/-- A message that is not about the job stays so. -/
theorem elsewhere_step {msg : DeleteTaskMsg} (keyed : Keyed s.db) (taken : step s a = some s')
    (elsewhere : msg.Elsewhere jobId s.db) : msg.Elsewhere jobId s'.db := by
  have grows := (step_rows taken).given
  rw [DeleteTaskMsg.Elsewhere] at elsewhere ⊢
  split at elsewhere
  · rename_i ids
    rw [if_pos ids]
    intro taskId member
    obtain ⟨given, ended⟩ := elsewhere taskId member
    exact ⟨by omega, fun alive => ended (alive_before keyed taken given alive)⟩
  · rename_i bare
    rwa [if_neg bare]

/-- A request about another job, or about a task of one, sends messages about these. -/
theorem kept_calls (kept : Kept jobId s) (taken : step s a = some s') :
    ∀ call ∈ s'.memory.calls, ∀ operation msg, call.pc = .submit (.delete operation msg) →
      msg.Elsewhere jobId s'.db := by
  intro call member operation msg stop
  have keyed := kept.steady.grounded.known.keyed
  obtain ⟨k, found⟩ := List.getElem?_of_mem member
  cases resume_calls (step_resume taken) found with
  | before _ _ _ here => exact elsewhere_step keyed taken (kept.calls call (List.mem_of_getElem? here) operation msg stop)
  | started r => cases stop
  | updated => cases stop
  | removed _ r _ other force here removal =>
    cases stop
    rintro rfl
    exact kept.steady.opened.spared _ (List.mem_of_getElem? here) force removal
  | served _ ok old pc here continues =>
    have answers : ∀ {row : Int × TaskEntity}, (access s (.serve k ok)).2 = .task row →
        DeleteTaskMsg.Elsewhere jobId s'.db (.task row.1) := by
      intro row replied
      obtain ⟨op, sent, answered, exec⟩ := replied_of_ne_failed (s := s) (a := .serve k ok) (by simp [replied])
      rw [replied] at exec
      have gone := exec_task_gone exec
      rw [← db_answered taken (request_of_requests sent) answered] at gone
      rw [DeleteTaskMsg.Elsewhere, if_pos (List.cons_ne_nil _ _)]
      intro id member
      cases List.mem_singleton.mp member
      refine ⟨gone.given, ?_⟩
      rintro ⟨row', present, same, -, going⟩
      rw [gone.finished row' present same] at going
      cases going
    cases serves_of_serveNext continues with
    | taskCanceled _ _ _ _ row replied | taskDeleted _ _ _ _ row replied =>
      cases stop
      exact answers replied
    | _ => cases stop

theorem kept_closures (kept : Kept jobId s) (taken : step s a = some s') :
    ∀ operation msg, .submitted (.delete operation msg) ∈ s'.memory.closures → msg.Elsewhere jobId s'.db := by
  intro operation msg member
  have keyed := kept.steady.grounded.known.keyed
  cases resume_closures (step_resume taken) member with
  | before _ _ old => exact elsewhere_step keyed taken (kept.closures operation msg old)
  | submitted i ok r work here =>
    exact elsewhere_step keyed taken (kept.calls _ (List.mem_of_getElem? here) operation msg rfl)
  | next i ok old _ here continues =>
    cases Memory.runs_of_closureNext continues

/-- Until the preload reads the jobs nobody changes the row or adds a task. -/
theorem still_loading (unended : Unended jobId s) (grounded : Grounded s) (taken : step s a = some s')
    (here' : s'.memory.rollout = .loadJobs) :
    s.memory.rollout = .loadJobs ∧ Assoc.get jobId s'.db.jobs = Assoc.get jobId s.db.jobs ∧
      ∀ taskId, Alive jobId s'.db taskId → Alive jobId s.db taskId := by
  have resumed := step_resume taken
  have here : s.memory.rollout = .loadJobs := by
    rcases rollout_still resumed with ⟨ok, rfl⟩ | same | ⟨i, l, stop⟩ | ⟨i, l, n, stop⟩ | ⟨i, l, -, stop⟩
    · generalize s'.memory = m' at resumed here'
      cases Memory.rolls_of_rolloutNext resumed with
      | ended | checked | published =>
        simp only [Memory.goto] at here'
        split at here' <;> cases here'
      | _ => cases here'
    · exact same ▸ here'
    all_goals
      rw [stop] at here'
      cases here'
  have waits : s.memory.rollout.started = false := by rw [here]; rfl
  have idle := grounded.unstarted waits
  have silent := unended.silent (.inl waits)
  refine ⟨here, ?_, fun taskId alive' => alive_before grounded.known.keyed taken ?_ alive'⟩
  case refine_2 =>
    by_contra fresh
    obtain ⟨row, member, rfl, -⟩ := alive'
    obtain ⟨k, ok, context, things, -, creating, -⟩ := stored_of_new grounded taken member (by omega)
    simp [idle.closures] at creating
  case refine_1 =>
    rcases step_jobs taken with same | ⟨op, sent, -, after⟩
    · rw [same]
    · generalize s'.db.jobs = rows at after
      cases sent with
      | checked ok other told todo op stop finishes =>
        have apart : other ≠ jobId := by
          rintro rfl
          exact silent.watch (by rw [stop]; exact List.mem_cons_self)
        cases finishes with
        | update =>
          cases after with
          | same => rfl
          | updated => simp [Assoc.get_set, apart]
        | delete =>
          cases after with
          | same => rfl
          | deleted => simp [Assoc.get_erase, apart]
      | loadTasks _ _ stop | preload _ _ _ _ _ stop | start _ _ _ _ stop | drained _ _ _ _ _ stop
      | endTasks _ _ _ _ stop | endJob _ _ _ _ _ stop | reload _ _ _ _ stop | timeOut _ _ _ _ _ _ _ _ stop =>
        rw [here] at stop
        cases stop
      | createTasks _ _ _ _ sender | readTasks _ _ _ _ sender => simp [idle.closures] at sender
      | loadJobs | count | getJob | report =>
        cases after with
        | same => rfl
      | _ => simp_all [idle.calls]

theorem kept_loading (kept : Kept jobId s) (taken : step s a = some s') (here' : s'.memory.rollout = .loadJobs)
    (alive' : Alive jobId s'.db taskId) :
    (Assoc.get jobId s'.db.jobs).any (fun j => isPending j.status) = true := by
  obtain ⟨here, same, before⟩ := still_loading kept.steady.opened.toUnended kept.steady.grounded taken here'
  rw [same]
  exact kept.loading here taskId (before taskId alive')

theorem kept_runner (kept : Kept jobId s) (taken : step s a = some s') :
    InRunner (fun t => t.jobId = jobId → isSysOp t.operation = true) s'.memory := by
  have grounded := kept.steady.grounded
  refine inRunner_step grounded.known.indexed kept.runner (fun i l rolloutTasks here t member named => ?_)
    (step_resume taken)
  obtain ⟨v, found, own⟩ := grounded.home.put i l rolloutTasks here
  obtain ⟨v', found', system⟩ := kept.center.put i l rolloutTasks here
  cases found.symm.trans found'
  exact system t member ((own t member).symm.trans named)

theorem kept_unforced (kept : Kept jobId s) (i l : Nat) (v : PendingJobItem) (here : s.memory.rollout = .endJob i l true)
    (found : s.memory.pendingJobs[i]? = some v) (named : v.context.jobId = jobId) (_ : endForce v.context = true) :
    False := by
  have going := kept.steady.opened.works.pending v (List.mem_of_getElem? found) named
  rw [kept.steady.staged.ending i v (by rw [here]; rfl) found] at going
  cases going

theorem kept_step (kept : Kept jobId s) (fine : Undisturbed jobId s a) (taken : step s a = some s') : Kept jobId s' := by
  have steady := kept.steady
  have grounded := steady.grounded
  have resumed := step_resume taken
  refine ⟨steady_step steady fine.spared fine.unused fine.keeps taken, ?_, kept_row kept taken, kept_rows kept taken,
    kept_asked kept fine taken, held_step kept.center resumed fun other row arrives named => arrives_system kept arrives named,
    kept_runner kept taken, results_step kept.results resumed,
    emptied_step resumed (kept_unforced kept) kept.emptied, kept_calls kept taken,
    kept_closures kept taken, fun here taskId alive => kept_loading kept taken here alive,
    fun taskId alive => tracked_step kept fine taken alive⟩
  exact works_step grounded kept.works (fun j stored _ => kept.row j stored) (fun j stored _ _ => kept.row j stored)
    (fun _ system _ => system) (fun _ _ system => system) (fun _ _ _ system => system) taken

theorem kept_boot {db : Db} (startable : Startable jobId db) (clock : Int) : Kept jobId (boot db clock) := by
  have steady := steady_boot startable.keyed startable.distinct
    (fun j stored => ⟨(startable.row j stored).1, (startable.row j stored).2.1⟩) clock
  have idle := steady.grounded.unstarted rfl
  refine ⟨steady, works_boot _ jobId db clock, fun j stored => (startable.row j stored).2.2, startable.system, ?_,
    ⟨?_, ?_, ?_, ?_, ?_⟩, idle.runner.mono fun t => False.elim, ?_, ?_, ?_, ?_, fun _ taskId alive => ?_,
    fun taskId alive => .loadJobs rfl⟩
  case refine_11 =>
    obtain ⟨row, member, rfl, named, going⟩ := alive
    exact startable.listed row member named going
  all_goals simp [boot, Results, Emptied]

/-- Who has a task is not done with its job. -/
theorem not_quiet_of_tracked {m : Memory} (tracked : Tracked jobId taskId m) : ¬Quiet jobId m := by
  intro quiet
  have started := quiet.started
  cases tracked with
  | loadJobs here | loadTasks _ here | preload _ _ _ here =>
    rw [here] at started
    cases started
  | reading context taskIds member named => simpa [Closure.brings, named] using quiet.closures _ member
  | creating item member named => simpa [Closure.brings, named] using quiet.closures _ member
  | pending k v found named => exact quiet.pending v (List.mem_of_getElem? found) named
  | put i l rolloutTasks v here found named => exact quiet.pending v (List.mem_of_getElem? found) named
  | waiting t member named => exact quiet.runner t member named
  | running w member going named =>
    exact quiet.reports w.task (mem_reported_iff.mpr (.inr (.inr ⟨w, member, going, rfl⟩))) named
  | reported msg here ends named =>
    exact quiet.reports msg.task (mem_reported_iff.mpr (.inr (.inl ⟨msg, .inl here, rfl⟩))) named

end

/-- In a run that leaves the job to the loops, every task of it that is stored and not over
is with somebody who goes on with it, so all are over when nobody has to do with it. -/
theorem unfinished_tracked (jobId : String) (db : {db : Db // Startable jobId db}) (clock : Int) (actions : List Action)
    (undisturbed : Meets step (Undisturbed jobId) (boot db.1 clock) actions) :
    Always step (fun _ _ s' => (∀ taskId, Alive jobId s'.db taskId → Tracked jobId taskId s'.memory) ∧
      (Quiet jobId s'.memory → AllOver jobId s'.db)) (boot db.1 clock) actions := by
  refine Meets.always (Kept jobId) ?_ undisturbed (kept_boot db.2 clock)
  intro s a s' kept fine taken
  have after := kept_step kept fine taken
  refine ⟨⟨after.tracked, fun quiet row member named => ?_⟩, after⟩
  by_contra unfinished
  exact not_quiet_of_tracked (after.tracked row.1 ⟨row, member, rfl, named, by simpa using unfinished⟩) quiet

theorem emptyDb_startable : Startable "a" emptyDb := by
  refine ⟨by decide, by decide, fun j stored => ?_, fun row member => ?_, fun row member => ?_⟩
  · cases stored
  · cases member
  · cases member

/-- A job is created, its task is carried out, and the job is finished. -/
def createdRun : List Action := List.flatten [
  List.replicate 3 (.rollout true), [.call (.createJob "a" "$updateShadow/x" ["lamp"] none none none)],
  List.replicate 3 (.serve 0 true), [.run 0 true, .run 0 true, .recvPending 0],
  List.replicate 4 (.rollout true), [.recvPut, .rollout true, .rollout true],
  [.sysOpTick, .sysOp none true, .sysOp none true, .recvSent, .sysOp none true, .change true, .recvChange],
  [.work 0 true, .recvResult 0, .change true, .recvChange, .watchTick ["a"]],
  List.replicate 4 (.watch true), [.recvFinished, .watch true]]

theorem created_task_tracked :
    (execute step (boot emptyDb 0) createdRun).map (fun s => s.db.tasks.map fun row => row.2.status) =
      some [.succeeded] ∧
    Always step (fun _ _ s' => (∀ taskId, Alive "a" s'.db taskId → Tracked "a" taskId s'.memory) ∧
      (Quiet "a" s'.memory → AllOver "a" s'.db)) (boot emptyDb 0) createdRun :=
  ⟨by decide +kernel, unfinished_tracked "a" ⟨emptyDb, emptyDb_startable⟩ 0 createdRun (by decide +kernel)⟩

/-- The window of the job is over before its task was sent. -/
def stoppedDb : Db where
  jobs := [("a", toEntity "$updateShadow/x" ["lamp"] (some ⟨0, some 10, .stopRollout⟩) none none)]
  tasks := numbered 1 (toTaskEntities 0 "a" "$updateShadow/x" ["lamp"])
  nextTaskId := 2
  returning := true
  positive := second_positive
  given := numbered_given (by decide)

theorem stoppedDb_startable : Startable "a" stoppedDb := by
  refine ⟨by decide, by decide, fun j stored => ?_, fun row member => ?_, fun row member => ?_⟩
  · cases stored
    decide
  · cases List.mem_singleton.mp member
    decide
  · cases List.mem_singleton.mp member
    decide

/-- The window is over at the first tick, and the item is dropped. -/
def stoppedRun : List Action := List.flatten [
  List.replicate 4 (.rollout true), [.rolloutTick], List.replicate 4 (.rollout true), [.recvPut, .rollout true]]

theorem stopped_task_stranded : ∃ s, execute step (boot stoppedDb 20) stoppedRun = some s ∧
    Alive "a" s.db 1 ∧ ¬Tracked "a" 1 s.memory := by
  have stranded : (execute step (boot stoppedDb 20) stoppedRun).any (fun s => decide (Quiet "a" s.memory) &&
      s.db.tasks.any fun row => row.1 = 1 && row.2.jobId = "a" && isTaskTerminal row.2.status = false) = true := by
    decide +kernel
  obtain ⟨s, ran, both⟩ := (Option.any_eq_true _ _).mp stranded
  obtain ⟨quiet, stays⟩ := Bool.and_eq_true_iff.mp both
  obtain ⟨row, member, fits⟩ := List.any_eq_true.mp stays
  simp only [Bool.and_eq_true, decide_eq_true_eq] at fits
  obtain ⟨⟨same, named⟩, going⟩ := fits
  exact ⟨s, ran, ⟨row, member, same, named, going⟩, fun tracked => not_quiet_of_tracked tracked (of_decide_eq_true quiet)⟩

end Tio.Job
