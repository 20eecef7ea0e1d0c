import Tio.Job.Opened

namespace Tio.Job

open Tio.Core TaskQueue

/-- The loop pops a task of the job and finds no context that goes on. -/
def givesUp (jobId : String) (m : Memory) : Action → Bool
  | .sysOp .. =>
    match m.sysOp with
    | .pop c => c < Memory.concurrentOnTick && (TaskQueue.pop m.curQ).any fun (t, _) => t.jobId = jobId && m.barred jobId
    | _ => false
  | _ => false

/-- An item whose job did not begin is cleared while the runner has tasks of the job. -/
def abandons (jobId : String) (m : Memory) : Action → Bool
  | .rollout _ =>
    match m.rollout with
    | .clear i _ => (m.pendingJobs[i]?).any (fun v => v.context.jobId = jobId && v.context.status ≠ .inProgress) &&
        m.waiting.any fun t => t.jobId = jobId
    | _ => false
  | _ => false

/-- The step ends the task: its result is written, or the timeout filter drops it. -/
inductive EndsTask (now : Int) (m : Memory) (taskId : Int) : Action → Prop
  | reported (ok : Bool) (msg : TaskChangeMsg) (here : m.change = .update msg)
      (ends : isTaskTerminal msg.status = true) (named : msg.task.taskId = taskId) :
      EndsTask now m taskId (.change ok)
  | timedOut (ok : Bool) (i l : Nat) (t : Task) (rest remain : List Task) (v : PendingJobItem) (minutes : Int)
      (here : m.rollout = .timeout i l (t :: rest) remain) (found : m.pendingJobs[i]? = some v)
      (limit : timeoutMinutes v.context = some minutes) (late : isTimeout now minutes t = true)
      (named : t.taskId = taskId) : EndsTask now m taskId (.rollout ok)

/-- A result that is written is the one of a task that was submitted. -/
def Resulted (m : Memory) : Prop :=
  ∀ msg, m.change = .update msg → isTaskTerminal msg.status = true → msg.task ∈ m.submitted

section

variable {now : Int} {m m' : Memory} {reply : Reply} {a : Action}

theorem still_submitted (taken : resume now m reply a = some m') {t : Task} (member : t ∈ m.submitted) :
    t ∈ m'.submitted := by
  rcases pool_step taken with same | ⟨u, -, more⟩
  · exact same ▸ member
  · exact more ▸ List.mem_append_left _ member

theorem resulted_step (resulted : Resulted m) (taken : resume now m reply a = some m') : Resulted m' := by
  intro msg here ends
  have frame := resume_frame taken
  cases a with
  | recvSent =>
    simp only [resume] at taken
    split at taken
    · cases taken
      cases here
      cases ends
    · cases taken
  | recvResult i =>
    have still := fun t => still_submitted (t := t) taken
    simp only [resume] at taken
    split at taken
    · rename_i t status idle sender
      have own : t ∈ m.submitted := List.mem_map.mpr ⟨_, List.mem_of_getElem? sender, rfl⟩
      cases taken
      cases here
      exact still t own
    · cases taken
  | change ok =>
    simp only [resume, Memory.changeNext] at taken
    split at taken <;> cases taken
    cases here
  | recvChange =>
    simp only [resume] at taken
    split at taken <;> cases taken
    cases here
  | _ => exact still_submitted taken (resulted msg (frame.change rfl ▸ here) ends)

end

section

variable {s s' : State} {a : Action} {jobId : String} {taskId : Int}

theorem exec_task_reply {now : Int} {db : Db} {op : DbOp} {row : Int × TaskEntity}
    (replied : (op.exec now db).2 = .task row) :
    (∃ thingId other version force, op = .cancelTask thingId other version force) ∨
      ∃ thingId other id force, op = .deleteTask thingId other id force := by
  cases op with
  | cancelTask thingId other version force => exact .inl ⟨thingId, other, version, force, rfl⟩
  | deleteTask thingId other id force => exact .inr ⟨thingId, other, id, force, rfl⟩
  | _ =>
    simp only [DbOp.exec, Db.cancelJob, Db.deleteJob, Db.createTasks, Db.reportTask] at replied
    grind

/-- A task of a job that nobody ends is over with its result or by the timeout filter. -/
theorem alive_step (grounded : Grounded s) (staged : Staged s.memory) (opened : Opened jobId s)
    (spares : endsJob jobId s a = false) (taken : step s a = some s') (alive : Alive jobId s.db taskId) :
    Alive jobId s'.db taskId ∨ EndsTask s.clock s.memory taskId a := by
  rcases step_db taken with ⟨same, -⟩ | ⟨op, requested, answered, same⟩
  · exact .inl (same ▸ alive)
  · have sent := requests_of_request requested
    have after : Alive jobId (op.exec s.clock s.db).1 taskId ∨ op.Ending s.clock s.db jobId taskId :=
      alive_exec grounded.known.keyed s.clock alive
    rcases after with still | ending
    · exact .inl (same ▸ still)
    · right
      cases ending with
      | cancelJob force =>
        cases sent with
        | cancelJob ok k _ _ here => exact absurd rfl (opened.spared _ (List.mem_of_getElem? here) force)
        | preload _ _ _ _ _ _ finishes | drained _ _ _ _ _ _ _ finishes | checked _ _ _ _ _ _ finishes =>
          cases finishes
      | deleteJob force =>
        have going : ∀ {st : Status}, isJobToTerminal st = false → st ≠ .removing := by
          rintro st going rfl
          cases going
        obtain ⟨k, ok, -, here⟩ := opened.deleted_by (fun jobs here j tasks listed =>
          going (opened.works.preload jobs here j tasks listed))
          (fun v member named => going (opened.works.pending v member named)) sent
        exact absurd rfl (opened.spared _ (List.mem_of_getElem? here) force)
      | cancelTasks force =>
        cases sent with
        | endTasks ok i l v here found =>
          have going := opened.works.pending v (List.mem_of_getElem? found) rfl
          rw [staged.ending i v (by rw [here]; rfl) found] at going
          cases going
        | preload _ _ _ _ _ _ finishes | drained _ _ _ _ _ _ _ finishes | checked _ _ _ _ _ _ finishes =>
          cases finishes
      | timeOutTask =>
        cases sent with
        | timeOut ok i l t rest remain v minutes here found limit late =>
          exact .timedOut ok i l t rest remain v minutes here found limit late rfl
        | preload _ _ _ _ _ _ finishes | drained _ _ _ _ _ _ _ finishes | checked _ _ _ _ _ _ finishes =>
          cases finishes
      | reportTask status ends =>
        cases sent with
        | report ok msg here => exact .reported ok msg here ends rfl
        | preload _ _ _ _ _ _ finishes | drained _ _ _ _ _ _ _ finishes | checked _ _ _ _ _ _ finishes =>
          cases finishes
      | answered _ row member replied named =>
        have answer : (access s a).2 = .task row := by
          rw [access, requested]
          simp only [answered, if_true]
          exact replied
        obtain ⟨row', present, here, own, -⟩ := alive
        cases grounded.known.keyed.unique member present (here.trans named.symm)
        rcases exec_task_reply replied with ⟨_, _, _, _, rfl⟩ | ⟨_, _, _, _, rfl⟩
        · cases sent with
          | cancelTask => simp [endsJob, answer, own] at spares
          | preload _ _ _ _ _ _ finishes | drained _ _ _ _ _ _ _ finishes | checked _ _ _ _ _ _ finishes =>
            cases finishes
        · cases sent with
          | deleteTask => simp [endsJob, answer, own] at spares
          | preload _ _ _ _ _ _ finishes | drained _ _ _ _ _ _ _ finishes | checked _ _ _ _ _ _ finishes =>
            cases finishes

end

/-- A job that nobody ends: its tasks that are still to be submitted are not over, and
the runner finds its context as long as it has one of them. -/
structure Steady (jobId : String) (s : State) : Prop where
  grounded : Grounded s
  staged : Staged s.memory
  unlimited : Unlimited s.memory
  owned : ∃ owner, Owned owner s
  resulted : Resulted s.memory
  opened : Opened jobId s
  once : ∀ taskId, s.memory.load (own jobId taskId) ≤ 1
  judged : jobId ∈ s.memory.watch.judged → AllOver jobId s.db
  alive : Awaited jobId (Alive jobId s.db) s.memory
  carried : Carries jobId s.memory → s.memory.barred jobId = false

section

variable {s s' : State} {a : Action} {jobId : String} {taskId : Int}

theorem not_allOver_of_alive {db : Db} (alive : Alive jobId db taskId) : ¬AllOver jobId db := by
  intro settled
  obtain ⟨row, member, -, named, going⟩ := alive
  rw [settled row member named] at going
  cases going

theorem Steady.counted (steady : Steady jobId s) (waits : ∃ t ∈ s.memory.waiting, t.jobId = jobId) :
    s.memory.spent jobId = false := by
  simp [Memory.spent, steady.carried (.inl waits)]

/-- The task that the filter drops was nowhere else. -/
theorem awaited_of_timedOut (steady : Steady jobId s) {i l : Nat} {t : Task} {rest remain : List Task}
    {v : PendingJobItem} (here : s.memory.rollout = .timeout i l (t :: rest) remain)
    (found : s.memory.pendingJobs[i]? = some v) (named : v.context.jobId = jobId) :
    Awaited jobId (· ≠ t.taskId) (s.memory.goto (.timeout i l rest remain)) := by
  have single := steady.opened.single
  have once := steady.once t.taskId
  have going := steady.opened.works.pending v (List.mem_of_getElem? found) named
  have fewer := steady.staged.checking i l _ _ v here found fun u => own jobId t.taskId v.context.jobId u.taskId
  have weighs : own jobId t.taskId v.context.jobId t.taskId = 1 := by rw [named, own_self]
  have loads : v.load (own jobId t.taskId) = tally (fun u => own jobId t.taskId v.context.jobId u.taskId) v.tasks := by
    simp [PendingJobItem.load, tasksLoad, going]
  have counted := le_tally (PendingJobItem.load (own jobId t.taskId)) (List.mem_of_getElem? found)
  rw [List.cons_append, tally_cons, weighs] at fewer
  rw [Memory.load, Memory.centerLoad, Memory.runnerLoad, tally_append s.memory.hand] at once
  have closures : ∀ closure ∈ s.memory.closures, closure.load (own jobId t.taskId) = 0 :=
    tally_eq_zero_iff.mp (by omega)
  have runner : InRunner (fun u => u.jobId = jobId → u.taskId ≠ t.taskId) s.memory :=
    inRunner_of_load steady.counted (by omega) (by omega)
  refine ⟨⟨fun k u place t' within other => ?_, fun jobs stop => ?_, fun i l batch stop => ?_,
    fun item member t' within => ?_⟩, fun context taskIds member other id listed => ?_,
    ⟨runner.queue, runner.offline, runner.hand⟩⟩
  · have place : s.memory.pendingJobs[k]? = some u := place
    have only : i = k := by
      rw [Memory.tokens] at single
      refine tally_unique (PendingJobItem.about jobId) (by omega) found place ?_ ?_
      · rw [PendingJobItem.about, if_pos named]
        exact Nat.one_pos
      · rw [PendingJobItem.about, if_pos other]
        exact Nat.one_pos
    subst only
    rw [found] at place
    cases place
    have left : tally (fun u => own jobId t.taskId v.context.jobId u.taskId) (rest ++ remain) = 0 := by omega
    refine ne_of_own (tally_eq_zero_iff.mp left t' ?_) other
    simpa only [Memory.left, Memory.goto, if_pos] using within
  · cases stop
  · cases stop
  · exact ne_of_own (tally_eq_zero_iff.mp (closures _ member) t' within)
  · exact ne_of_own (tally_eq_zero_iff.mp (closures _ member) id listed) other

/-- The task that a step ends is not to be submitted any more. -/
theorem awaited_of_ended (steady : Steady jobId s) (taken : step s a = some s') (alive : Alive jobId s.db taskId)
    (ended : EndsTask s.clock s.memory taskId a) : Awaited jobId (· ≠ taskId) s'.memory := by
  have resumed := step_resume taken
  obtain ⟨owner, owned⟩ := steady.owned
  have belongs : owner taskId = jobId := by
    obtain ⟨row, member, rfl, named, -⟩ := alive
    rw [owned.rows row member, named]
  cases ended with
  | reported ok msg here ends named =>
    have submitted := steady.resulted msg here ends
    have about : msg.task.jobId = jobId := by rw [← owned.underway.update msg here, named, belongs]
    have nowhere := awaited_of_submitted steady.staged steady.grounded.home steady.opened.works.pending steady.counted
      (steady.once taskId) submitted about named
    refine awaited_step nowhere steady.grounded.known.indexed steady.grounded.home steady.unlimited resumed
      (fun row arrives => nomatch arrives) fun k ok context things taskIds same => nomatch same
  | timedOut ok i l t rest remain v minutes here found limit late named =>
    subst named
    have about : v.context.jobId = jobId := by
      rw [← owned.center.timeout i l _ _ here v found t (by simp), belongs]
    have next : resume s.clock s.memory (access s (.rollout ok)).2 (.rollout ok) =
        some (s.memory.goto (.timeout i l rest remain)) := by
      simp [resume, Memory.rolloutNext, here, found, limit, late]
    rw [Option.some.inj (resumed.symm.trans next)]
    exact awaited_of_timedOut steady here found about

theorem EndsTask.unique {now : Int} {m : Memory} {other : Int} (one : EndsTask now m taskId a)
    (two : EndsTask now m other a) : other = taskId := by
  cases one with
  | reported ok msg here ends named =>
    cases two with
    | reported _ msg' here' ends' named' =>
      rw [here] at here'
      cases here'
      exact named'.symm.trans named
  | timedOut ok i l t rest remain v minutes here found limit late named =>
    cases two with
    | timedOut _ _ _ _ _ _ _ _ here' _ _ _ named' =>
      rw [here] at here'
      cases here'
      exact named'.symm.trans named

/-- What arrives from the database is not over. -/
theorem steady_alive (steady : Steady jobId s) (spares : endsJob jobId s a = false) (taken : step s a = some s') :
    Awaited jobId (Alive jobId s'.db) s'.memory := by
  have keyed := steady.grounded.known.keyed
  have either : Awaited jobId (fun taskId => Alive jobId s.db taskId ∨ Alive jobId s'.db taskId) s'.memory := by
    refine awaited_step (steady.alive.mono fun _ => Or.inl) steady.grounded.known.indexed steady.grounded.home
      steady.unlimited (step_resume taken) (fun row arrives => .inl ?_) ?_
    · obtain ⟨member, ⟨named, going⟩ | ⟨i, context, taskIds, here, named, listed⟩⟩ := arrives_stored arrives
      · exact ⟨row, member, rfl, named, going⟩
      · exact steady.alive.reading context taskIds (List.mem_of_getElem? here) named row.1 listed
    · intro k ok context things taskIds same here named replied taskId listed
      subst same
      obtain ⟨k', ok', context', things', same, here', -, -, db, replied'⟩ :=
        step_of_stores taken ⟨k, ok, context, things, taskIds, rfl, here, named, replied⟩
      cases same
      rw [here] at here'
      cases here'
      rw [replied] at replied'
      cases replied'
      obtain ⟨row, created, rfl⟩ := List.mem_map.mp listed
      obtain ⟨thing, -, made⟩ := List.mem_map.mp (mem_of_numbered created)
      refine .inr ⟨row, ?_, rfl, ?_, ?_⟩
      · rw [db]
        exact List.mem_append_right _ created
      · rw [← made, named]
      · rw [← made]
        rfl
  by_cases all : ∀ taskId, Alive jobId s.db taskId → Alive jobId s'.db taskId
  · exact either.mono fun taskId known => known.elim (all taskId) id
  · obtain ⟨taskId, lost⟩ := not_forall.mp all
    obtain ⟨before, gone⟩ := Classical.not_imp.mp lost
    have ended := (alive_step steady.grounded steady.staged steady.opened spares taken before).resolve_left gone
    refine (either.and (awaited_of_ended steady taken before ended)).mono fun other both => ?_
    obtain ⟨known | after, apart⟩ := both
    · refine (alive_step steady.grounded steady.staged steady.opened spares taken known).resolve_right fun again => ?_
      exact apart (ended.unique again)
    · exact after

theorem removal_of_drops {call : Call} (drops : call.drops = some jobId) :
    ∃ force, call.request.removal = some (jobId, force) := by
  unfold Call.drops at drops
  split at drops <;> cases drops
  · exact ⟨true, rfl⟩
  · exact ⟨_, rfl⟩

/-- A job that the runner has tasks of is not over. -/
theorem Steady.unfinished (steady : Steady jobId s) (carries : Carries jobId s.memory) : ¬AllOver jobId s.db := by
  rcases carries with ⟨t, member, named⟩ | ⟨i, l, rolloutTasks, v, here, found, named, filled⟩
  · exact not_allOver_of_alive (inRunner_iff.mp steady.alive.runner t member named)
  · obtain ⟨v', found', batch⟩ := steady.alive.center.put i l rolloutTasks here
    rw [found] at found'
    cases found'
    obtain ⟨t, member⟩ := List.exists_mem_of_ne_nil rolloutTasks filled
    exact not_allOver_of_alive (batch t member named)

theorem steady_carried (steady : Steady jobId s) (keeps : abandons jobId s.memory a = false)
    (taken : step s a = some s') (carries : Carries jobId s'.memory) : s'.memory.barred jobId = false := by
  have resumed := step_resume taken
  rcases carries_step steady.grounded.known.indexed steady.grounded.home resumed carries with
    before | ⟨i, l, v, here, found, named, system, set⟩
  · cases resume_contexts jobId resumed with
    | kept _ same =>
      rw [Memory.barred, same]
      exact steady.carried before
    | published _ i l v here found named set =>
      simp [Memory.barred, set, steady.opened.works.pending v (List.mem_of_getElem? found) named]
    | updated k v timeout member named set =>
      have going : isJobToTerminal (v.withTimeout timeout).context.status = false :=
        steady.opened.works.pending v member named
      simp [Memory.barred, set, going]
    | cleared ok i l v here found named ended =>
      rcases before with ⟨t, member, own⟩ | ⟨_, _, _, _, stop, -⟩
      · have waits : s.memory.waiting.any (fun t => t.jobId = jobId) = true :=
          List.any_eq_true.mpr ⟨t, member, decide_eq_true own⟩
        simp [abandons, here, found, named, ended, waits] at keeps
      · rw [here] at stop
        cases stop
    | removed k r operation force here removal =>
      exact absurd removal (steady.opened.spared _ (List.mem_of_getElem? here) force)
    | dropped k ok call found drops =>
      obtain ⟨force, removal⟩ := removal_of_drops drops
      exact absurd removal (steady.opened.spared _ (List.mem_of_getElem? found) force)
    | finished todo here | forgotten ok todo here =>
      exact absurd (steady.judged (by rw [here]; rfl)) (steady.unfinished before)
  · simp [Memory.barred, set, steady.opened.works.pending v (List.mem_of_getElem? found) named]

/-- The loop pops what waits in its queue. -/
theorem carries_of_givesUp {m : Memory} (gives : givesUp jobId m a = true) :
    Carries jobId m ∧ m.barred jobId = true := by
  cases a with
  | sysOp online accepted =>
    simp only [givesUp] at gives
    split at gives
    · rename_i c here
      obtain ⟨-, popped⟩ := Bool.and_eq_true_iff.mp gives
      obtain ⟨⟨t, rest⟩, first, about⟩ := (Option.any_eq_true _ _).mp popped
      obtain ⟨named, barred⟩ := Bool.and_eq_true_iff.mp about
      refine ⟨.inl ⟨t, ?_, of_decide_eq_true named⟩, barred⟩
      exact List.mem_append_left _ (List.mem_append_left _ ((pop_perm first).1.mem_iff.mpr List.mem_cons_self))
    · cases gives
  | _ => cases gives

theorem steady_step (steady : Steady jobId s) (spares : endsJob jobId s a = false) (unused : ¬Reuses jobId s a)
    (keeps : abandons jobId s.memory a = false) (taken : step s a = some s') : Steady jobId s' := by
  have resumed := step_resume taken
  have fresh := fresh_of_unused unused
  have single : ∀ (taskId : Int) (other : String) (id : Int), own jobId taskId other id ≠ 0 →
      s.memory.tokens other ≤ 1 := fun taskId other id weighs => jobId_of_own weighs ▸ steady.opened.single
  refine ⟨grounded_step steady.grounded taken, staged_step steady.staged resumed,
    unlimited_step steady.unlimited resumed, owned_step steady.grounded steady.owned taken,
    resulted_step steady.resulted resumed, opened_step steady.opened steady.grounded spares fresh taken,
    fun taskId => ?_, judged_step steady.grounded.known.keyed taken steady.judged steady.opened.unchecked,
    steady_alive steady spares taken, steady_carried steady keeps taken⟩
  · have moved := load_step (own jobId taskId) steady.grounded steady.staged (single taskId)
      (fun other id weighs creates lingers => ?_) taken
    · have less := load_arriving (a := a) (own_le_named jobId taskId) steady.grounded (single taskId)
        (steady.once taskId)
      omega
    · cases jobId_of_own weighs
      obtain ⟨none, quiet⟩ := fresh creates
      rcases lingers with filled | ⟨t, member, named⟩
      · exact filled none
      · exact quiet.runner t (List.mem_append_left _ member) named

theorem steady_boot {db : Db} (keyed : Keyed db) (distinct : (Assoc.keys db.jobs).Nodup)
    (row : ∀ j, Assoc.get jobId db.jobs = some j → j.status ≠ .canceling ∧ j.status ≠ .removing) (clock : Int) :
    Steady jobId (boot db clock) := by
  have grounded := grounded_boot keyed distinct clock
  have idle := grounded.unstarted rfl
  refine ⟨grounded, staged_boot db clock, ?_, owned_boot keyed clock, ?_, opened_boot row clock, fun taskId => ?_, ?_,
    ⟨⟨?_, ?_, ?_, ?_⟩, ?_, idle.runner.mono fun t => False.elim⟩, ?_⟩
  case refine_3 =>
    rw [load_unstarted idle rfl]
    exact Nat.zero_le 1
  all_goals simp [boot, Unlimited, Resulted, WatchPc.judged, Carries, Memory.waiting, Memory.parked, Memory.hand, getTasks]

end

/-- In a run in which the job is not ended, its id is not reused and no item of it is
cleared before it began while the runner has tasks of it, the loop gives up none of its
tasks. -/
theorem never_given_up (jobId : String) (db : {db : Db // Keyed db ∧ (Assoc.keys db.jobs).Nodup})
    (row : ∀ j, Assoc.get jobId db.1.jobs = some j → j.status ≠ .canceling ∧ j.status ≠ .removing) (clock : Int)
    (actions : List Action) (kept : Meets step (fun s a => endsJob jobId s a = false ∧ ¬Reuses jobId s a ∧
      abandons jobId s.memory a = false) (boot db.1 clock) actions) :
    Always step (fun s a _ => givesUp jobId s.memory a = false) (boot db.1 clock) actions := by
  refine Meets.always (Steady jobId) ?_ kept (steady_boot db.2.1 db.2.2 row clock)
  intro s a s' steady condition taken
  obtain ⟨spares, unused, keeps⟩ := condition
  refine ⟨eq_false_of_ne_true fun gives => ?_, steady_step steady spares unused keeps taken⟩
  obtain ⟨carries, barred⟩ := carries_of_givesUp gives
  rw [steady.carried carries] at barred
  cases barred

theorem window_row (j : JobEntity) (stored : Assoc.get "a" windowDb.jobs = some j) :
    j.status ≠ .canceling ∧ j.status ≠ .removing := by
  cases stored
  decide

theorem window_task_not_given_up :
    Always step (fun s a _ => givesUp "a" s.memory a = false) (boot windowDb 0) windowRun :=
  never_given_up "a" ⟨windowDb, by decide, by decide⟩ window_row 0 windowRun (by decide +kernel)

/-- Two tasks of the job `a`: one was sent, and the other one has been in progress. -/
def lateTasks : List TaskEntity :=
  (toTaskEntities 0 "a" "$directMethod/x" ["lamp"]).map (fun t => { t with status := .sent }) ++
    (toTaskEntities 0 "a" "$directMethod/x" ["fan"]).map fun t =>
      { t with status := .inProgress, startedAt := some 0 }

theorem lateTasks_given : ∀ row ∈ numbered 1 lateTasks, 0 < row.1 ∧ row.1 < 3 :=
  numbered_given (by decide)

theorem third_positive : (0 : Int) < 3 := by decide

/-- The window of the job is over, and the row does not know that the job began. -/
def lateDb : Db where
  jobs := [("a", toEntity "$directMethod/x" ["lamp", "fan"] (some ⟨0, some 10, .stopRollout⟩) (some ⟨1⟩) (some ⟨1⟩))]
  tasks := numbered 1 lateTasks
  nextTaskId := 3
  returning := true
  positive := third_positive
  given := lateTasks_given

/-- The task that was sent is put again, and its thing is offline. The other one times
out, the item is cleared, and the thing comes online. -/
def lateRun : List Action := List.flatten [
  List.replicate 4 (.rollout true), [.rolloutTick], List.replicate 6 (.rollout true),
  [.recvPut, .rollout true, .rollout true],
  [.sysOpTick, .sysOp none true, .sysOp (some false) true, .sysOp none true],
  [.elapse 60000, .rolloutTick], List.replicate 6 (.rollout true), [.connect "lamp" true, .sysOp none true]]

theorem late_row (j : JobEntity) (stored : Assoc.get "a" lateDb.jobs = some j) :
    j.status ≠ .canceling ∧ j.status ≠ .removing := by
  cases stored
  decide

theorem late_task_given_up : ¬ ∀ (jobId : String) (db : {db : Db // Keyed db ∧ (Assoc.keys db.jobs).Nodup}),
    (∀ j, Assoc.get jobId db.1.jobs = some j → j.status ≠ .canceling ∧ j.status ≠ .removing) →
    ∀ (clock : Int) (actions : List Action),
      Meets step (fun s a => endsJob jobId s a = false ∧ ¬Reuses jobId s a) (boot db.1 clock) actions →
      Always step (fun s a _ => givesUp jobId s.memory a = false) (boot db.1 clock) actions := by
  intro spared
  have kept : Meets step (fun s a => endsJob "a" s a = false ∧ ¬Reuses "a" s a) (boot lateDb 20) lateRun := by
    decide +kernel
  have every := spared "a" ⟨lateDb, by decide, by decide⟩ late_row 20 lateRun kept
  have given : ¬Always step (fun s a _ => givesUp "a" s.memory a = false) (boot lateDb 20) lateRun := by
    decide +kernel
  exact given every

end Tio.Job
