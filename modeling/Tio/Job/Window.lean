import Tio.Job.Delete
import Tio.Job.Planned

namespace Tio.Job

open Tio.Core TaskQueue

/-- The tasks that a step submits to the pool. -/
def Memory.submissions (m m' : Memory) : List Task := m'.submitted.drop m.submitted.length

/-- The loop handles the end of the schedule of the job as a cancellation. When the runner
has the tasks of the job, it receives the message that deletes them. -/
def endsWindow (jobId : String) (s : State) : Action → Bool
  | .rollout _ =>
    match s.memory.rollout with
    | .outOfTime i _ => (s.memory.pendingJobs[i]?).any fun v => v.context.jobId = jobId &&
        !isJobScheduleBeforeStartTime s.clock v.context && !isSysOp v.context.operation &&
        v.context.scheduling.any fun config => config.endBehavior ≠ .stopRollout
    | _ => false
  | .recvEndDelete =>
    match s.memory.rollout with
    | .endSend i _ => (s.memory.pendingJobs[i]?).any fun v => v.context.jobId = jobId
    | _ => false
  | _ => false

/-- The window of the job is kept along a run. Before its start nothing with its id is
submitted until its id is given to another job; and a task that was stored when its end
was handled is never submitted after that. -/
structure WindowKept (jobId : String) (start : State) (actions : List Action) : Prop where
  opens : ∀ before rest s j config, actions = before ++ rest → execute step start before = some s →
    Assoc.get jobId s.db.jobs = some j → j.scheduling = some config →
    Meets step (fun s a => created s a ≠ some jobId) s rest →
    Always step (fun s _ s' => ∀ t ∈ s.memory.submissions s'.memory, t.jobId = jobId → config.startTime ≤ s.clock) s rest
  closes : ∀ before a rest s s', actions = before ++ a :: rest → execute step start before = some s →
    step s a = some s' → endsWindow jobId s a = true →
    Always step (fun u _ u' => ∀ t ∈ u.memory.submissions u'.memory, t.jobId = jobId → s'.db.nextTaskId ≤ t.taskId) s' rest

/-- One for a task of the job whose id was given before. -/
def older (jobId : String) (given : Int) (other : String) (id : Int) : Nat :=
  if other = jobId ∧ id < given then 1 else 0

/-- What every step knows of the job, as long as its id is not reused. -/
structure Scheduled (jobId : String) (s : State) : Prop where
  grounded : Grounded s
  staged : Staged s.memory
  owned : ∃ owner, Owned owner s
  single : s.memory.tokens jobId ≤ 1
  entered : Entered s.clock s.memory
  planned : ∃ operation scheduling, Planned jobId operation scheduling s

/-- Of the tasks of the job that were stored before, none is to be submitted any more. -/
structure Closing (jobId : String) (given : Int) (s : State) : Prop where
  started : s.memory.rollout.started = true
  later : given ≤ s.db.nextTaskId
  load : s.memory.load (older jobId given) ≤ tally (fun t => older jobId given t.jobId t.taskId) s.memory.submitted

section

variable {jobId : String} {given : Int}

theorem jobId_of_older {other : String} {id : Int} (weighs : older jobId given other id ≠ 0) : other = jobId := by
  rw [older] at weighs
  split at weighs
  · rename_i both
    exact both.1
  · exact absurd rfl weighs

theorem older_of_ne {other : String} (apart : other ≠ jobId) (id : Int) : older jobId given other id = 0 :=
  if_neg fun both => apart both.1

theorem older_of_le {other : String} {id : Int} (fresh : given ≤ id) : older jobId given other id = 0 :=
  if_neg fun both => by omega

theorem mem_submissions {now : Int} {m m' : Memory} {reply : Reply} {a : Action} {t : Task}
    (taken : resume now m reply a = some m') (member : t ∈ m.submissions m') :
    t ∈ m.hand ∧ m'.submitted = m.submitted ++ [t] := by
  rcases pool_step taken with same | ⟨u, hand, more⟩
  · simp [Memory.submissions, same] at member
  · rw [Memory.submissions, more, List.drop_left, List.mem_singleton] at member
    subst member
    exact ⟨hand, more⟩

/-- The message that deletes the tasks of a job leaves none of them, but in the hand. -/
theorem deleted_waiting {owner : Int → String} {m : Memory} (indexed : Indexed m.curQ) (stored : jobId ≠ "")
    (owned : InRunner (fun t => owner t.taskId = t.jobId) m) (idle : m.hand = []) :
    ∀ t ∈ (m.deleteTask (.job jobId)).waiting, t.jobId ≠ jobId := by
  have removed := removed_job jobId indexed fun t present u present' named same => by
    rw [← owned.queue u present', same, owned.queue t present, named]
  intro t member
  rw [Memory.deleteTask, if_neg (not_not.mpr rfl), if_pos stored] at member
  rcases List.mem_append.mp member with earlier | hand
  · rcases List.mem_append.mp earlier with queued | parked
    · exact of_decide_eq_true (List.mem_filter.mp (removed.mem_iff.mp queued)).2
    · obtain ⟨entry, present, within⟩ := mem_parked_iff.mp parked
      obtain ⟨old, -, rfl⟩ := List.mem_map.mp present
      exact of_decide_eq_true (List.mem_filter.mp within).2
  · have hand : t ∈ m.hand := hand
    rw [idle] at hand
    cases hand

/-- With its one item canceled and no task in the runner, a job has nothing to submit. -/
theorem load_of_canceled {m : Memory} {i : Nat} {v : PendingJobItem} (single : m.tokens jobId ≤ 1)
    (here : m.rollout.ending = some i) (found : m.pendingJobs[i]? = some v) (named : v.context.jobId = jobId)
    (canceled : isJobToTerminal v.context.status = true) (absent : ∀ t ∈ m.waiting, t.jobId ≠ jobId) :
    m.load (older jobId given) = tally (fun t => older jobId given t.jobId t.taskId) m.submitted := by
  rw [Memory.tokens, Memory.makers] at single
  have about : 0 < v.about jobId := by simp [PendingJobItem.about, named]
  have counted := le_tally (PendingJobItem.about jobId) (List.mem_of_getElem? found)
  have rollout : m.rollout.load (older jobId given) m.pendingJobs = 0 := by
    cases stop : m.rollout <;> simp_all [RolloutPc.ending, RolloutPc.load]
  have closures : tally (Closure.load (older jobId given)) m.closures = 0 := by
    refine tally_eq_zero_iff.mpr fun closure member => ?_
    have makes := le_tally (Closure.makes jobId) member
    have apart : ∀ context ∈ closure.context, context.jobId ≠ jobId := fun context begins same =>
      absurd (Closure.makes_of_context begins same) (by omega)
    cases closure with
    | readTasks context taskIds => exact tally_eq_zero_iff.mpr fun id _ => older_of_ne (apart context rfl) id
    | addPendingJob item => exact tasksLoad_eq_zero fun t _ => older_of_ne (apart item.context rfl) t.taskId
    | _ => rfl
  have items : tally (PendingJobItem.load (older jobId given)) m.pendingJobs = 0 := by
    refine tally_eq_zero_iff.mpr fun u member => ?_
    by_cases same : u.context.jobId = jobId
    · obtain ⟨k, place⟩ := List.getElem?_of_mem member
      have only := tally_unique (PendingJobItem.about jobId) (by omega) found place about
        (by simp [PendingJobItem.about, same])
      rw [← only, found] at place
      cases place
      exact load_of_ended canceled
    · exact tasksLoad_filterless (tasksLoad_eq_zero fun t _ => older_of_ne same t.taskId)
  have waiting : ∀ t ∈ m.waiting, older jobId given t.jobId t.taskId = 0 :=
    fun t member => older_of_ne (absent t member) t.taskId
  have queue : tally (Memory.waitingLoad (older jobId given) fun other => m.spent other)
      (getTasks m.curQ ++ m.parked) = 0 := by
    refine tally_eq_zero_iff.mpr fun t member => Nat.le_zero.mp ?_
    exact waiting t (List.mem_append_left _ member) ▸ waitingLoad_le _ _ t
  have hand : tally (fun t => older jobId given t.jobId t.taskId) m.hand = 0 :=
    tally_eq_zero_iff.mpr fun t member => waiting t (List.mem_append_right _ member)
  rw [Memory.load, Memory.centerLoad, Memory.runnerLoad, tally_append m.hand]
  omega

end

section

variable {s s' : State} {a : Action} {jobId : String} {given : Int}

theorem scheduled_step (scheduled : Scheduled jobId s) (unused : ¬Reuses jobId s a) (taken : step s a = some s') :
    Scheduled jobId s' := by
  have fresh := fresh_of_unused unused
  exact ⟨grounded_step scheduled.grounded taken, staged_step scheduled.staged (step_resume taken),
    owned_step scheduled.grounded scheduled.owned taken,
    single_step scheduled.grounded scheduled.single (fun creates => (fresh creates).1) taken,
    entered_step scheduled.entered taken,
    planned_step scheduled.planned scheduled.grounded scheduled.entered fresh taken⟩

theorem scheduled_boot {db : Db} (keyed : Keyed db) (distinct : (Assoc.keys db.jobs).Nodup) (clock : Int)
    (jobId : String) : Scheduled jobId (boot db clock) := by
  have grounded := grounded_boot keyed distinct clock
  refine ⟨grounded, staged_boot db clock, owned_boot keyed clock, ?_, entered_boot db clock,
    planned_boot jobId db clock⟩
  rw [tokens_unstarted (grounded.unstarted rfl) rfl]
  exact Nat.zero_le 1

/-- The task in the hand of the loop is one that the runner has. -/
theorem begun_of_submitted {operation : String} {config : SchedulingConfig}
    (planned : Planned jobId operation (some config) s) (taken : step s a = some s') {t : Task}
    (member : t ∈ s.memory.submissions s'.memory) (named : t.jobId = jobId) : config.startTime ≤ s.clock := by
  obtain ⟨hand, -⟩ := mem_submissions (step_resume taken) member
  exact (planned.carried (.inl ⟨t, List.mem_append_right _ hand, named⟩)).2 config rfl

/-- Tasks that are stored later have later ids. -/
theorem arriving_older (closing : Closing jobId given s) : s.memory.arriving (older jobId given) (access s a).2 a = 0 := by
  cases a with
  | rollout ok =>
    simp only [Memory.arriving]
    split
    · rename_i jobs rows here replied
      have started := closing.started
      rw [here] at started
      cases started
    · rfl
  | run i ok =>
    simp only [Memory.arriving]
    split
    · rename_i context things ids here replied
      obtain ⟨op, sent, -, exec⟩ := replied_of_ne_failed (s := s) (a := .run i ok) (by simp [replied])
      rw [replied] at exec
      obtain ⟨tasks, rfl, rfl, -⟩ := exec_taskIds_reply exec
      refine tally_eq_zero_iff.mpr fun id listed => older_of_le ?_
      obtain ⟨row, created, rfl⟩ := List.mem_map.mp listed
      exact Int.le_trans closing.later (numbered_bounds created).1
    · rfl
  | _ => rfl

/-- What is left to submit of the older tasks is nothing, and so it stays. -/
theorem closing_step (scheduled : Scheduled jobId s) (closing : Closing jobId given s) (unused : ¬Reuses jobId s a)
    (taken : step s a = some s') :
    (∀ t ∈ s.memory.submissions s'.memory, t.jobId = jobId → given ≤ t.taskId) ∧ Closing jobId given s' := by
  have moved := load_step (older jobId given) scheduled.grounded scheduled.staged
    (fun other id weighs => jobId_of_older weighs ▸ scheduled.single) (fun other id weighs creates lingers => by
      cases jobId_of_older weighs
      obtain ⟨none, quiet⟩ := fresh_of_unused unused creates
      rcases lingers with filled | ⟨t, member, named⟩
      · exact filled none
      · exact quiet.runner t (List.mem_append_left _ member) named) taken
  rw [arriving_older closing] at moved
  have whole : tally (fun t => older jobId given t.jobId t.taskId) s'.memory.submitted ≤
      s'.memory.load (older jobId given) := by
    rw [Memory.load, Memory.runnerLoad, tally_append s'.memory.hand]
    omega
  have before := closing.load
  have grows : tally (fun t => older jobId given t.jobId t.taskId) s.memory.submitted ≤
      tally (fun t => older jobId given t.jobId t.taskId) s'.memory.submitted := by
    rcases pool_step (step_resume taken) with same | ⟨u, -, more⟩
    · rw [same]
    · rw [more, tally_append]
      omega
  refine ⟨fun t member named => ?_, started_of_step closing.started (step_resume taken),
    Int.le_trans closing.later (step_rows taken).given, by omega⟩
  obtain ⟨-, more⟩ := mem_submissions (step_resume taken) member
  rw [more, tally_append, tally_cons, tally_nil] at whole
  by_contra early
  have weighs : older jobId given t.jobId t.taskId = 1 := if_pos ⟨named, by omega⟩
  omega

/-- When the end is handled, nothing is left of the tasks that are stored. -/
theorem closing_of_canceled (single : s.memory.tokens jobId ≤ 1) {i l : Nat} {v : PendingJobItem}
    (here : s.memory.rollout = .endTasks i l) (found : s.memory.pendingJobs[i]? = some v) (named : v.context.jobId = jobId)
    (canceled : v.context.status = .canceled) (absent : ∀ t ∈ s.memory.waiting, t.jobId ≠ jobId) :
    Closing jobId s.db.nextTaskId s := by
  refine ⟨by rw [here]; rfl, Int.le_refl _, Nat.le_of_eq ?_⟩
  exact load_of_canceled single (by rw [here]; rfl) found named (by rw [canceled]; rfl) absent

theorem closing_of_endsWindow (scheduled : Scheduled jobId s) (stored : jobId ≠ "") (unused : ¬Reuses jobId s a)
    (ends : endsWindow jobId s a = true) (taken : step s a = some s') : Closing jobId s'.db.nextTaskId s' := by
  have resumed := step_resume taken
  have single := (scheduled_step scheduled unused taken).single
  cases a with
  | rollout ok =>
    simp only [endsWindow] at ends
    split at ends
    · rename_i i l here
      obtain ⟨v, found, about⟩ := (Option.any_eq_true _ _).mp ends
      simp only [Bool.and_eq_true, decide_eq_true_eq, Bool.not_eq_true'] at about
      obtain ⟨⟨⟨named, late⟩, custom⟩, cancels⟩ := about
      obtain ⟨config, plan, behavior⟩ := (Option.any_eq_true _ _).mp cancels
      -- the runner never got a task of a job whose things fetch their tasks
      have absent : ∀ t ∈ s.memory.waiting, t.jobId ≠ jobId := fun t member same => by
        obtain ⟨operation, scheduling, planned⟩ := scheduled.planned
        have system := (planned.carried (.inl ⟨t, member, same⟩)).1
        rw [← (planned.works.pending v (List.mem_of_getElem? found) named).1, custom] at system
        cases system
      have next : resume s.clock s.memory (access s (.rollout ok)).2 (.rollout ok) =
          some ((s.memory.setItem i (v.withStatus .canceled)).goto (.endTasks i l)) := by
        cases behaves : config.endBehavior <;>
          simp_all [resume, Memory.rolloutNext, PendingJobItem.withStatus]
      have same := Option.some.inj (resumed.symm.trans next)
      refine closing_of_canceled single (v := v.withStatus .canceled) (by rw [same]; rfl) ?_ named rfl ?_
      · rw [same]
        exact getElem?_set_found found _
      · rw [same]
        exact absent
    · cases ends
  | recvEndDelete =>
    obtain ⟨i, l, v, idle, here, found, same⟩ := resume_recvEndDelete resumed
    simp only [endsWindow, here, found, Option.any_some, decide_eq_true_eq] at ends
    obtain ⟨owner, owned⟩ := scheduled.owned
    have absent := deleted_waiting scheduled.grounded.known.indexed stored owned.runner (by rw [Memory.hand, idle])
    have canceled := scheduled.staged.ending i v (by rw [here]; rfl) found
    have pending : (s.memory.deleteTask (.job jobId)).pendingJobs = s.memory.pendingJobs := by
      rw [Memory.deleteTask]
      split <;> rfl
    rw [ends] at same
    refine closing_of_canceled single (by rw [same]; rfl) ?_ ends canceled ?_
    · rw [same]
      exact pending ▸ found
    · rw [same]
      exact absent
  | _ => cases ends

end

/-- In a run in which the id of the job is not given to another job while something of it
is left, its window is kept. -/
theorem window_kept (jobId : String) (stored : jobId ≠ "") (db : {db : Db // Keyed db ∧ (Assoc.keys db.jobs).Nodup})
    (clock : Int) (actions : List Action)
    (unused : Meets step (fun s a => ¬Reuses jobId s a) (boot db.1 clock) actions) :
    WindowKept jobId (boot db.1 clock) actions := by
  have initial := scheduled_boot db.2.1 db.2.2 clock jobId
  have keeps : ∀ s a s', Scheduled jobId s → ¬Reuses jobId s a → step s a = some s' → Scheduled jobId s' :=
    fun s a s' scheduled unused taken => scheduled_step scheduled unused taken
  constructor
  · rintro before rest s j config rfl reached present scheduling other
    have scheduled := unused.reached keeps reached initial
    obtain ⟨operation, plan, planned⟩ := scheduled.planned
    have same : plan = some config := (planned.row j present).2.symm.trans scheduling
    subst same
    refine Meets.always (fun u => Grounded u ∧ Entered u.clock u.memory ∧ Planned jobId operation (some config) u) ?_
      other ⟨scheduled.grounded, scheduled.entered, planned⟩
    rintro u a u' ⟨grounded, entered, planned⟩ another taken
    have row := planned_row planned (fun creates => another (created_of_creates creates)) taken
    exact ⟨fun t member named => begun_of_submitted planned taken member named, grounded_step grounded taken,
      entered_step entered taken, planned_of_row planned grounded entered taken row⟩
  · rintro before a rest s s' rfl reached taken ends
    have scheduled := unused.reached keeps reached initial
    obtain ⟨here, later⟩ := (always_cons_iff taken).mp (unused.after reached)
    refine Meets.always (fun u => Scheduled jobId u ∧ Closing jobId s'.db.nextTaskId u) ?_ later
      ⟨scheduled_step scheduled here taken, closing_of_endsWindow scheduled stored here ends taken⟩
    rintro u b u' ⟨scheduled, closing⟩ unused taken
    obtain ⟨fine, still⟩ := closing_step scheduled closing unused taken
    exact ⟨fine, scheduled_step scheduled unused taken, still⟩

/-- The end of the schedule is handled, and the task that was sent is put again. -/
def endedRun : List Action := List.flatten [
  List.replicate 4 (.rollout true), [.elapse 11, .rolloutTick, .rollout true, .rollout true]]

def putAgainRun : List Action := List.flatten [
  List.replicate 5 (.rollout true), [.recvPut, .rollout true, .rollout true]]

/-- The job is deleted by force, which tells no operation, so the runner hears nothing of it,
and a job with its id is created. -/
def namesakeRun : List Action := List.flatten [
  [.call (.deleteJob "a" true), .serve 0 true, .serve 0 true, .recvRemove 0, .serve 0 true],
  [.call (.createJob "a" "$updateShadow/x" ["thing"] none none none), .serve 1 true, .serve 1 true, .serve 1 true,
    .run 1 true, .run 1 true, .recvPending 1],
  List.replicate 4 (.rollout true), [.sysOpTick, .sysOp none true, .sysOp none true]]

theorem window_kept_when_ended :
    WindowKept "a" (boot windowDb 0) (endedRun ++ .recvEndDelete :: (putAgainRun ++ [.sysOpTick, .sysOp none true])) :=
  window_kept "a" (by decide) ⟨windowDb, by decide, by decide⟩ 0 _ (by decide +kernel)

/-- The task that was put again is submitted for the second job. -/
theorem old_task_submitted : ¬ ∀ (jobId : String), jobId ≠ "" →
    ∀ (db : {db : Db // Keyed db ∧ (Assoc.keys db.jobs).Nodup}) (clock : Int) (actions : List Action),
      WindowKept jobId (boot db.1 clock) actions := by
  intro every
  have kept := every "a" (by decide) ⟨windowDb, by decide, by decide⟩ 0
    (endedRun ++ .recvEndDelete :: (putAgainRun ++ namesakeRun))
  have submitted : (execute step (boot windowDb 0) endedRun).any (fun s => endsWindow "a" s .recvEndDelete &&
      (step s .recvEndDelete).any fun s' => decide (¬Always step (fun u _ u' =>
        ∀ t ∈ u.memory.submissions u'.memory, t.jobId = "a" → s'.db.nextTaskId ≤ t.taskId) s'
        (putAgainRun ++ namesakeRun))) = true := by decide +kernel
  obtain ⟨s, reached, both⟩ := (Option.any_eq_true _ _).mp submitted
  obtain ⟨ends, after⟩ := Bool.and_eq_true_iff.mp both
  obtain ⟨s', taken, broken⟩ := (Option.any_eq_true _ _).mp after
  exact of_decide_eq_true broken (kept.closes endedRun .recvEndDelete _ s s' rfl reached taken ends)

end Tio.Job
