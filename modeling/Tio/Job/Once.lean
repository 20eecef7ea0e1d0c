import Tio.Job.Load

namespace Tio.Job

open Tio.Core TaskQueue

/-- A job is created while the center or the runner has something of an earlier one. -/
def Reused (s : State) (a : Action) : Prop := ∃ jobId, Creates jobId s a ∧ Lingers jobId s.memory

/-- The pool ran the action of no task twice. -/
def ExecutedOnce (m : Memory) : Prop := (m.submitted.map Task.taskId).Nodup

/-- One for the task with the id, whatever its job. -/
def named (taskId : Int) (_ : String) (other : Int) : Nat := if other = taskId then 1 else 0

structure Countable (s : State) : Prop where
  grounded : Grounded s
  staged : Staged s.memory
  single : ∀ jobId, s.memory.tokens jobId ≤ 1
  once : ∀ taskId, s.memory.load (named taskId) ≤ 1

section

variable {weight : String → Int → Nat} {m : Memory}

theorem tasksLoad_eq_zero {jobId : String} {tasks : List Task}
    (nothing : ∀ t ∈ tasks, weight jobId t.taskId = 0) : tasksLoad weight jobId tasks = 0 :=
  tally_eq_zero_iff.mpr nothing

theorem tasksLoad_filterless {v : PendingJobItem} (nothing : tasksLoad weight v.context.jobId v.tasks = 0) :
    v.load weight = 0 := Nat.le_zero.mp (nothing ▸ load_le weight v)

/-- Nothing weighs when nothing that anybody holds does. -/
theorem load_eq_zero (center : Held (fun jobId t => weight jobId t.taskId = 0) m)
    (reading : ∀ context taskIds, .readTasks context taskIds ∈ m.closures →
      ∀ taskId ∈ taskIds, weight context.jobId taskId = 0)
    (runner : InRunner (fun t => weight t.jobId t.taskId = 0) m)
    (workers : ∀ w ∈ m.workers, weight w.task.jobId w.task.taskId = 0) : m.load weight = 0 := by
  have rollout : m.rollout.load weight m.pendingJobs = 0 := by
    cases here : m.rollout with
    | preload jobs =>
      refine tally_eq_zero_iff.mpr fun entry member => ?_
      exact tasksLoad_eq_zero (center.preload jobs here entry.1 entry.2.1 entry.2.2 member)
    | put i l rolloutTasks =>
      obtain ⟨v, found, nothing⟩ := center.put i l rolloutTasks here
      simp only [RolloutPc.load, found, Option.elim_some, batchLoad]
      split
      · rfl
      · exact tasksLoad_eq_zero nothing
    | _ => rfl
  have closures : tally (Closure.load weight) m.closures = 0 := by
    refine tally_eq_zero_iff.mpr fun closure member => ?_
    cases closure with
    | readTasks context taskIds => exact tally_eq_zero_iff.mpr (reading context taskIds member)
    | addPendingJob item => exact tasksLoad_eq_zero (center.closures item member)
    | _ => rfl
  have items : tally (PendingJobItem.load weight) m.pendingJobs = 0 :=
    tally_eq_zero_iff.mpr fun v member =>
      tasksLoad_filterless (tasksLoad_eq_zero (center.pending v member))
  have waiting : tally (Memory.waitingLoad weight fun jobId => m.spent jobId)
      (getTasks m.curQ ++ m.parked) = 0 := by
    refine tally_eq_zero_iff.mpr fun t member => ?_
    have nothing : weight t.jobId t.taskId = 0 := by
      rcases List.mem_append.mp member with queued | parked
      · exact runner.queue t queued
      · obtain ⟨entry, present, within⟩ := mem_parked_iff.mp parked
        exact runner.offline entry present t within
    exact Nat.le_zero.mp (nothing ▸ waitingLoad_le _ _ t)
  have running : tally (fun t => weight t.jobId t.taskId) (m.hand ++ m.submitted) = 0 := by
    refine tally_eq_zero_iff.mpr fun t member => ?_
    rcases List.mem_append.mp member with held | submitted
    · rw [Memory.hand] at held
      split at held
      · rename_i c u here
        cases List.mem_singleton.mp held
        exact runner.hand c t here
      · cases held
    · obtain ⟨w, present, rfl⟩ := List.mem_map.mp submitted
      exact workers w present
  rw [Memory.load, Memory.centerLoad, Memory.runnerLoad]
  omega

end

section

variable {s s' : State} {a : Action} {taskId : Int}

/-- Before the preload has its rows there is nothing to submit. -/
theorem load_unstarted {weight : String → Int → Nat} {m : Memory} (idle : Unstarted m)
    (loading : m.rollout.loading = true) : m.load weight = 0 := by
  refine load_eq_zero ⟨?_, ?_, ?_, ?_, ?_⟩ ?_ (idle.runner.mono fun t => False.elim)
    fun w member => (idle.workers w member).elim
  · simp [idle.pending loading]
  · intro jobs here
    rw [here] at loading
    cases loading
  · intro i l tasks remain here
    rw [here] at loading
    cases loading
  · intro i l rolloutTasks here
    rw [here] at loading
    cases loading
  · simp [idle.closures]
  · simp [idle.closures]

section

variable {weight : String → Int → Nat} (unit : ∀ jobId other, weight jobId other ≤ named taskId jobId other)

include unit

theorem weighs_named {jobId : String} {other : Int} (apart : other ≠ taskId) : weight jobId other = 0 := by
  have less := unit jobId other
  rw [named, if_neg apart] at less
  exact Nat.le_zero.mp less

/-- An id that was not given yet weighs nothing. -/
theorem load_ungiven (grounded : Grounded s) (fresh : s.db.nextTaskId ≤ taskId) : s.memory.load weight = 0 := by
  have apart : ∀ {jobId : String} {other : Int}, other < s.db.nextTaskId → weight jobId other = 0 := by
    intro jobId other given
    exact weighs_named unit (by omega)
  refine load_eq_zero (grounded.known.center.mono fun jobId t => apart)
    (fun context taskIds member other listed => apart ((grounded.reading context taskIds member).2.1 other listed))
    (grounded.known.runner.mono fun t => apart) fun w member => apart (grounded.known.underway.workers w member)

/-- Distinct ids weigh one at most. -/
theorem tally_ids_le_one (jobId : String) {ids : List Int} (distinct : ids.Nodup) :
    tally (weight jobId) ids ≤ 1 := by
  refine Nat.le_trans (tally_mono fun other _ => unit jobId other) ?_
  exact nodup_iff_tally.mp distinct taskId

/-- What the preload reads counts every task once. -/
theorem preloadLoad_le_one (single : ∀ jobId taskId, weight jobId taskId ≠ 0 → s.memory.tokens jobId ≤ 1)
    {jobs : List (String × JobEntity)} {rows : List (Int × TaskEntity)}
    (here : s.memory.rollout = .loadTasks jobs) (distinct : (rows.map Prod.fst).Nodup) :
    preloadLoad weight (Memory.loaded jobs rows) ≤ 1 := by
  have ids : ∀ (jobId : String) (rows : List (Int × TaskEntity)),
      tasksLoad weight jobId (toTasks rows) = tally (weight jobId) (rows.map Prod.fst) := by
    intro jobId rows
    rw [tasksLoad, toTasks, tally_map, tally_map]
    rfl
  rw [preloadLoad, Memory.loaded, tally_map]
  by_cases listed : ∃ row ∈ rows, row.1 = taskId ∧ weight row.2.jobId taskId ≠ 0
  · obtain ⟨row, member, same, counts⟩ := listed
    -- only the entry of the job that the row names has the task
    have less : ∀ entry ∈ jobs, tasksLoad weight entry.1
        (toTasks (rows.filter fun other => other.2.jobId = entry.1)) ≤
        if entry.1 = row.2.jobId then 1 else 0 := by
      intro entry _
      rw [ids]
      split
      · exact tally_ids_le_one unit entry.1 (distinct.sublist (List.filter_sublist.map Prod.fst))
      · rename_i apart
        refine Nat.le_of_eq (tally_eq_zero_iff.mpr fun other within => weighs_named unit fun alike => ?_)
        obtain ⟨row', selected, rfl⟩ := List.mem_map.mp within
        obtain ⟨present, about⟩ := List.mem_filter.mp selected
        have alike : row' = row := List.inj_on_of_nodup_map distinct present member (alike.trans same.symm)
        exact apart (by rw [← of_decide_eq_true about, alike])
    have one := single row.2.jobId taskId counts
    rw [Memory.tokens, Memory.makers, here] at one
    simp only [RolloutPc.makes] at one
    refine Nat.le_trans (tally_mono less) ?_
    omega
  · refine Nat.le_trans (Nat.le_of_eq (tally_eq_zero_iff.mpr fun entry _ => ?_)) (Nat.zero_le _)
    rw [ids]
    refine tally_eq_zero_iff.mpr fun other within => ?_
    obtain ⟨row, selected, rfl⟩ := List.mem_map.mp within
    obtain ⟨present, about⟩ := List.mem_filter.mp selected
    by_cases same : row.1 = taskId
    · by_contra counts
      refine listed ⟨row, present, same, ?_⟩
      rwa [of_decide_eq_true about, ← same]
    · exact weighs_named unit same

/-- What comes from the database is new, or nothing was there before. -/
theorem load_arriving (grounded : Grounded s)
    (single : ∀ jobId taskId, weight jobId taskId ≠ 0 → s.memory.tokens jobId ≤ 1)
    (once : s.memory.load weight ≤ 1) :
    s.memory.load weight + s.memory.arriving weight (access s a).2 a ≤ 1 := by
  cases a with
  | rollout ok =>
    simp only [Memory.arriving]
    split
    · rename_i jobs rows here replied
      have nothing : s.memory.load weight = 0 :=
        load_unstarted (grounded.unstarted (by rw [here]; rfl)) (by rw [here]; rfl)
      obtain ⟨op, sent, -, exec⟩ := replied_of_ne_failed (s := s) (a := .rollout ok) (by simp [replied])
      have asked := request_of_requests sent
      simp only [request, Memory.rolloutOp, here, Option.some.injEq] at asked
      subst asked
      rw [replied] at exec
      cases exec
      have distinct : ((s.db.tasks.filter fun row =>
          row.2.jobId ∈ jobs.map Prod.fst && isTaskPending row.2.status).map Prod.fst).Nodup :=
        grounded.known.keyed.sublist (List.filter_sublist.map Prod.fst)
      have less := preloadLoad_le_one unit single here distinct
      omega
    · exact once
  | run i ok =>
    simp only [Memory.arriving]
    split
    · rename_i context things ids here replied
      obtain ⟨op, sent, -, exec⟩ := replied_of_ne_failed (s := s) (a := .run i ok) (by simp [replied])
      rw [replied] at exec
      obtain ⟨tasks, rfl, rfl, -⟩ := exec_taskIds_reply exec
      by_cases listed : taskId ∈ (numbered s.db.nextTaskId tasks).map Prod.fst
      · obtain ⟨row, created, rfl⟩ := List.mem_map.mp listed
        have nothing := load_ungiven unit grounded (numbered_bounds created).1
        have less := tally_ids_le_one unit context.jobId (nodup_numbered s.db.nextTaskId tasks)
        omega
      · have nothing : tally (weight context.jobId) ((numbered s.db.nextTaskId tasks).map Prod.fst) = 0 :=
          tally_eq_zero_iff.mpr fun other within => weighs_named unit fun same : other = taskId => listed (same ▸ within)
        omega
    · exact once
  | _ => exact once

end

theorem countable_step (countable : Countable s) (unused : ¬Reused s a) (taken : step s a = some s') :
    Countable s' := by
  have fresh : ∀ jobId, Creates jobId s a → ¬Lingers jobId s.memory :=
    fun jobId creates lingers => unused ⟨jobId, creates, lingers⟩
  refine ⟨grounded_step countable.grounded taken, staged_step countable.staged (step_resume taken),
    fun jobId => single_step countable.grounded (countable.single jobId) (fun creates => ?_) taken,
    fun taskId => ?_⟩
  · by_contra left
    exact fresh jobId creates (.inl left)
  · have moved := load_step (named taskId) countable.grounded countable.staged
      (fun jobId _ _ => countable.single jobId) (fun jobId _ _ => fresh jobId) taken
    have less := load_arriving (a := a) (fun _ _ => Nat.le_refl _) countable.grounded
      (fun jobId _ _ => countable.single jobId) (countable.once taskId)
    omega

theorem executedOnce_of_countable (countable : Countable s) : ExecutedOnce s.memory := by
  refine nodup_iff_tally.mpr fun taskId => ?_
  have once := countable.once taskId
  rw [Memory.load, Memory.runnerLoad, tally_append, tally_append] at once
  rw [tally_map]
  have same : tally (fun t => named taskId t.jobId t.taskId) s.memory.submitted =
    tally (fun t => if t.taskId = taskId then 1 else 0) s.memory.submitted := rfl
  rw [← same]
  omega

theorem staged_boot (db : Db) (clock : Int) : Staged (boot db clock).memory :=
  .of_free (by simp [Filed, boot]) List.nodup_nil rfl

theorem countable_boot {db : Db} (keyed : Keyed db) (distinct : (Assoc.keys db.jobs).Nodup) (clock : Int) :
    Countable (boot db clock) := by
  have grounded := grounded_boot keyed distinct clock
  have idle := grounded.unstarted rfl
  refine ⟨grounded, staged_boot db clock, fun jobId => ?_, fun taskId => ?_⟩
  · rw [tokens_unstarted idle rfl]
    exact Nat.zero_le 1
  · rw [load_unstarted idle rfl]
    exact Nat.zero_le 1

end

/-- In a run from keyed tables that gives no job the id of an earlier one of which
something is left, the action of no task is run twice. -/
theorem executed_once (db : {db : Db // Keyed db ∧ (Assoc.keys db.jobs).Nodup}) (clock : Int)
    (actions : List Action) (unused : Meets step (fun s a => ¬Reused s a) (boot db.1 clock) actions) :
    Always step (fun _ _ s' => ExecutedOnce s'.memory) (boot db.1 clock) actions := by
  refine Meets.always Countable ?_ unused (countable_boot db.2.1 db.2.2 clock)
  intro s a s' countable unused taken
  have next := countable_step countable unused taken
  exact ⟨executedOnce_of_countable next, next⟩

/-- The task of the job `a`, which was sent before. -/
def windowTasks : List TaskEntity :=
  (toTaskEntities 0 "a" "$updateShadow/x" ["thing"]).map fun t => { t with status := .sent }

theorem windowTasks_given : ∀ row ∈ numbered 1 windowTasks, 0 < row.1 ∧ row.1 < 2 :=
  numbered_given (by decide)

/-- One job with a window, and its task that was sent before. -/
def windowDb : Db where
  jobs := [("a", toEntity "$updateShadow/x" ["thing"] (some ⟨5, some 10, .cancel⟩) none none)]
  tasks := numbered 1 windowTasks
  nextTaskId := 2
  returning := true
  positive := second_positive
  given := windowTasks_given

/-- The task is preloaded, and submitted when the window opens. -/
def windowRun : List Action := List.flatten [
  List.replicate 4 (.rollout true), [.elapse 5, .rolloutTick], List.replicate 4 (.rollout true),
  [.recvPut, .sysOpTick, .sysOp none true, .sysOp none true]]

theorem window_task_executed_once :
    (execute step (boot windowDb 0) windowRun).map (fun s => s.memory.submitted.map Task.taskId) =
      some [1] ∧
    Always step (fun _ _ s' => ExecutedOnce s'.memory) (boot windowDb 0) windowRun := by
  refine ⟨by decide +kernel, executed_once ⟨windowDb, by decide, by decide⟩ 0 windowRun ?_⟩
  refine meets_of_labels (fun a member s => ?_) _
  rintro ⟨jobId, ⟨k, _, _, _, _, _, rfl, -⟩, -⟩
  simp [windowRun] at member

/-- The job is deleted before its window, and its item stays for the task that was
sent; a job with the same id is created, and one of its tasks is submitted. -/
def reusedRun : List Action := List.flatten [
  List.replicate 4 (.rollout true),
  [.call (.deleteJob "a" false), .serve 0 true, .serve 0 true, .recvRemove 0],
  [.call (.createJob "a" "$updateShadow/x" ["thing", "other"] none (some ⟨1⟩) none), .serve 1 true,
    .serve 1 true, .serve 1 true, .run 0 true, .run 0 true, .recvPending 0],
  List.replicate 6 (.rollout true), [.recvPut, .rollout true, .rollout true],
  [.sysOpTick, .sysOp none true, .sysOp none true, .recvSent, .change true, .sysOp none true, .recvChange]]

/-- The window of the old item closes, and the task of the new job is put again. -/
def reloadedRun : List Action := List.flatten [
  [.elapse 100000, .rolloutTick, .rollout true, .rollout true, .recvEndDelete],
  List.replicate 5 (.rollout true), [.recvPut, .rollout true, .rollout true, .rolloutTick],
  List.replicate 4 (.rollout true), [.recvPut, .sysOpTick, .sysOp none true, .sysOp none true]]

theorem reused_task_executed_twice :
    (Keyed windowDb ∧ (Assoc.keys windowDb.jobs).Nodup) ∧
    ∃ s, execute step (boot windowDb 0) (reusedRun ++ reloadedRun) = some s ∧ ¬ExecutedOnce s.memory := by
  have twice : (execute step (boot windowDb 0) (reusedRun ++ reloadedRun)).map (fun s =>
      s.memory.submitted.map Task.taskId) = some [2, 2] := by decide +kernel
  obtain ⟨s, reached, submitted⟩ := Option.map_eq_some_iff.mp twice
  refine ⟨by decide, s, reached, ?_⟩
  rw [ExecutedOnce, submitted]
  decide

end Tio.Job
