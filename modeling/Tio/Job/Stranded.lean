import Tio.Job.Attended

/-! What becomes of the tasks of a job when the schedule loop is done with it. A task that is
not over was given to the runner, or a window that stops the rollout dropped it. -/

namespace Tio.Job

open Tio.Core TaskQueue

/-- The tasks that the center gave to the runner, and those that the end of a window dropped. -/
structure Ledger where
  handed : List Int
  stopped : List Int
deriving DecidableEq

/-- The tasks with which `PutTasks` returns: at once for a custom operation, and for one of the
system when the loop of the runner receives them. -/
def puts (s : State) : Action → List Task
  | .recvPut =>
    match s.memory.rollout with
    | .put _ _ rolloutTasks => rolloutTasks
    | _ => []
  | .rollout _ =>
    match s.memory.rollout with
    | .publish i _ =>
      match s.memory.pendingJobs[i]? with
      | some v => if isSysOp v.context.operation then [] else v.tasks.take (rolloutCount s.clock v)
      | none => []
    | _ => []
  | _ => []

/-- The tasks that are dropped since their window stops the rollout. -/
def drops (s : State) : Action → List Task
  | .rollout _ =>
    match s.memory.rollout with
    | .outOfTime i _ =>
      match s.memory.pendingJobs[i]? with
      | some v =>
        if !isJobScheduleBeforeStartTime s.clock v.context &&
            v.context.scheduling.any (fun config => config.endBehavior = .stopRollout) then
          v.tasks.filter fun t => !isTaskOngoing t.status
        else []
      | none => []
    | _ => []
  | _ => []

def Ledger.after (ledger : Ledger) (s : State) (a : Action) : Ledger where
  handed := ledger.handed ++ (puts s a).map Task.taskId
  stopped := ledger.stopped ++ (drops s a).map Task.taskId

def ledgerStep (x : State × Ledger) (a : Action) : Option (State × Ledger) :=
  (step x.1 a).map fun next => (next, x.2.after x.1 a)

/-- The ledger is kept beside the run. -/
theorem execute_ledgerStep (x : State × Ledger) (actions : List Action) :
    (execute ledgerStep x actions).map Prod.fst = execute step x.1 actions := by
  induction actions generalizing x with
  | nil => rfl
  | cons a rest ih =>
    rw [execute, execute, ledgerStep]
    cases step x.1 a with
    | none => rfl
    | some next => exact ih (next, x.2.after x.1 a)

/-- The schedule loop has an item of the job. -/
def Pends (jobId : String) (m : Memory) : Prop := ∃ v ∈ m.pendingJobs, v.context.jobId = jobId

instance (jobId : String) (m : Memory) : Decidable (Pends jobId m) :=
  inferInstanceAs (Decidable (∃ v ∈ m.pendingJobs, v.context.jobId = jobId))

/-- The job leaves the pending list. -/
def Leaves (jobId : String) (m m' : Memory) : Prop := Pends jobId m ∧ ¬Pends jobId m'

instance (jobId : String) (m m' : Memory) : Decidable (Leaves jobId m m') :=
  inferInstanceAs (Decidable (Pends jobId m ∧ ¬Pends jobId m'))

/-- No request cancels or deletes the job, and the database answers. -/
structure Unremoved (jobId : String) (x : State × Ledger) (a : Action) : Prop where
  stays : removes jobId x.1 a = false
  answered : a.ok = true

instance (jobId : String) (x : State × Ledger) (a : Action) : Decidable (Unremoved jobId x a) :=
  decidable_of_iff (removes jobId x.1 a = false ∧ a.ok = true)
    ⟨fun h => ⟨h.1, h.2⟩, fun fine => ⟨fine.stays, fine.answered⟩⟩

/-- The task was given to the runner, or dropped at the end of a window. -/
def Ledger.Gave (ledger : Ledger) (taskId : Int) : Prop := taskId ∈ ledger.handed ∨ taskId ∈ ledger.stopped

/-- What the runner has was handed to it. -/
structure Recorded (x : State × Ledger) : Prop where
  runner : InRunner (fun t => t.taskId ∈ x.2.handed) x.1.memory
  underway : Underway (fun t => t.taskId ∈ x.2.handed) x.1.memory

/-- Somebody has each task of the job that is not over, or it was given away. -/
structure Covered (jobId : String) (x : State × Ledger) : Prop where
  loading : x.1.memory.rollout = .loadJobs → ∀ taskId, Alive jobId x.1.db taskId →
    (Assoc.get jobId x.1.db.jobs).any (fun j => isPending j.status) = true
  covered : ∀ taskId, Alive jobId x.1.db taskId → Tracked jobId taskId x.1.memory ∨ x.2.Gave taskId

/-- The job was over before the program started, and it has no item. -/
structure Shut (jobId : String) (s : State) : Prop where
  vacant : s.memory.tokens jobId = 0
  row : ∃ j, Assoc.get jobId s.db.jobs = some j ∧ isPending j.status = false
  watch : ∀ told todo, s.memory.watch = .finish jobId told todo → isPending told = false

section

variable {s s' : State} {ledger : Ledger} {a : Action} {jobId : String} {taskId : Int}

theorem handed_after (handed : taskId ∈ ledger.handed) : taskId ∈ (ledger.after s a).handed :=
  List.mem_append_left _ handed

theorem handed_of_puts {tasks : List Task} (put : puts s a = tasks) (within : Lists taskId tasks) :
    taskId ∈ (ledger.after s a).handed := by
  obtain ⟨t, member, rfl⟩ := within
  exact List.mem_append_right _ (List.mem_map_of_mem (put ▸ member))

theorem Ledger.Gave.after (gave : ledger.Gave taskId) : (ledger.after s a).Gave taskId :=
  gave.imp handed_after (List.mem_append_left _)

theorem recorded_step (indexed : Indexed s.memory.curQ) (recorded : Recorded (s, ledger)) (taken : step s a = some s') :
    Recorded (s', ledger.after s a) := by
  have resumed := step_resume taken
  have runner := recorded.runner.mono fun t => handed_after (s := s) (a := a)
  refine ⟨inRunner_received indexed runner ?_ resumed,
    underway_step (recorded.underway.mono fun t => handed_after) runner.hand resumed⟩
  rintro rfl i l rolloutTasks here t member
  exact handed_of_puts (by rw [puts, here]) ⟨t, member, rfl⟩

/-- A task that an item loses is over, or it is given away. -/
theorem gave_of_loses {ok : Bool} (attended : Attended jobId s) (answered : Action.ok (.rollout ok) = true)
    (taken : step s (.rollout ok) = some s') (alive : Alive jobId s.db taskId) (alive' : Alive jobId s'.db taskId)
    {k : Nat} {v : PendingJobItem} (found : s.memory.pendingJobs[k]? = some v) (named : v.context.jobId = jobId)
    (loses : Loses s.clock (access s (.rollout ok)).2 s.memory k v taskId) :
    (ledger.after s (.rollout ok)).Gave taskId := by
  cases loses with
  | drained l t here ends member same waits =>
    rw [attended.thinned k v found (by simp [here, RolloutPc.closing]) named ends t member] at waits
    cases waits
  | stopped l t config here late scheduled stops member same waits =>
    refine .inr (List.mem_append_right _ (List.mem_map.mpr ⟨t, ?_, same⟩))
    simp [drops, here, found, late, scheduled, stops, member, waits]
  | reloaded l rows here replied gone =>
    have sent : request s.clock s.memory (.rollout ok) = some (.tasksOfJob v.context.jobId) :=
      request_of_requests (.reload ok k l v here found)
    rw [access_answered sent answered] at replied
    cases replied
    obtain ⟨row, member, rfl, own, going⟩ := alive
    have sends := attended.canceled.reload k l v here found named row member own
    refine absurd ⟨toTask row, List.mem_map_of_mem (List.mem_filter.mpr ⟨?_, ?_⟩), rfl⟩ gone
    · exact List.mem_filter.mpr ⟨member, decide_eq_true (own.trans named.symm)⟩
    · cases status : row.2.status <;> simp_all [isTaskTerminal, isTaskOngoing]
  | timedOut l t rest remain minutes here limit late same =>
    exact absurd (same ▸ alive') (timedOut_over answered taken here found limit late)
  | cleared l here within =>
    rcases attended.emptied k l v (.inr here) found named with nothing | settled
    · obtain ⟨t, member, -⟩ := within
      rw [nothing] at member
      cases member
    · exact absurd settled (not_allOver_of_alive alive)
  | custom l here operation batch => exact .inl (handed_of_puts (by simp [puts, here, found, operation]) batch)

/-- Somebody goes on with a task that is not over, or it was given away. -/
theorem covered_step (attended : Attended jobId s) (recorded : Recorded (s, ledger)) (covered : Covered jobId (s, ledger))
    (answered : a.ok = true) (taken : step s a = some s') : Covered jobId (s', ledger.after s a) := by
  have grounded := attended.grounded
  have resumed := step_resume taken
  refine ⟨fun here' id alive' => ?_, fun id alive' => ?_⟩
  · obtain ⟨here, same, before⟩ := still_loading attended.unended grounded taken here'
    exact same ▸ covered.loading here id (before id alive')
  · by_cases given : id < s.db.nextTaskId
    · have alive := alive_before grounded.known.keyed taken given alive'
      have handed : id ∈ ledger.handed → Tracked jobId id s'.memory ∨ (ledger.after s a).Gave id :=
        fun handed => .inr (.inl (handed_after handed))
      rcases covered.covered id alive with tracked | gave
      · cases tracked with
        | loadJobs here => exact .inl (tracked_loadJobs answered taken here (covered.loading here id alive))
        | loadTasks jobs here listed => exact .inl (tracked_loadTasks answered taken here listed alive)
        | preload jobs j tasks here listed within => exact .inl (preload_tracked resumed here listed within)
        | reading context taskIds member named listed =>
          exact .inl (tracked_reading answered taken member named listed alive)
        | creating item member named within => exact .inl (tracked_creating taken member named within)
        | pending k v found named within =>
          by_cases loses : ∃ ok, a = .rollout ok ∧ Loses s.clock (access s a).2 s.memory k v id
          · obtain ⟨ok, rfl, loses⟩ := loses
            exact .inr (gave_of_loses attended answered taken alive alive' found named loses)
          · refine .inl (pending_step resumed attended.unlimited found named within
              (fun ok moves lost => loses ⟨ok, moves, lost⟩) ?_ ?_)
            · intro i r operation force _ here removes
              rcases attended.unended.refused _ (List.mem_of_getElem? here) force removes with stop | stop <;> cases stop
            · intro todo _ here
              exact not_allOver_of_alive alive (attended.judged (by rw [here]; rfl))
        | put i l rolloutTasks v here found named within =>
          exact .inl (put_tracked resumed grounded.home here found named within)
        | waiting t member named same => exact handed (same ▸ inRunner_iff.mp recorded.runner t member)
        | running w member going named same => exact handed (same ▸ recorded.underway.workers w member)
        | reported msg here ends named same => exact handed (same ▸ recorded.underway.update msg here)
      · exact .inr gave.after
    · exact .inl (tracked_created grounded taken alive' (by omega))

/-- The job stays over. -/
theorem shut_step (attended : Attended jobId s) (shut : Shut jobId s) (stays : removes jobId s a = false)
    (taken : step s a = some s') : Shut jobId s' := by
  obtain ⟨vacant, ⟨j, stored, closed⟩, watch⟩ := shut
  refine ⟨?_, ?_, read_step watch (fun other same => ?_) taken⟩
  · have added := (tokens_step jobId (step_resume taken)).2
    by_contra grew
    have minted : s.memory.minted jobId (access s a).2 a ≠ 0 := by omega
    obtain ⟨-, creates | ⟨⟨ok, rfl⟩, -⟩⟩ := minted_cases attended.grounded.jobs minted
    · obtain ⟨_, _, _, _, _, _, _, _, missing⟩ := creates
      rw [missing] at stored
      cases stored
    · obtain ⟨other, same, pending⟩ := pending_of_minted attended.grounded.jobs minted
      cases stored.symm.trans same
      rw [closed] at pending
      cases pending
  · cases stored' : Assoc.get jobId s'.db.jobs with
    | none =>
      rw [attended.stored stays taken stored'] at stored
      cases stored
    | some j' =>
      refine ⟨j', rfl, ?_⟩
      cases step_row taken stored' with
      | kept _ same _ status =>
        cases stored.symm.trans same
        exact status ▸ closed
      | created creates =>
        obtain ⟨_, _, _, _, _, _, _, _, missing⟩ := creates
        rw [missing] at stored
        cases stored
      | canceled _ _ _ canceling => exact absurd canceling (row_step attended.unended stays taken j' stored').1
      | written _ _ _ _ write =>
        generalize j'.status = st at write ⊢
        cases write with
        | start _ i l v _ _ found => exact absurd rfl (unpended vacant v (List.mem_of_getElem? found))
        | scheduleEnd _ i l _ v _ found => exact absurd rfl (unpended vacant v (List.mem_of_getElem? found))
        | drained _ i l v _ _ found => exact absurd rfl (unpended vacant v (List.mem_of_getElem? found))
        | preload _ _ told st rest here => simp [Memory.tokens, Memory.makers, here, RolloutPc.makes] at vacant
        | checked _ _ told st todo here finishes =>
          have closed := watch told todo here
          cases told <;> cases finishes <;> cases closed
          rfl
        | canceled _ i _ force here =>
          rcases attended.unended.refused _ (List.mem_of_getElem? here) force rfl with stop | stop <;> cases stop
  · cases stored.symm.trans same
    exact closed

/-- A step that takes the item of the job out of the list adds none. -/
theorem makers_left (attended : Attended jobId s) (pends : Pends jobId s.memory) (taken : step s a = some s') :
    s'.memory.makers jobId = 0 := by
  obtain ⟨v, member, named⟩ := pends
  have made := attended.unended.made member named
  have added := (tokens_step jobId (step_resume taken)).1
  by_contra grew
  have minted : s.memory.minted jobId (access s a).2 a ≠ 0 := by omega
  obtain ⟨-, creates | ⟨-, here⟩⟩ := minted_cases attended.grounded.jobs minted
  · exact unpended (attended.fresh creates).1 v member named
  · rw [(attended.grounded.unstarted (by rw [here]; rfl)).pending (by rw [here]; rfl)] at member
    cases member

/-- Who has a task of a job that leaves the list got it from the center. -/
theorem handed_of_left (attended : Attended jobId s) (recorded' : Recorded (s', ledger)) (taken : step s a = some s')
    (leaves : Leaves jobId s.memory s'.memory) (tracked : Tracked jobId taskId s'.memory) : taskId ∈ ledger.handed := by
  obtain ⟨pends, left⟩ := leaves
  have unmade := makers_left attended pends taken
  rw [Memory.makers] at unmade
  have noClosure : ∀ closure ∈ s'.memory.closures, closure.makes jobId = 0 := tally_eq_zero_iff.mp (by omega)
  cases tracked with
  | loadJobs here' =>
    obtain ⟨here, -⟩ := still_loading attended.unended attended.grounded taken here'
    obtain ⟨v, member, -⟩ := pends
    rw [(attended.grounded.unstarted (by rw [here]; rfl)).pending (by rw [here]; rfl)] at member
    cases member
  | loadTasks jobs here listed =>
    obtain ⟨row, member, named⟩ := List.mem_map.mp listed
    have counted := le_tally (fun row : String × JobEntity => if row.1 = jobId then 1 else 0) member
    rw [if_pos named] at counted
    rw [here, RolloutPc.makes] at unmade
    omega
  | preload jobs j tasks here listed =>
    have counted := le_tally (fun row : String × JobEntity × List Task => if row.1 = jobId then 1 else 0) listed
    rw [if_pos rfl] at counted
    rw [here, RolloutPc.makes] at unmade
    omega
  | reading context taskIds member named => simpa [Closure.makes, named] using noClosure _ member
  | creating item member named => simpa [Closure.makes, named] using noClosure _ member
  | pending k v found named => exact absurd ⟨v, List.mem_of_getElem? found, named⟩ left
  | put i l rolloutTasks v here found named => exact absurd ⟨v, List.mem_of_getElem? found, named⟩ left
  | waiting t member named same => exact same ▸ inRunner_iff.mp recorded'.runner t member
  | running w member going named same => exact same ▸ recorded'.underway.workers w member
  | reported msg here ends named same => exact same ▸ recorded'.underway.update msg here

end

/-- The tables with which the program starts: no request has ended the job, and its tasks
belong to its row. -/
structure Rooted (jobId : String) (db : Db) : Prop where
  keyed : Keyed db
  distinct : (Assoc.keys db.jobs).Nodup
  row : ∀ j, Assoc.get jobId db.jobs = some j → j.status ≠ .canceling ∧ j.status ≠ .removing
  stored : ∀ row ∈ db.tasks, row.2.jobId = jobId → Assoc.get jobId db.jobs ≠ none

theorem recorded_boot (db : Db) (clock : Int) : Recorded (boot db clock, ⟨[], []⟩) := by
  refine ⟨⟨?_, ?_, ?_⟩, ⟨?_, ?_, ?_, ?_⟩⟩
  all_goals simp [boot, getTasks]

/-- The preload finds the job, or it was over. -/
theorem covered_boot {jobId : String} {db : Db} (rooted : Rooted jobId db) (clock : Int) :
    Covered jobId (boot db clock, ⟨[], []⟩) ∨ Shut jobId (boot db clock) := by
  by_cases closed : ∃ j, Assoc.get jobId db.jobs = some j ∧ isPending j.status = false
  · refine .inr ⟨?_, closed, ?_⟩ <;> simp [boot, Memory.tokens, Memory.makers, RolloutPc.makes]
  · refine .inl ⟨fun _ taskId alive => ?_, fun taskId alive => .inl (.loadJobs rfl)⟩
    obtain ⟨row, member, -, named, -⟩ := alive
    obtain ⟨j, stored⟩ := Option.ne_none_iff_exists'.mp (rooted.stored row member named)
    have pending : isPending j.status = true := by
      by_contra ended
      exact closed ⟨j, stored, by simpa using ended⟩
    exact (Option.any_eq_true _ _).mpr ⟨j, stored, pending⟩

/-- The job may roll out one task a minute, and it has two. -/
def limitedDb : Db where
  jobs := [("a", toEntity "$updateShadow/x" ["lamp", "fan"] (some ⟨0, some 10, .stopRollout⟩) (some ⟨1⟩) none)]
  tasks := numbered 1 (toTaskEntities 0 "a" "$updateShadow/x" ["lamp", "fan"])
  nextTaskId := 3
  returning := true
  positive := third_positive
  given := numbered_given (by decide)

theorem limitedDb_rooted : Rooted "a" limitedDb := by
  refine ⟨by decide, by decide, fun j stored => ?_, fun row member named => by decide⟩
  cases stored
  decide

/-- A task is put, and a minute has not gone by when the window is over. -/
def limitedRun : List Action := List.flatten [
  List.replicate 4 (.rollout true), [.rolloutTick], List.replicate 4 (.rollout true),
  [.recvPut, .rollout true, .rollout true], [.elapse 20000, .rolloutTick], List.replicate 4 (.rollout true),
  [.recvPut, .rollout true]]

theorem stoppedDb_rooted : Rooted "a" stoppedDb := by
  refine ⟨by decide, by decide, fun j stored => ?_, fun row member named => by decide⟩
  cases stored
  decide

end Tio.Job
