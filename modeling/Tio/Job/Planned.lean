import Tio.Job.Opened

namespace Tio.Job

open Tio.Core TaskQueue

/-- The item that the schedule loop works on, when it did not pass over it. -/
def RolloutPc.inside : RolloutPc → Option Nat
  | .drain i _ | .timeout i _ _ _ | .publish i _ | .endSend i _ | .endTasks i _ | .endJob i _ _
  | .reload i _ => some i
  | _ => none

/-- The item that the loop works on has begun. -/
def Entered (now : Int) (m : Memory) : Prop :=
  ∀ i v, m.rollout.inside = some i → m.pendingJobs[i]? = some v →
    isJobScheduleBeforeStartTime now v.context = false

/-- Whatever works on the job has its operation and its schedule, and the runner has tasks
of it only after its start. -/
structure Planned (jobId operation : String) (scheduling : Option SchedulingConfig) (s : State) : Prop where
  row : ∀ j, Assoc.get jobId s.db.jobs = some j → j.operation = operation ∧ j.scheduling = scheduling
  works : Works (fun context => context.operation = operation ∧ context.scheduling = scheduling) jobId s.memory
  carried : Carries jobId s.memory →
    isSysOp operation = true ∧ ∀ config ∈ scheduling, config.startTime ≤ s.clock

section

variable {now : Int} {m m' : Memory} {reply : Reply}

/-- What has begun stays begun. -/
theorem begun_mono {later : Int} {context : JobContext} (forward : now ≤ later)
    (begun : isJobScheduleBeforeStartTime now context = false) :
    isJobScheduleBeforeStartTime later context = false := by
  rw [isJobScheduleBeforeStartTime] at begun ⊢
  cases scheduled : context.scheduling with
  | none => rfl
  | some config =>
    have early := of_decide_eq_false (scheduled ▸ begun)
    exact decide_eq_false (by omega)

theorem begun_of_inTime {context : JobContext} (inTime : isJobScheduleInTime now context = true) :
    isJobScheduleBeforeStartTime now context = false := by
  rw [isJobScheduleInTime, Bool.and_eq_true] at inTime
  simpa using inTime.1

/-- The loop goes to work on an item in its window, or when its end is handled. -/
theorem entered_rolls (entered : Entered now m) (rolls : Memory.Rolls now reply m m') : Entered now m' := by
  intro k u inside place
  have replaced : ∀ {i : Nat} {v v' : PendingJobItem}, m.pendingJobs[i]? = some v →
      (m.pendingJobs.set i v')[i]? = some u → v'.context.scheduling = v.context.scheduling →
      isJobScheduleBeforeStartTime now v.context = false → isJobScheduleBeforeStartTime now u.context = false := by
    intro i v v' found place same begun
    rw [getElem?_set_found found] at place
    cases place
    rw [isJobScheduleBeforeStartTime, same]
    exact begun
  cases rolls with
  | starts i l v here _ found inTime =>
    cases inside
    exact replaced found place rfl (begun_of_inTime inTime)
  | runs i l v here _ found inTime =>
    cases inside
    rw [show m.pendingJobs[k]? = some u from place] at found
    cases found
    exact begun_of_inTime inTime
  | filled i l v here found | reloaded i l v _ here found =>
    cases inside
    exact replaced found place rfl (entered k v (by rw [here]; rfl) found)
  | stopped i l v config here found late =>
    cases inside
    exact replaced found place rfl late
  | ended i l v config here found late =>
    have only : i = k := by
      simp only [Memory.goto] at inside
      split at inside <;> cases inside <;> rfl
    subst only
    exact replaced found place rfl late
  | checked i l remain v _ here found =>
    simp only [Memory.goto] at inside
    split at inside <;> cases inside
    exact replaced found place rfl (entered k v (by rw [here]; rfl) found)
  | published i l v here found =>
    simp only [Memory.goto] at inside
    split at inside <;> cases inside
  | tasksEnded i l here | endKept i l _ here | unlimited i l _ _ _ here | timedOut i l _ _ _ _ _ here
  | remains i l _ _ _ _ _ here =>
    cases inside
    exact entered k u (by rw [here]; rfl) place
  | _ => cases inside

end

section

variable {s s' : State} {a : Action} {jobId operation : String} {scheduling : Option SchedulingConfig}

theorem clock_step (taken : step s a = some s') : s.clock ≤ s'.clock := by
  rw [step, Option.map_eq_some_iff] at taken
  obtain ⟨m, -, rfl⟩ := taken
  exact Int.le_add_of_nonneg_right (Int.natCast_nonneg _)

theorem entered_step (entered : Entered s.clock s.memory) (taken : step s a = some s') :
    Entered s'.clock s'.memory := by
  have resumed := step_resume taken
  intro i v inside found
  refine begun_mono (clock_step taken) ?_
  have still : ∀ {k : Nat}, s.memory.rollout.inside = some k → s.memory.rollout ≠ .select := by
    intro k inside idle
    rw [idle] at inside
    cases inside
  rcases rollout_still resumed with ⟨ok, rfl⟩ | same | ⟨_, _, stop⟩ | ⟨_, _, _, stop⟩ | ⟨k, l, here, stop⟩
  · exact entered_rolls entered (Memory.rolls_of_rolloutNext resumed) i v inside found
  · rw [same] at inside
    rcases pending_still (still inside) resumed with ⟨ok, rfl⟩ | pending
    · exact entered_rolls entered (Memory.rolls_of_rolloutNext resumed) i v (same ▸ inside) found
    · exact entered i v inside (pending ▸ found)
  · rw [stop] at inside
    cases inside
  · rw [stop] at inside
    cases inside
  · rw [stop] at inside
    cases inside
    have inside : s.memory.rollout.inside = some i := by rw [here]; rfl
    rcases pending_still (still inside) resumed with ⟨ok, rfl⟩ | pending
    · exact entered_rolls entered (Memory.rolls_of_rolloutNext resumed) i v (by rw [stop]; rfl) found
    · exact entered i v inside (pending ▸ found)

theorem entered_boot (db : Db) (clock : Int) : Entered (boot db clock).clock (boot db clock).memory :=
  fun _ _ inside => nomatch inside

/-- A job is stored with its plan, which no change touches. -/
theorem planned_row (planned : Planned jobId operation scheduling s) (other : ¬Creates jobId s a)
    (taken : step s a = some s') :
    ∀ j, Assoc.get jobId s'.db.jobs = some j → j.operation = operation ∧ j.scheduling = scheduling := by
  intro j' stored'
  rcases step_rowFrom taken stored' with same | ⟨op, sent, answered, source⟩
  · exact planned.row j' same
  · cases source with
    | kept _ _ stored => exact planned.row j' stored
    | created _ missing => exact absurd (creates_of_sent sent answered missing) other
    | updated change j stored => exact planned.row j stored
    | canceled force j stored => exact planned.row j stored

theorem planned_of_row (planned : Planned jobId operation scheduling s) (grounded : Grounded s)
    (entered : Entered s.clock s.memory) (taken : step s a = some s')
    (row : ∀ j, Assoc.get jobId s'.db.jobs = some j → j.operation = operation ∧ j.scheduling = scheduling) :
    Planned jobId operation scheduling s' := by
  refine ⟨row, works_step grounded planned.works (fun j stored _ => planned.row j stored)
    (fun j stored _ _ => planned.row j stored) (fun context fits _ => fits) (fun context timeout fits => fits)
    (fun v _ _ fits => fits) taken, fun carries => ?_⟩
  have later := clock_step taken
  rcases carries_step grounded.known.indexed grounded.home (step_resume taken) carries with
    before | ⟨i, l, v, here, found, named, system, -⟩
  · obtain ⟨system, begun⟩ := planned.carried before
    exact ⟨system, fun config scheduled => Int.le_trans (begun config scheduled) later⟩
  · obtain ⟨operates, plan⟩ := planned.works.pending v (List.mem_of_getElem? found) named
    have begun := entered i v (by rw [here]; rfl) found
    refine ⟨operates ▸ system, fun config scheduled => ?_⟩
    rw [isJobScheduleBeforeStartTime, plan, scheduled] at begun
    have early := of_decide_eq_false begun
    omega

theorem makes_of_context {call : Call} {context : JobContext} (begins : context ∈ call.context)
    (named : context.jobId = jobId) : call.makes jobId ≠ 0 := by
  unfold Call.context at begins
  split at begins
  · cases begins
    simp [Call.makes, named]
  · cases begins

theorem Closure.makes_of_context {closure : Closure} {context : JobContext} (begins : context ∈ closure.context)
    (named : context.jobId = jobId) : closure.makes jobId ≠ 0 := by
  unfold Closure.context at begins
  split at begins <;> cases begins <;> simp [Closure.makes, named]

/-- Nobody works on a job that has no token. -/
theorem works_of_none {m : Memory} (fits : JobContext → Prop) (started : m.rollout.started = true)
    (none : m.tokens jobId = 0) : Works fits jobId m := by
  rw [Memory.tokens, Memory.makers] at none
  refine ⟨⟨fun jobs here => ?_, fun jobs here => ?_, fun call member context begins named => ?_,
    fun closure member context begins named => ?_⟩, fun v member named => ?_⟩
  · rw [here] at started
    cases started
  · rw [here] at started
    cases started
  · have counted := le_tally (Call.makes jobId) member
    have makes := makes_of_context begins named
    omega
  · have counted := le_tally (Closure.makes jobId) member
    have makes := Closure.makes_of_context begins named
    omega
  · have counted := le_tally (PendingJobItem.about jobId) member
    rw [PendingJobItem.about, if_pos named] at counted
    omega

theorem Quiet.not_carries {m : Memory} (quiet : Quiet jobId m) : ¬Carries jobId m := by
  rintro (⟨t, member, named⟩ | ⟨i, l, rolloutTasks, v, here, found, named, -⟩)
  · exact quiet.runner t member named
  · exact quiet.pending v (List.mem_of_getElem? found) named

theorem planned_step (planned : ∃ operation scheduling, Planned jobId operation scheduling s) (grounded : Grounded s)
    (entered : Entered s.clock s.memory)
    (fresh : Creates jobId s a → s.memory.tokens jobId = 0 ∧ Quiet jobId s.memory) (taken : step s a = some s') :
    ∃ operation scheduling, Planned jobId operation scheduling s' := by
  by_cases creates : Creates jobId s a
  · obtain ⟨none, quiet⟩ := fresh creates
    have anew : ∀ operation scheduling, Planned jobId operation scheduling s := by
      intro operation scheduling
      refine ⟨fun j stored => ?_, works_of_none _ quiet.started none, fun carries => absurd carries quiet.not_carries⟩
      obtain ⟨_, _, _, _, _, _, _, _, missing⟩ := creates
      rw [stored] at missing
      cases missing
    cases stored' : Assoc.get jobId s'.db.jobs with
    | none => exact ⟨"", .none, planned_of_row (anew "" .none) grounded entered taken fun j stored => by simp_all⟩
    | some j =>
      refine ⟨j.operation, j.scheduling, planned_of_row (anew _ _) grounded entered taken fun j' stored => ?_⟩
      rw [stored'] at stored
      cases stored
      exact ⟨rfl, rfl⟩
  · obtain ⟨operation, scheduling, planned⟩ := planned
    exact ⟨operation, scheduling, planned_of_row planned grounded entered taken (planned_row planned creates taken)⟩

theorem planned_boot (jobId : String) (db : Db) (clock : Int) :
    ∃ operation scheduling, Planned jobId operation scheduling (boot db clock) := by
  have idle : ¬Carries jobId (boot db clock).memory := by
    simp [Carries, boot, Memory.waiting, Memory.parked, Memory.hand, getTasks]
  have plan : ∃ operation scheduling, ∀ j, Assoc.get jobId db.jobs = some j →
      j.operation = operation ∧ j.scheduling = scheduling := by
    cases stored : Assoc.get jobId db.jobs with
    | none =>
      refine ⟨"", none, fun j same => ?_⟩
      cases same
    | some j =>
      refine ⟨j.operation, j.scheduling, fun j' same => ?_⟩
      cases same
      exact ⟨rfl, rfl⟩
  obtain ⟨operation, scheduling, row⟩ := plan
  exact ⟨operation, scheduling, row, works_boot _ jobId db clock, fun carries => absurd carries idle⟩

end

end Tio.Job
