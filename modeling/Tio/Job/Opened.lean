import Tio.Job.Awaited
import Tio.Job.Unended

namespace Tio.Job

open Tio.Core TaskQueue

/-- The step ends the job or one of its tasks: a request cancels or deletes the job,
the transaction on a task answers with one of its tasks, or its schedule cancels it. -/
def endsJob (jobId : String) (s : State) : Action → Bool
  | .call r => r.removal.any fun removed => removed.1 = jobId
  | .serve k ok =>
    match (access s (.serve k ok)).2 with
    | .task row => row.2.jobId = jobId
    | _ => false
  | .rollout _ =>
    match s.memory.rollout with
    | .outOfTime i _ => (s.memory.pendingJobs[i]?).any fun v => v.context.jobId = jobId &&
        !isJobScheduleBeforeStartTime s.clock v.context &&
        v.context.scheduling.any fun config => config.endBehavior ≠ .stopRollout
    | _ => false
  | _ => false

/-- The job is created while something of an earlier one with its id is left. -/
def Reuses (jobId : String) (s : State) (a : Action) : Prop :=
  created s a = some jobId ∧ (s.memory.tokens jobId ≠ 0 ∨ ¬Quiet jobId s.memory)

instance (jobId : String) (s : State) (a : Action) : Decidable (Reuses jobId s a) :=
  inferInstanceAs (Decidable (_ ∧ _))

/-- Nothing that anybody has of the job says that it ends. -/
structure Opened (jobId : String) (s : State) : Prop extends Unended jobId s where
  spared : ∀ call ∈ s.memory.calls, ∀ force, call.request.removal ≠ some (jobId, force)
  works : Works (fun context => isJobToTerminal context.status = false) jobId s.memory
  contexts : ∀ context, Assoc.get jobId s.memory.contexts = some context →
    isJobToTerminal context.status = false

section

variable {s s' : State} {a : Action} {jobId : String}

theorem fresh_of_unused (unused : ¬Reuses jobId s a) (creates : Creates jobId s a) :
    s.memory.tokens jobId = 0 ∧ Quiet jobId s.memory := by
  by_contra left
  exact unused ⟨created_of_creates creates, by tauto⟩

theorem spared_step (opened : Opened jobId s) (spares : endsJob jobId s a = false) (taken : step s a = some s') :
    ∀ call ∈ s'.memory.calls, ∀ force, call.request.removal ≠ some (jobId, force) := by
  intro call member force
  obtain ⟨k, found⟩ := List.getElem?_of_mem member
  cases resume_calls (step_resume taken) found with
  | before _ _ _ here => exact opened.spared call (List.mem_of_getElem? here) force
  | started r =>
    intro removal
    have removal : r.removal = some (jobId, force) := removal
    simp [endsJob, removal] at spares
  | updated => simp [Request.removal]
  | removed _ r operation other forced here => exact opened.spared _ (List.mem_of_getElem? here) force
  | served _ _ old pc here => exact opened.spared old (List.mem_of_getElem? here) force

/-- There is no request that the database could take. -/
theorem Opened.stays (opened : Opened jobId s) : removes jobId s a = false := by
  by_contra taken
  obtain ⟨k, ok, call, force, -, here, removal, -⟩ := removes_iff.mp (by simpa using taken)
  exact opened.spared call (List.mem_of_getElem? here) force removal

theorem opened_contexts (opened : Opened jobId s) (taken : step s a = some s') (context : JobContext)
    (held : Assoc.get jobId s'.memory.contexts = some context) : isJobToTerminal context.status = false := by
  cases resume_contexts jobId (step_resume taken) with
  | kept _ same => exact opened.contexts context (same ▸ held)
  | published _ i l v here found named set =>
    rw [held] at set
    cases set
    exact opened.works.pending v (List.mem_of_getElem? found) named
  | updated k v timeout member named set =>
    rw [held] at set
    cases set
    exact opened.works.pending v member named
  | cleared _ _ _ _ _ _ _ _ gone | removed _ _ _ _ _ _ gone | finished _ _ gone | forgotten _ _ _ gone
  | dropped _ _ _ _ _ gone =>
    rw [held] at gone
    cases gone

/-- The end of a schedule that cancels the job ends it. -/
theorem Cancels.ends {v : PendingJobItem} (cancels : Cancels s a v) (named : v.context.jobId = jobId) :
    endsJob jobId s a = true := by
  obtain ⟨⟨ok, i, l, rfl, here, found⟩, late, config, scheduled, behavior⟩ := cancels
  simp [endsJob, here, found, named, late, scheduled, behavior]

theorem opened_works (opened : Opened jobId s) (grounded : Grounded s) (spares : endsJob jobId s a = false)
    (taken : step s a = some s') : Works (fun context => isJobToTerminal context.status = false) jobId s'.memory := by
  refine works_step grounded opened.works (fun j stored pending => ?_)
    (fun j stored started makers => opened.fresh started makers j stored) (fun context going waits => rfl)
    (fun context timeout going => going) (fun v cancels named going => ?_) taken
  · exact opened.going stored pending
  · rw [cancels.ends named] at spares
    cases spares

theorem opened_step (opened : Opened jobId s) (grounded : Grounded s) (spares : endsJob jobId s a = false)
    (fresh : Creates jobId s a → s.memory.tokens jobId = 0 ∧ Quiet jobId s.memory) (taken : step s a = some s') :
    Opened jobId s' :=
  ⟨unended_step opened.toUnended grounded opened.stays fresh taken, spared_step opened spares taken,
    opened_works opened grounded spares taken, opened_contexts opened taken⟩

theorem opened_boot {db : Db} (row : ∀ j, Assoc.get jobId db.jobs = some j → j.status ≠ .canceling ∧ j.status ≠ .removing)
    (clock : Int) : Opened jobId (boot db clock) :=
  ⟨unended_boot row clock, by simp [boot], works_boot _ jobId db clock, by simp [boot]⟩

end

end Tio.Job
