import Tio.Job.Contexts
import Tio.Job.Withdrawn

namespace Tio.Job

open Tio.Core TaskQueue

/-- The database cancels or deletes the job for a request. -/
def removes (jobId : String) (s : State) : Action → Bool
  | .serve k ok =>
    match (access s (.serve k ok)).2 with
    | .job _ => (s.memory.calls[k]?).any fun call => call.request.removal.any fun removed => removed.1 = jobId
    | _ => false
  | _ => false

/-- A job that no request cancels or deletes: it has one item at most, and while the item
is on its way nothing else has to do with the job. A request that is refused does nothing. -/
structure Unended (jobId : String) (s : State) : Prop where
  single : s.memory.tokens jobId ≤ 1
  silent : s.memory.rollout.started = false ∨ s.memory.makers jobId ≠ 0 → Silent jobId s.memory
  refused : ∀ call ∈ s.memory.calls, ∀ force, call.request.removal = some (jobId, force) →
    call.pc = .start ∨ call.pc = .returned false
  row : ∀ j, Assoc.get jobId s.db.jobs = some j → j.status ≠ .canceling ∧ j.status ≠ .removing
  watch : ∀ told todo, s.memory.watch = .finish jobId told todo → told ≠ .removing
  fresh : s.memory.rollout.started = true → s.memory.makers jobId ≠ 0 →
    ∀ j, Assoc.get jobId s.db.jobs = some j → isJobToTerminal j.status = false

section

variable {s s' : State} {a : Action} {jobId : String}

theorem removes_iff : removes jobId s a = true ↔ ∃ k ok call force, a = .serve k ok ∧ s.memory.calls[k]? = some call ∧
    call.request.removal = some (jobId, force) ∧ ∃ row, (access s a).2 = .job row := by
  constructor
  · intro taken
    unfold removes at taken
    split at taken
    · rename_i k ok
      split at taken
      · rename_i row replied
        obtain ⟨call, here, asked⟩ := (Option.any_eq_true _ _).mp taken
        obtain ⟨⟨other, force⟩, removal, named⟩ := (Option.any_eq_true _ _).mp asked
        obtain rfl : other = jobId := of_decide_eq_true named
        exact ⟨k, ok, call, force, rfl, here, removal, row, replied⟩
      · cases taken
    · cases taken
  · rintro ⟨k, ok, call, force, rfl, here, removal, row, replied⟩
    simp [removes, replied, here, removal]

theorem exec_removal {now : Int} {db : Db} {op : DbOp} {force : Bool}
    (removal : op = .cancelJob jobId force ∨ op = .deleteJob jobId force) :
    (∃ row, (op.exec now db).2 = .job row) ∨ (op.exec now db).1 = db := by
  rcases removal with rfl | rfl
  · rw [DbOp.exec, Db.cancelJob]
    repeat' split
    all_goals first | exact .inr rfl | exact .inl ⟨_, rfl⟩
  · rw [DbOp.exec, Db.deleteJob]
    repeat' split
    all_goals first | exact .inr rfl | exact .inl ⟨_, rfl⟩

/-- A request that is refused changes no row. -/
theorem db_refused {k : Nat} {ok force : Bool} {r : Request} (stays : removes jobId s (.serve k ok) = false)
    (taken : step s (.serve k ok) = some s') (here : s.memory.calls[k]? = some ⟨r, .start⟩)
    (removal : r.removal = some (jobId, force)) : s'.db = s.db := by
  rcases step_db taken with ⟨same, -⟩ | ⟨op, requested, answered, same⟩
  · exact same
  · have about : op = .cancelJob jobId force ∨ op = .deleteJob jobId force := by
      simp only [request, here, bind, Option.bind_some] at requested
      cases r <;> cases removal <;> cases requested
      · exact .inl rfl
      · exact .inr rfl
    have either : (∃ row, (op.exec s.clock s.db).2 = .job row) ∨ (op.exec s.clock s.db).1 = s.db := exec_removal about
    rcases either with ⟨row, replied⟩ | still
    · have accepted : (access s (.serve k ok)).2 = .job row := by rw [access_answered requested answered, replied]
      rw [removes_iff.mpr ⟨k, ok, _, force, rfl, here, removal, row, accepted⟩] at stays
      cases stays
    · exact same.trans still

/-- The request is refused, or it has not begun. -/
theorem refused_step (unended : Unended jobId s) (stays : removes jobId s a = false) (taken : step s a = some s') :
    ∀ call ∈ s'.memory.calls, ∀ force, call.request.removal = some (jobId, force) →
      call.pc = .start ∨ call.pc = .returned false := by
  intro call member force removal
  obtain ⟨k, found⟩ := List.getElem?_of_mem member
  cases resume_calls (step_resume taken) found with
  | before _ _ _ here => exact unended.refused call (List.mem_of_getElem? here) force removal
  | started r => exact .inl rfl
  | updated => cases removal
  | removed _ r operation other forced here =>
    rcases unended.refused _ (List.mem_of_getElem? here) force removal with stop | stop <;> cases stop
  | served _ ok old pc here continues =>
    have stop := unended.refused old (List.mem_of_getElem? here) force removal
    have replied : ∀ row, (access s (.serve k ok)).2 ≠ .job row := by
      intro row accepted
      rw [removes_iff.mpr ⟨k, ok, old, force, rfl, here, removal, row, accepted⟩] at stays
      cases stays
    cases serves_of_serveNext continues with
    | canceling _ _ j accepted => exact absurd accepted (replied _)
    | deleted _ _ row accepted => exact absurd accepted (replied _)
    | refused => exact .inr rfl
    | dropped | submittedCancel | submitted | canceled => rcases stop with stop | stop <;> cases stop
    | _ => cases removal

/-- The status that is written is none of a job that is on its way out. -/
theorem StatusWrite.settles {now : Int} {m : Memory} {st : Status} (write : StatusWrite now m a jobId st) :
    st ≠ .canceling ∧ st ≠ .removing := by
  have finished : ∀ {told : Status}, finishStatus told = some st → st ≠ .canceling ∧ st ≠ .removing := by
    intro told finishes
    cases told <;> cases finishes <;> exact ⟨by simp, by simp⟩
  cases write with
  | start | scheduleEnd | canceled => exact ⟨by simp, by simp⟩
  | preload _ _ _ _ _ _ finishes | drained _ _ _ _ _ _ _ finishes | checked _ _ _ _ _ _ finishes =>
    exact finished finishes

/-- Only a request that cancels the job makes its row say so. -/
theorem canceling_step {j' : JobEntity} (taken : step s a = some s')
    (before : ∀ j, Assoc.get jobId s.db.jobs = some j → j.status ≠ .canceling)
    (stored' : Assoc.get jobId s'.db.jobs = some j') (canceling : j'.status = .canceling) :
    ∃ (k : Nat) (ok force : Bool), a = .serve k ok ∧ s.memory.calls[k]? = some ⟨.cancelJob jobId force, .start⟩ := by
  rcases step_rowFrom taken stored' with same | ⟨op, sent, answered, source⟩
  · exact absurd canceling (before j' same)
  · cases source with
    | kept _ _ stored => exact absurd canceling (before j' stored)
    | created _ missing =>
      rw [request_createJob (request_of_requests sent)] at canceling
      cases canceling
    | updated change j stored =>
      cases sets : change.status with
      | none => exact absurd (by simpa [JobChange.apply, sets] using canceling) (before j stored)
      | some st =>
        have same : st = .canceling := by simpa [JobChange.apply, sets] using canceling
        exact absurd same (request_status (request_of_requests sent) sets).settles.1
    | canceled force j stored =>
      cases sent with
      | cancelJob ok k _ _ here => exact ⟨k, ok, force, rfl, here⟩
      | preload _ _ _ _ _ _ finishes | drained _ _ _ _ _ _ _ finishes | checked _ _ _ _ _ _ finishes =>
        cases finishes

theorem row_step (unended : Unended jobId s) (stays : removes jobId s a = false) (taken : step s a = some s') :
    ∀ j, Assoc.get jobId s'.db.jobs = some j → j.status ≠ .canceling ∧ j.status ≠ .removing := by
  intro j' stored'
  cases step_row taken stored' with
  | kept j stored things status => exact status ▸ unended.row j stored
  | created creates waiting => simp [waiting]
  | canceled j stored things canceling =>
    obtain ⟨k, ok, force, rfl, here⟩ := canceling_step taken (fun j stored => (unended.row j stored).1) stored' canceling
    rw [db_refused stays taken here rfl] at stored'
    exact unended.row j' stored'
  | written j stored things answered write => exact write.settles

/-- Nothing else makes an item of a job that has one. -/
theorem Unended.made (unended : Unended jobId s) {v : PendingJobItem} (member : v ∈ s.memory.pendingJobs)
    (named : v.context.jobId = jobId) : s.memory.makers jobId = 0 := by
  have single := unended.single
  have counted := le_tally (PendingJobItem.about jobId) member
  rw [PendingJobItem.about, if_pos named] at counted
  rw [Memory.tokens] at single
  omega

/-- Nothing but its creation is there of a job that has no item yet. -/
theorem Unended.before (unended : Unended jobId s) (grounded : Grounded s)
    (fresh : Creates jobId s a → Quiet jobId s.memory) (taken : step s a = some s')
    (later : s'.memory.rollout.started = false ∨ s'.memory.makers jobId ≠ 0) :
    Silent jobId s.memory ∧
      (s.memory.rollout.started = true → ∀ v ∈ s.memory.pendingJobs, v.context.jobId ≠ jobId) := by
  cases started : s.memory.rollout.started with
  | false => exact ⟨unended.silent (.inl started), fun again => nomatch again⟩
  | true =>
    have resumed := step_resume taken
    have makers := later.resolve_left (by simp [started_of_step started resumed])
    by_cases unmade : s.memory.makers jobId = 0
    · have added := (tokens_step jobId resumed).1
      have minted : s.memory.minted jobId (access s a).2 a ≠ 0 := by omega
      rcases (minted_cases grounded.jobs minted).2 with creates | ⟨-, here⟩
      · have quiet := fresh creates
        exact ⟨quiet.silent, fun _ => quiet.pending⟩
      · rw [here] at started
        cases started
    · exact ⟨unended.silent (.inr unmade), fun _ v member named => unmade (unended.made member named)⟩

theorem unended_silent (unended : Unended jobId s) (grounded : Grounded s)
    (fresh : Creates jobId s a → Quiet jobId s.memory) (taken : step s a = some s')
    (later : s'.memory.rollout.started = false ∨ s'.memory.makers jobId ≠ 0) : Silent jobId s'.memory := by
  obtain ⟨silent, alone⟩ := unended.before grounded fresh taken later
  refine silent_step grounded.known.indexed silent (fun i l rolloutTasks sender t member => ?_) (step_resume taken)
  obtain ⟨v, found, named⟩ := grounded.home.put i l rolloutTasks sender
  rw [named t member]
  exact alone (by rw [sender]; rfl) v (List.mem_of_getElem? found)

/-- Nobody writes the status of a job of which only the creation is there. -/
theorem fresh_step (unended : Unended jobId s) (grounded : Grounded s) (stays : removes jobId s a = false)
    (fresh : Creates jobId s a → Quiet jobId s.memory) (taken : step s a = some s')
    (started' : s'.memory.rollout.started = true) (makers : s'.memory.makers jobId ≠ 0) :
    ∀ j, Assoc.get jobId s'.db.jobs = some j → isJobToTerminal j.status = false := by
  intro j' stored'
  cases started : s.memory.rollout.started with
  | false => exact absurd (makers_of_start jobId grounded started taken started') makers
  | true =>
    obtain ⟨silent, alone⟩ := unended.before grounded fresh taken (.inr makers)
    have alone := alone started
    cases step_row taken stored' with
    | kept j stored things status =>
      refine status ▸ unended.fresh started (fun unmade => ?_) j stored
      have added := (tokens_step jobId (step_resume taken)).1
      have minted : s.memory.minted jobId (access s a).2 a ≠ 0 := by omega
      rcases (minted_cases grounded.jobs minted).2 with creates | ⟨-, here⟩
      · obtain ⟨_, _, _, _, _, _, _, _, missing⟩ := creates
        rw [stored] at missing
        cases missing
      · rw [here] at started
        cases started
    | created creates waiting =>
      rw [waiting]
      rfl
    | canceled j stored things canceling =>
      exact absurd canceling (row_step unended stays taken j' stored').1
    | written j stored things answered write =>
      generalize j'.status = st at write
      cases write with
      | start _ i l v here inside found => exact absurd rfl (alone v (List.mem_of_getElem? found))
      | scheduleEnd _ i l before v here found => exact absurd rfl (alone v (List.mem_of_getElem? found))
      | drained _ i l v st here found => exact absurd rfl (alone v (List.mem_of_getElem? found))
      | preload _ _ told st rest here =>
        rw [here] at started
        cases started
      | checked _ _ told st todo here =>
        refine absurd ?_ silent.watch
        rw [here]
        exact List.mem_cons_self
      | canceled _ k _ force here =>
        rcases unended.refused _ (List.mem_of_getElem? here) force rfl with other | other <;> cases other

/-- The row of the job is deleted by a request only. -/
theorem Unended.deleted_by {now : Int} {force : Bool} (unended : Unended jobId s)
    (preload : ∀ jobs, s.memory.rollout = .preload jobs → ∀ j tasks, (jobId, j, tasks) ∈ jobs → j.status ≠ .removing)
    (pending : ∀ v ∈ s.memory.pendingJobs, v.context.jobId = jobId → v.context.status ≠ .removing)
    (sent : Requests now s.memory a (.deleteJob jobId force)) :
    ∃ k ok, a = .serve k ok ∧ s.memory.calls[k]? = some ⟨.deleteJob jobId force, .start⟩ := by
  cases sent with
  | deleteJob ok k _ _ here => exact ⟨k, ok, rfl, here⟩
  | preload _ _ told rest _ here finishes =>
    cases finishes with
    | delete removing => exact absurd removing (preload _ here told [] List.mem_cons_self)
  | drained _ i l v _ here found finishes =>
    generalize other : v.context.jobId = id at finishes
    cases finishes with
    | delete removing => exact absurd removing (pending v (List.mem_of_getElem? found) other)
  | checked _ _ told todo _ here finishes =>
    cases finishes with
    | delete removing => exact absurd removing (unended.watch told todo here)

theorem makers_of_creating {m : Memory} (creating : Creating jobId m) : m.makers jobId ≠ 0 := by
  obtain ⟨k, context, things, here, named⟩ := creating
  have counted := le_tally (Closure.makes jobId) (List.mem_of_getElem? here)
  rw [Closure.makes, if_pos named] at counted
  rw [Memory.makers]
  omega

/-- A job is not checked before its tasks are stored. -/
theorem Unended.unchecked (unended : Unended jobId s) (creating : Creating jobId s.memory) :
    jobId ∉ s.memory.watch.names :=
  (unended.silent (.inr (makers_of_creating creating))).watch

/-- A row that the preload lists is one of a job that goes on. -/
theorem Unended.going {j : JobEntity} (unended : Unended jobId s) (stored : Assoc.get jobId s.db.jobs = some j)
    (pending : isPending j.status = true) : isJobToTerminal j.status = false := by
  have uncanceled := unended.row j stored
  cases status : j.status <;> simp_all [isPending, isJobToTerminal]

theorem unended_step (unended : Unended jobId s) (grounded : Grounded s) (stays : removes jobId s a = false)
    (fresh : Creates jobId s a → s.memory.tokens jobId = 0 ∧ Quiet jobId s.memory) (taken : step s a = some s') :
    Unended jobId s' := by
  have quiet : Creates jobId s a → Quiet jobId s.memory := fun creates => (fresh creates).2
  exact ⟨single_step grounded unended.single (fun creates => (fresh creates).1) taken,
    unended_silent unended grounded quiet taken, refused_step unended stays taken, row_step unended stays taken,
    read_step unended.watch (fun j stored => (unended.row j stored).2) taken, fresh_step unended grounded stays quiet taken⟩

theorem unended_boot {db : Db} (row : ∀ j, Assoc.get jobId db.jobs = some j → j.status ≠ .canceling ∧ j.status ≠ .removing)
    (clock : Int) : Unended jobId (boot db clock) := by
  refine ⟨?_, fun _ => ⟨?_, ?_, ?_, ?_⟩, ?_, row, ?_, ?_⟩
  all_goals simp [boot, Memory.tokens, Memory.makers, RolloutPc.makes, RolloutPc.started, Memory.waiting, Memory.parked,
    Memory.hand, Memory.reported, WatchPc.names, getTasks]

end

end Tio.Job
