import Tio.Job.Closing

namespace Tio.Job

open Tio.Core TaskQueue

/-- A job whose end nobody asks for, while the database answers: its row stays, and what its
item keeps at the end of a window fits its rows. -/
structure Attended (jobId : String) (s : State) : Prop where
  grounded : Grounded s
  staged : Staged s.memory
  unlimited : Unlimited s.memory
  results : Results s.memory
  changes : ∀ msg, s.memory.change = .update msg → msg.status ≠ .queued
  unended : Unended jobId s
  making : Making (fun context => isJobToTerminal context.status = false) jobId s.memory
  pending : ∀ v ∈ s.memory.pendingJobs, v.context.jobId = jobId → v.context.status ≠ .removing
  vacant : Assoc.get jobId s.db.jobs = none → s.memory.tokens jobId = 0 ∧ Silent jobId s.memory
  judged : jobId ∈ s.memory.watch.judged → AllOver jobId s.db
  thinned : Thinned jobId s.memory
  canceled : Canceled jobId s
  emptied : Emptied (AllOver jobId s.db) jobId s.memory

section

variable {s s' : State} {a : Action} {jobId : String}

/-- The preload lists rows that are stored and pending. -/
theorem pending_of_minted {ok : Bool} (distinct : (Assoc.keys s.db.jobs).Nodup)
    (minted : s.memory.minted jobId (access s (.rollout ok)).2 (.rollout ok) ≠ 0) :
    ∃ j, Assoc.get jobId s.db.jobs = some j ∧ isPending j.status = true := by
  simp only [Memory.minted] at minted
  split at minted
  · rename_i jobs here replied
    obtain ⟨op, -, -, exec⟩ := replied_of_ne_failed (s := s) (a := .rollout ok) (by simp [replied])
    rw [replied] at exec
    rw [exec_jobs_reply exec] at minted
    by_contra unlisted
    refine minted (tally_eq_zero_iff.mpr fun row listed => if_neg fun named => unlisted ?_)
    obtain ⟨member, pending⟩ := List.mem_filter.mp listed
    exact ⟨row.2, Assoc.get_of_mem distinct (named ▸ member), pending⟩
  · exact absurd rfl minted

theorem unpended {m : Memory} (vacant : m.tokens jobId = 0) : ∀ v ∈ m.pendingJobs, v.context.jobId ≠ jobId := by
  intro v member named
  have counted := le_tally (PendingJobItem.about jobId) member
  rw [PendingJobItem.about, if_pos named] at counted
  rw [Memory.tokens] at vacant
  omega

/-- Nothing of a job without tokens is in the center. -/
theorem quiet_of_tokens {m : Memory} (started : m.rollout.started = true) (vacant : m.tokens jobId = 0)
    (silent : Silent jobId m) : Quiet jobId m := by
  refine ⟨started, unpended vacant, fun closure member => ?_, silent.runner, silent.reports, silent.checks, silent.watch⟩
  rw [Memory.tokens, Memory.makers] at vacant
  have counted := le_tally (Closure.makes jobId) member
  by_contra brings
  cases closure with
  | readTasks context taskIds | addPendingJob item =>
    simp only [Closure.brings, decide_eq_true_eq, Bool.not_eq_false] at brings
    rw [Closure.makes, if_pos brings] at counted
    omega
  | _ => exact brings rfl

theorem Attended.fresh (attended : Attended jobId s) (creates : Creates jobId s a) :
    s.memory.tokens jobId = 0 ∧ Quiet jobId s.memory := by
  obtain ⟨k, _, _, _, _, _, rfl, here, missing⟩ := creates
  obtain ⟨vacant, silent⟩ := attended.vacant missing
  refine ⟨vacant, quiet_of_tokens ?_ vacant silent⟩
  by_contra waits
  simp [(attended.grounded.unstarted (by simpa using waits)).calls] at here

/-- The row of the job stays. -/
theorem Attended.stored (attended : Attended jobId s) (stays : removes jobId s a = false) (taken : step s a = some s')
    (missing : Assoc.get jobId s'.db.jobs = none) : Assoc.get jobId s.db.jobs = none := by
  rcases step_jobs taken with same | ⟨op, sent, -, after⟩
  · exact same ▸ missing
  · generalize rows : s'.db.jobs = jobs at after missing
    cases after with
    | same => exact missing
    | created other | updated other | canceled other =>
      rw [Assoc.get_set] at missing
      split at missing
      · cases missing
      · exact missing
    | deleted other force =>
      by_cases named : other = jobId
      · subst named
        have going : ∀ jobs, s.memory.rollout = .preload jobs → ∀ j tasks, (other, j, tasks) ∈ jobs →
            j.status ≠ .removing := by
          intro jobs here j tasks listed removing
          have going : isJobToTerminal j.status = false := attended.making.preload jobs here j tasks listed
          rw [removing] at going
          cases going
        obtain ⟨k, ok, rfl, here⟩ := attended.unended.deleted_by going attended.pending sent
        rw [← rows, db_refused stays taken here rfl] at missing
        exact missing
      · rw [Assoc.get_erase, if_neg named] at missing
        exact missing

theorem vacant_step (attended : Attended jobId s) (stays : removes jobId s a = false) (taken : step s a = some s')
    (missing' : Assoc.get jobId s'.db.jobs = none) : s'.memory.tokens jobId = 0 ∧ Silent jobId s'.memory := by
  have missing := attended.stored stays taken missing'
  obtain ⟨vacant, silent⟩ := attended.vacant missing
  have resumed := step_resume taken
  constructor
  · have added := (tokens_step jobId resumed).2
    by_contra grew
    have minted : s.memory.minted jobId (access s a).2 a ≠ 0 := by omega
    obtain ⟨-, creates | ⟨⟨ok, rfl⟩, -⟩⟩ := minted_cases attended.grounded.jobs minted
    · obtain ⟨k, operation, things, scheduling, rollout, timeout, rfl, here, -⟩ := creates
      have sent := request_of_requests
        (.createJob true k jobId operation things scheduling rollout timeout here : Requests s.clock s.memory _ _)
      rw [db_answered taken sent rfl, DbOp.exec, missing] at missing'
      simp at missing'
    · obtain ⟨j, stored, -⟩ := pending_of_minted attended.grounded.jobs minted
      rw [missing] at stored
      cases stored
  · refine silent_step attended.grounded.known.indexed silent (fun i l rolloutTasks here t member named => ?_) resumed
    obtain ⟨v, found, own⟩ := attended.grounded.home.put i l rolloutTasks here
    have quiet := quiet_of_tokens (by rw [here]; rfl) vacant silent
    exact quiet.pending v (List.mem_of_getElem? found) ((own t member).symm.trans named)

theorem attended_pending (attended : Attended jobId s) (taken : step s a = some s') :
    ∀ v ∈ s'.memory.pendingJobs, v.context.jobId = jobId → v.context.status ≠ .removing := by
  have making : Making (fun context => context.status ≠ .removing) jobId s.memory := by
    refine attended.making.mono fun context going removing => ?_
    rw [removing] at going
    cases going
  refine works_pending ⟨making, attended.pending⟩ ?_ ?_ ?_ taken
  · rintro context stays waits ⟨⟩
  · exact fun context timeout stays => stays
  · rintro v cancels named stays ⟨⟩

theorem attended_thinned (attended : Attended jobId s) (answered : a.ok = true) (taken : step s a = some s') :
    Thinned jobId s'.memory := by
  refine thinned_step (step_resume taken) attended.thinned attended.staged attended.making
    (fun i l ok v here found named => ⟨(attended.canceled.endJob i l ok v here found named).1, ?_⟩) ?_
  · rintro ⟨moved, rfl⟩
    rw [access_answered (request_of_requests (.endJob moved i l ok v here found)) answered]
    rfl
  · rintro ⟨moved, rfl⟩ i l v here found named
    refine ⟨_, congrArg Prod.snd (access_answered (request_of_requests (.reload moved i l v here found)) answered), ?_⟩
    intro t member
    obtain ⟨row, listed, rfl⟩ := List.mem_map.mp member
    exact (List.mem_filter.mp listed).2

theorem attended_emptied (attended : Attended jobId s) (taken : step s a = some s') :
    Emptied (AllOver jobId s'.db) jobId s'.memory := by
  have onward : ∀ v ∈ s.memory.pendingJobs, v.context.jobId = jobId → AllOver jobId s.db → AllOver jobId s'.db := by
    intro v member named settled
    refine allOver_step attended.grounded.known.keyed taken settled fun k context things here same => ?_
    exact makers_of_creating ⟨k, context, things, here, same⟩ (attended.unended.made member named)
  refine emptied_step (step_resume taken) (fun i l v here found named force => ?_) fun i l v here found named => ?_
  · exact onward v (List.mem_of_getElem? found) named ((attended.canceled.endJob i l true v here found named).2.2 force)
  · exact (attended.emptied i l v here found named).imp_right (onward v (List.mem_of_getElem? found) named)

theorem attended_step (attended : Attended jobId s) (stays : removes jobId s a = false) (answered : a.ok = true)
    (taken : step s a = some s') : Attended jobId s' := by
  have grounded := attended.grounded
  have unended := attended.unended
  have resumed := step_resume taken
  refine ⟨grounded_step grounded taken, staged_step attended.staged resumed, unlimited_step attended.unlimited resumed,
    results_step attended.results resumed, changes_step attended.results attended.changes resumed,
    unended_step unended grounded stays attended.fresh taken, ?_, attended_pending attended taken,
    vacant_step attended stays taken, judged_step grounded.known.keyed taken attended.judged unended.unchecked,
    attended_thinned attended answered taken, ?_, attended_emptied attended taken⟩
  · refine making_step grounded attended.making (fun j stored pending => ?_)
      (fun j stored started makers => unended.fresh started makers j stored) taken
    exact unended.going stored pending
  · refine canceled_step grounded.known.keyed attended.changes answered taken attended.canceled
      fun v member named creating => ?_
    exact makers_of_creating creating (unended.made member named)

theorem attended_boot {db : Db} (keyed : Keyed db) (distinct : (Assoc.keys db.jobs).Nodup)
    (row : ∀ j, Assoc.get jobId db.jobs = some j → j.status ≠ .canceling ∧ j.status ≠ .removing) (clock : Int) :
    Attended jobId (boot db clock) := by
  refine ⟨grounded_boot keyed distinct clock, staged_boot db clock, ?_, ?_, ?_, unended_boot row clock,
    (works_boot _ jobId db clock).toMaking, ?_, fun _ => ⟨?_, ?_, ?_, ?_, ?_⟩, ?_, ?_, ⟨?_, ?_⟩, ?_⟩
  all_goals simp [boot, Unlimited, Results, Memory.tokens, Memory.makers, RolloutPc.makes, Memory.waiting, Memory.parked,
    Memory.hand, Memory.reported, WatchPc.names, WatchPc.judged, getTasks, Thinned, Emptied]

end

end Tio.Job
