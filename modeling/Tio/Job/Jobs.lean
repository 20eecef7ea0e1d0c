import Tio.Job.Tables
import Tio.Job.Terminal
import Tio.Job.Tokens

namespace Tio.Job

open Tio.Core

/-- What an operation does to the rows of the jobs. -/
inductive JobsAfter (db : Db) : DbOp → List (String × JobEntity) → Prop
  | same (op : DbOp) : JobsAfter db op db.jobs
  | created (jobId : String) (j : JobEntity) (missing : Assoc.get jobId db.jobs = none) :
      JobsAfter db (.createJob jobId j) (Assoc.set jobId j db.jobs)
  | updated (jobId : String) (change : JobChange) (j : JobEntity)
      (stored : Assoc.get jobId db.jobs = some j) :
      JobsAfter db (.updateJob jobId change) (Assoc.set jobId (change.apply j) db.jobs)
  | canceled (jobId : String) (force : Bool) (j : JobEntity) (stored : Assoc.get jobId db.jobs = some j)
      (going : isJobToTerminal j.status = false) :
      JobsAfter db (.cancelJob jobId force)
        (Assoc.set jobId { j with status := .canceling, forceCanceled := force } db.jobs)
  | deleted (jobId : String) (force : Bool) :
      JobsAfter db (.deleteJob jobId force) (Assoc.erase jobId db.jobs)

/-- The row of a job after an operation. -/
inductive RowFrom (db : Db) (jobId : String) : DbOp → JobEntity → Prop
  | kept (op : DbOp) (j : JobEntity) (stored : Assoc.get jobId db.jobs = some j) : RowFrom db jobId op j
  | created (j : JobEntity) (missing : Assoc.get jobId db.jobs = none) : RowFrom db jobId (.createJob jobId j) j
  | updated (change : JobChange) (j : JobEntity) (stored : Assoc.get jobId db.jobs = some j) :
      RowFrom db jobId (.updateJob jobId change) (change.apply j)
  | canceled (force : Bool) (j : JobEntity) (stored : Assoc.get jobId db.jobs = some j) :
      RowFrom db jobId (.cancelJob jobId force) { j with status := .canceling, forceCanceled := force }

/-- The step stores a new job. -/
def Creates (jobId : String) (s : State) (a : Action) : Prop :=
  ∃ (k : Nat) (operation : String) (things : List String) (scheduling : Option SchedulingConfig)
    (rollout : Option RolloutConfig) (timeout : Option TimeoutConfig), a = .serve k true ∧
    s.memory.calls[k]? = some ⟨.createJob jobId operation things scheduling rollout timeout, .start⟩ ∧
    Assoc.get jobId s.db.jobs = none

/-- The row of a job after a step. -/
inductive RowAfter (s : State) (a : Action) (jobId : String) (j' : JobEntity) : Prop
  | kept (j : JobEntity) (stored : Assoc.get jobId s.db.jobs = some j) (things : j'.things = j.things)
      (status : j'.status = j.status)
  | created (creates : Creates jobId s a) (waiting : j'.status = .waiting)
  | canceled (j : JobEntity) (stored : Assoc.get jobId s.db.jobs = some j) (things : j'.things = j.things)
      (canceling : j'.status = .canceling)
  | written (j : JobEntity) (stored : Assoc.get jobId s.db.jobs = some j) (things : j'.things = j.things)
      (answered : a.ok = true) (write : StatusWrite s.clock s.memory a jobId j'.status)

section

variable {now : Int} {db : Db} {op : DbOp}

theorem jobsAfter_exec (now : Int) (db : Db) (op : DbOp) : JobsAfter db op (op.exec now db).1.jobs := by
  cases op with
  | createJob jobId j =>
    rw [DbOp.exec]
    split
    · exact .same _
    · exact .created jobId j ‹_›
  | updateJob jobId change =>
    rw [DbOp.exec, Db.updateJob]
    split
    · exact .updated jobId change _ ‹_›
    · exact .same _
  | cancelJob jobId force =>
    rw [DbOp.exec, Db.cancelJob]
    split
    · exact .same _
    · rename_i j stored
      split
      · exact .same _
      · rename_i going
        split
        · exact .same _
        · have after := JobsAfter.canceled jobId force j stored (by simpa using going)
          simpa [Db.cancelTasks, Db.mapTasks, Db.updateJob, stored, JobChange.apply] using after
  | deleteJob jobId force =>
    rw [DbOp.exec, Db.deleteJob]
    split
    · exact .deleted jobId force
    · split
      · exact .same _
      · split
        · exact .same _
        · exact .deleted jobId force
  | createTasks tasks =>
    rw [DbOp.exec, Db.createTasks]
    split <;> exact .same _
  | reportTask taskId status =>
    rw [DbOp.exec, Db.reportTask]
    repeat' split
    all_goals exact .same _
  | cancelTask thingId jobId version force =>
    rw [DbOp.exec, Db.cancelTask]
    repeat' split
    all_goals exact .same _
  | deleteTask thingId jobId taskId force =>
    rw [DbOp.exec, Db.deleteTask]
    repeat' split
    all_goals exact .same _
  | _ => exact .same _

theorem rowFrom_jobsAfter {jobId : String} {jobs : List (String × JobEntity)} {j' : JobEntity}
    (after : JobsAfter db op jobs) (stored' : Assoc.get jobId jobs = some j') : RowFrom db jobId op j' := by
  cases after with
  | same => exact .kept _ _ stored'
  | created other j missing =>
    rw [Assoc.get_set] at stored'
    split at stored'
    · rename_i named
      subst named
      cases stored'
      exact .created _ missing
    · exact .kept _ _ stored'
  | updated other change j stored =>
    rw [Assoc.get_set] at stored'
    split at stored'
    · rename_i named
      subst named
      cases stored'
      exact .updated change j stored
    · exact .kept _ _ stored'
  | canceled other force j stored going =>
    rw [Assoc.get_set] at stored'
    split at stored'
    · rename_i named
      subst named
      cases stored'
      exact .canceled force j stored
    · exact .kept _ _ stored'
  | deleted other force =>
    rw [Assoc.get_erase] at stored'
    split at stored'
    · cases stored'
    · exact .kept _ _ stored'

theorem nodup_jobsAfter {jobs : List (String × JobEntity)} (distinct : (Assoc.keys db.jobs).Nodup)
    (after : JobsAfter db op jobs) : (Assoc.keys jobs).Nodup := by
  cases after with
  | same => exact distinct
  | created | updated | canceled => exact Assoc.nodup_keys_set distinct
  | deleted => exact Assoc.nodup_keys_erase distinct

/-- The creation of a job is answered exactly when no row has its id. -/
theorem exec_done_createJob {jobId : String} {j : JobEntity}
    (replied : ((DbOp.createJob jobId j).exec now db).2 = .done) : Assoc.get jobId db.jobs = none := by
  rw [DbOp.exec] at replied
  split at replied
  · cases replied
  · assumption

theorem exec_jobs_reply {rows : List (String × JobEntity)} (replied : (op.exec now db).2 = .jobs rows) :
    rows = db.jobs.filter fun row => isPending row.2.status := by
  cases op with
  | pendingJobs =>
    cases replied
    rfl
  | _ =>
    simp only [DbOp.exec, Db.cancelJob, Db.deleteJob, Db.createTasks, Db.reportTask, Db.cancelTask,
      Db.deleteTask] at replied
    grind

end

section

variable {s s' : State} {a : Action} {jobId : String}

/-- The jobs after a step: an operation that is sent and answered has its effect. -/
theorem step_jobs (taken : step s a = some s') : s'.db.jobs = s.db.jobs ∨
    ∃ op, Requests s.clock s.memory a op ∧ a.ok = true ∧ JobsAfter s.db op s'.db.jobs := by
  rcases step_db taken with ⟨same, -⟩ | ⟨op, requested, answered, same⟩
  · exact .inl (by rw [same])
  · exact .inr ⟨op, requests_of_request requested, answered, same ▸ jobsAfter_exec s.clock s.db op⟩

/-- The row of a job is as it was, or the step sends what changes it. -/
theorem step_rowFrom {j' : JobEntity} (taken : step s a = some s') (stored' : Assoc.get jobId s'.db.jobs = some j') :
    Assoc.get jobId s.db.jobs = some j' ∨
      ∃ op, Requests s.clock s.memory a op ∧ a.ok = true ∧ RowFrom s.db jobId op j' := by
  rcases step_jobs taken with same | ⟨op, sent, answered, after⟩
  · exact .inl (same ▸ stored')
  · exact .inr ⟨op, sent, answered, rowFrom_jobsAfter after stored'⟩

theorem creates_of_sent {j : JobEntity} (sent : Requests s.clock s.memory a (.createJob jobId j)) (answered : a.ok = true)
    (missing : Assoc.get jobId s.db.jobs = none) : Creates jobId s a := by
  cases sent with
  | createJob ok k _ operation things scheduling rollout timeout here =>
    cases answered
    exact ⟨k, operation, things, scheduling, rollout, timeout, rfl, here, missing⟩
  | preload _ _ _ _ _ _ finishes | drained _ _ _ _ _ _ _ finishes | checked _ _ _ _ _ _ finishes =>
    cases finishes

theorem step_row {j' : JobEntity} (taken : step s a = some s')
    (stored' : Assoc.get jobId s'.db.jobs = some j') : RowAfter s a jobId j' := by
  rcases step_rowFrom taken stored' with same | ⟨op, sent, answered, source⟩
  · exact .kept j' same rfl rfl
  · cases source with
    | kept _ _ stored => exact .kept j' stored rfl rfl
    | created _ missing =>
      exact .created (creates_of_sent sent answered missing) (request_createJob (request_of_requests sent))
    | updated change j stored =>
      cases sets : change.status with
      | none => exact .kept j stored rfl (by simp [JobChange.apply, sets])
      | some st =>
        refine .written j stored rfl answered ?_
        simpa [JobChange.apply, sets] using request_status (request_of_requests sent) sets
    | canceled force j stored => exact .canceled j stored rfl rfl

theorem nodup_jobs_step (distinct : (Assoc.keys s.db.jobs).Nodup) (taken : step s a = some s') :
    (Assoc.keys s'.db.jobs).Nodup := by
  rcases step_jobs taken with same | ⟨op, -, -, after⟩
  · rwa [same]
  · exact nodup_jobsAfter distinct after

/-- A reply other than a failure answers the operation that the step sends. -/
theorem replied_of_ne_failed (replied : (access s a).2 ≠ .failed) :
    ∃ op, Requests s.clock s.memory a op ∧ a.ok = true ∧ (op.exec s.clock s.db).2 = (access s a).2 := by
  revert replied
  rw [access]
  split
  · rename_i op requested
    split
    · rename_i answered
      exact fun _ => ⟨op, requests_of_request requested, answered, rfl⟩
    · exact fun replied => absurd rfl replied
  · exact fun replied => absurd rfl replied

theorem tally_keys_le_one {jobs : List (String × JobEntity)} (distinct : (Assoc.keys jobs).Nodup)
    (keep : String × JobEntity → Bool) :
    tally (fun row => if row.1 = jobId then 1 else 0) (jobs.filter keep) ≤ 1 := by
  refine Nat.le_trans (tally_sublist List.filter_sublist) ?_
  induction jobs with
  | nil => exact Nat.zero_le _
  | cons row rest ih =>
    obtain ⟨fresh, distinct'⟩ := List.nodup_cons.mp distinct
    rw [tally_cons]
    split
    · rename_i here
      have none_left : tally (fun row => if row.1 = jobId then 1 else 0) rest = 0 := by
        refine tally_eq_zero_iff.mpr fun other member => if_neg fun same => ?_
        exact fresh (List.mem_map.mpr ⟨other, member, same.trans here.symm⟩)
      omega
    · have later := ih distinct'
      omega

/-- A token is minted at the preload and when a job is created. -/
theorem minted_cases (distinct : (Assoc.keys s.db.jobs).Nodup)
    (minted : s.memory.minted jobId (access s a).2 a ≠ 0) :
    s.memory.minted jobId (access s a).2 a ≤ 1 ∧
      (Creates jobId s a ∨ ((∃ ok, a = .rollout ok) ∧ s.memory.rollout = .loadJobs)) := by
  cases a with
  | rollout ok =>
    simp only [Memory.minted] at minted ⊢
    split at minted
    · rename_i jobs here replied
      obtain ⟨op, -, -, exec⟩ := replied_of_ne_failed (s := s) (a := .rollout ok) (by simp [replied])
      rw [replied] at exec
      cases exec_jobs_reply exec
      exact ⟨tally_keys_le_one distinct _, .inr ⟨⟨ok, rfl⟩, here⟩⟩
    · exact absurd rfl minted
  | serve k ok =>
    simp only [Memory.minted] at minted ⊢
    split at minted
    · rename_i created operation things scheduling rollout timeout here replied
      split at minted
      · rename_i named
        subst named
        obtain ⟨op, sent, answered, exec⟩ := replied_of_ne_failed (s := s) (a := .serve k ok) (by simp [replied])
        cases answered
        have created := request_of_requests sent
        simp only [request, here, bind, Option.bind_some, Memory.serveOp, Option.some.injEq] at created
        subst created
        rw [replied] at exec
        exact ⟨by split <;> omega,
          .inl ⟨k, operation, things, scheduling, rollout, timeout, rfl, here, exec_done_createJob exec⟩⟩
      · exact absurd rfl minted
    · exact absurd rfl minted
  | _ => exact absurd rfl minted

end

end Tio.Job
