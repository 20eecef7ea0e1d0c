import Tio.Job.Requests

namespace Tio.Job

open Tio.Core

/-- Every stored status is one that the type declares. -/
def AllDeclared (db : Db) : Prop :=
  ∀ jobId j, Assoc.get jobId db.jobs = some j → j.status.declared = true

/-- The statuses are declared, and a job that was at its end is where it was,
unless its row is gone. -/
structure StatusKept (db db' : Db) : Prop where
  declared : AllDeclared db'
  terminal : ∀ jobId j j', Assoc.get jobId db.jobs = some j → isJobTerminal j.status = true →
    Assoc.get jobId db'.jobs = some j' → j'.status = j.status

/-- What `doFinishJob` must not meet in the table, for the status it was told. -/
def finishOvertaken : (told stored : Status) → Bool
  | .canceled, _ => true
  | .canceling, .completed => true
  | .waiting, .canceled | .inProgress, .canceled => true
  | _, _ => false

/-- A write of a status that comes after the job reached its end, or that has no
status to write. -/
inductive Overtaken (s : State) : Action → Prop
  | start (i l : Nat) (v : PendingJobItem) (j : JobEntity) (here : s.memory.rollout = .schedule i l)
      (inside : i < l) (found : s.memory.pendingJobs[i]? = some v)
      (inTime : isJobScheduleInTime s.clock v.context = true) (waits : v.context.status = .waiting)
      (stored : Assoc.get v.context.jobId s.db.jobs = some j)
      (ended : isJobTerminal j.status = true) : Overtaken s (.rollout true)
  | scheduleEnd (i l : Nat) (ok : Bool) (v : PendingJobItem) (j : JobEntity)
      (here : s.memory.rollout = .endJob i l ok) (found : s.memory.pendingJobs[i]? = some v)
      (stored : Assoc.get v.context.jobId s.db.jobs = some j)
      (ended : j.status = .completed) : Overtaken s (.rollout true)
  | preload (jobId : String) (told j : JobEntity) (rest : List (String × JobEntity × List Task))
      (here : s.memory.rollout = .preload ((jobId, told, []) :: rest))
      (stored : Assoc.get jobId s.db.jobs = some j)
      (ended : finishOvertaken told.status j.status = true) : Overtaken s (.rollout true)
  | drained (i l : Nat) (v : PendingJobItem) (j : JobEntity) (here : s.memory.rollout = .finish i l)
      (found : s.memory.pendingJobs[i]? = some v)
      (stored : Assoc.get v.context.jobId s.db.jobs = some j)
      (ended : finishOvertaken v.context.status j.status = true) : Overtaken s (.rollout true)
  | checked (jobId : String) (told : Status) (todo : List String) (j : JobEntity)
      (here : s.memory.watch = .finish jobId told todo)
      (stored : Assoc.get jobId s.db.jobs = some j)
      (ended : finishOvertaken told j.status = true) : Overtaken s (.watch true)
  | canceled (i : Nat) (jobId : String) (force : Bool) (j : JobEntity)
      (here : s.memory.calls[i]? = some ⟨.cancelJob jobId force, .writeCanceled⟩)
      (stored : Assoc.get jobId s.db.jobs = some j)
      (ended : j.status = .completed) : Overtaken s (.serve i true)

/-- The places that write a status outside of a transaction, each with its status. -/
inductive StatusWrite (now : Int) (m : Memory) : Action → String → Status → Prop
  | start (ok : Bool) (i l : Nat) (v : PendingJobItem) (here : m.rollout = .schedule i l)
      (inside : i < l) (found : m.pendingJobs[i]? = some v)
      (inTime : isJobScheduleInTime now v.context = true) (waits : v.context.status = .waiting) :
      StatusWrite now m (.rollout ok) v.context.jobId .inProgress
  | scheduleEnd (ok : Bool) (i l : Nat) (before : Bool) (v : PendingJobItem)
      (here : m.rollout = .endJob i l before) (found : m.pendingJobs[i]? = some v) :
      StatusWrite now m (.rollout ok) v.context.jobId .canceled
  | preload (ok : Bool) (jobId : String) (told : JobEntity) (st : Status)
      (rest : List (String × JobEntity × List Task))
      (here : m.rollout = .preload ((jobId, told, []) :: rest))
      (finishes : finishStatus told.status = some st) : StatusWrite now m (.rollout ok) jobId st
  | drained (ok : Bool) (i l : Nat) (v : PendingJobItem) (st : Status)
      (here : m.rollout = .finish i l) (found : m.pendingJobs[i]? = some v)
      (finishes : finishStatus v.context.status = some st) :
      StatusWrite now m (.rollout ok) v.context.jobId st
  | checked (ok : Bool) (jobId : String) (told st : Status) (todo : List String)
      (here : m.watch = .finish jobId told todo) (finishes : finishStatus told = some st) :
      StatusWrite now m (.watch ok) jobId st
  | canceled (ok : Bool) (i : Nat) (jobId : String) (force : Bool)
      (here : m.calls[i]? = some ⟨.cancelJob jobId force, .writeCanceled⟩) :
      StatusWrite now m (.serve i ok) jobId .canceled

theorem request_status {now : Int} {m : Memory} {a : Action} {jobId : String} {change : JobChange}
    {st : Status} (op : request now m a = some (.updateJob jobId change))
    (sets : change.status = some st) : StatusWrite now m a jobId st := by
  cases request_eq_some_iff.mp op with
  | start ok i l v here inside found inTime waits =>
    cases sets
    exact .start ok i l v here inside found inTime waits
  | endJob ok i l before v here found =>
    cases sets
    exact .scheduleEnd ok i l before v here found
  | preload ok _ told rest _ here finishes =>
    cases finishes with
    | update st' finishes =>
      cases sets
      exact .preload ok jobId told st rest here finishes
  | drained ok i l v _ here found finishes =>
    cases finishes with
    | update st' finishes =>
      cases sets
      exact .drained ok i l v st here found finishes
  | checked ok _ told todo _ here finishes =>
    cases finishes with
    | update st' finishes =>
      cases sets
      exact .checked ok jobId told st todo here finishes
  | canceled ok k _ force here =>
    cases sets
    exact .canceled ok k jobId force here
  | updateJob => cases sets

theorem StatusWrite.request {now : Int} {m : Memory} {a : Action} {jobId : String} {st : Status}
    (write : StatusWrite now m a jobId st) :
    ∃ change, request now m a = some (.updateJob jobId change) ∧ change.status = some st := by
  cases write with
  | start ok i l v here inside found inTime waits =>
    exact ⟨_, request_of_requests (.start ok i l v here inside found inTime waits), rfl⟩
  | scheduleEnd ok i l before v here found =>
    exact ⟨_, request_of_requests (.endJob ok i l before v here found), rfl⟩
  | preload ok _ told _ rest here finishes =>
    exact ⟨_, request_of_requests (.preload ok jobId told rest _ here (.update st finishes)), rfl⟩
  | drained ok i l v _ here found finishes =>
    exact ⟨_, request_of_requests (.drained ok i l v _ here found (.update st finishes)), rfl⟩
  | checked ok _ told _ todo here finishes =>
    exact ⟨_, request_of_requests (.checked ok jobId told todo _ here (.update st finishes)), rfl⟩
  | canceled ok k _ force here =>
    exact ⟨_, request_of_requests (.canceled ok k jobId force here), rfl⟩

/-- What a job that is created is stored with. -/
theorem request_createJob {now : Int} {m : Memory} {a : Action} {jobId : String} {j : JobEntity}
    (op : request now m a = some (.createJob jobId j)) : j.status = .waiting := by
  cases request_eq_some_iff.mp op with
  | createJob => rfl
  | preload _ _ _ _ _ _ finishes | drained _ _ _ _ _ _ _ finishes | checked _ _ _ _ _ _ finishes =>
    cases finishes

theorem StatusKept.refl {db : Db} (declared : AllDeclared db) : StatusKept db db :=
  ⟨declared, fun _ _ _ stored _ stored' => by rw [stored] at stored'; cases stored'; rfl⟩

theorem StatusKept.congr {db db' db'' : Db} (kept : StatusKept db db') (same : db''.jobs = db'.jobs) :
    StatusKept db db'' :=
  ⟨by simpa [AllDeclared, same] using kept.declared, by simpa [same] using kept.terminal⟩

theorem StatusKept.of_jobs {db db' : Db} (declared : AllDeclared db) (same : db'.jobs = db.jobs) :
    StatusKept db db' := (StatusKept.refl declared).congr same

theorem get_updateJob (db : Db) (jobId other : String) (change : JobChange) :
    Assoc.get other (db.updateJob jobId change).jobs =
      if jobId = other then (Assoc.get jobId db.jobs).map change.apply
      else Assoc.get other db.jobs := by
  rw [Db.updateJob]
  cases stored : Assoc.get jobId db.jobs with
  | none =>
    by_cases same : jobId = other
    · simp [← same, stored]
    · simp [same]
  | some j => simp [Assoc.get_set]

/-- An update is harmless exactly when the status it leaves the row with is declared
and no other than the one of a job at its end. -/
theorem statusKept_updateJob_iff {db : Db} (declared : AllDeclared db) (jobId : String)
    (change : JobChange) : StatusKept db (db.updateJob jobId change) ↔
      ∀ j, Assoc.get jobId db.jobs = some j → (change.status.getD j.status).declared = true ∧
        (isJobTerminal j.status = true → change.status.getD j.status = j.status) := by
  constructor
  · intro kept j stored
    have stored' : Assoc.get jobId (db.updateJob jobId change).jobs = some (change.apply j) := by
      simp [get_updateJob, stored]
    exact ⟨kept.declared jobId _ stored', fun ended => kept.terminal jobId j _ stored ended stored'⟩
  · intro harmless
    constructor
    · intro other j' stored'
      rw [get_updateJob] at stored'
      split at stored'
      · obtain ⟨j, stored, rfl⟩ := Option.map_eq_some_iff.mp stored'
        exact (harmless j stored).1
      · exact declared other j' stored'
    · intro other j j' stored ended stored'
      rw [get_updateJob] at stored'
      split at stored'
      · rename_i same
        subst other
        rw [stored] at stored'
        cases stored'
        exact (harmless j stored).2 ended
      · rw [stored] at stored'
        cases stored'
        rfl

theorem statusKept_createJob {db db' : Db} (declared : AllDeclared db) {jobId : String} {j : JobEntity}
    (missing : Assoc.get jobId db.jobs = none) (waiting : j.status = .waiting)
    (created : db'.jobs = Assoc.set jobId j db.jobs) : StatusKept db db' := by
  have kept := StatusKept.refl declared
  constructor
  · intro other j' stored'
    rw [created, Assoc.get_set] at stored'
    split at stored'
    · cases stored'
      rw [waiting]
      rfl
    · exact declared other j' stored'
  · intro other j₀ j' stored ended stored'
    rw [created, Assoc.get_set] at stored'
    split at stored'
    · rename_i same
      rw [← same, missing] at stored
      cases stored
    · exact kept.terminal other j₀ j' stored ended stored'

theorem statusKept_erase {db db' : Db} (declared : AllDeclared db) {jobId : String}
    (erased : db'.jobs = Assoc.erase jobId db.jobs) : StatusKept db db' := by
  have kept := StatusKept.refl declared
  constructor
  · intro other j' stored'
    rw [erased, Assoc.get_erase] at stored'
    split at stored'
    · cases stored'
    · exact declared other j' stored'
  · intro other j j' stored ended stored'
    rw [erased, Assoc.get_erase] at stored'
    split at stored'
    · cases stored'
    · exact kept.terminal other j j' stored ended stored'

theorem isJobToTerminal_of_terminal {status : Status} (ended : isJobTerminal status = true) :
    isJobToTerminal status = true := by
  cases status <;> first | rfl | cases ended

/-- The transactions ask for the status they find. -/
theorem statusKept_exec {db : Db} (declared : AllDeclared db) (now : Int) {op : DbOp}
    (creates : ∀ jobId j, op = .createJob jobId j → j.status = .waiting)
    (other : ∀ jobId change, op ≠ .updateJob jobId change) : StatusKept db (op.exec now db).1 := by
  cases op with
  | createJob jobId j =>
    have waiting := creates jobId j rfl
    rw [DbOp.exec]
    split
    · exact .refl declared
    · exact statusKept_createJob declared ‹_› waiting rfl
  | updateJob jobId change => exact absurd rfl (other jobId change)
  | cancelJob jobId force =>
    rw [DbOp.exec, Db.cancelJob]
    split
    · exact .refl declared
    · rename_i j stored
      split
      · exact .refl declared
      · rename_i going
        split
        · exact .refl declared
        · refine .congr ((statusKept_updateJob_iff declared jobId
            ⟨some .canceling, none, none, some force, none⟩).mpr ?_) rfl
          intro j' stored'
          rw [stored] at stored'
          cases stored'
          exact ⟨rfl, fun ended => absurd (isJobToTerminal_of_terminal ended) going⟩
  | deleteJob jobId force =>
    rw [DbOp.exec, Db.deleteJob]
    split
    · exact statusKept_erase declared rfl
    · split
      · exact .refl declared
      · split
        · exact .refl declared
        · exact statusKept_erase declared rfl
  | createTasks tasks =>
    refine .of_jobs declared ?_
    rw [DbOp.exec, Db.createTasks]
    split <;> rfl
  | reportTask taskId status =>
    refine .of_jobs declared ?_
    rw [DbOp.exec, Db.reportTask]
    split
    · rfl
    · split <;> rfl
  | cancelTask thingId jobId version force =>
    refine .of_jobs declared ?_
    rw [DbOp.exec, Db.cancelTask]
    repeat' split
    all_goals rfl
  | deleteTask thingId jobId taskId force =>
    refine .of_jobs declared ?_
    rw [DbOp.exec, Db.deleteTask]
    repeat' split
    all_goals rfl
  | _ => exact .of_jobs declared rfl

/-- The row that a write of a status must not meet. -/
def Harmful (st stored : Status) : Prop :=
  ¬(st.declared = true ∧ (isJobTerminal stored = true → st = stored))

theorem harmful_inProgress (stored : Status) :
    Harmful .inProgress stored ↔ isJobTerminal stored = true := by
  cases stored <;> simp [Harmful, Status.declared, isJobTerminal]

theorem harmful_canceled (stored : Status) : Harmful .canceled stored ↔ stored = .completed := by
  cases stored <;> simp [Harmful, Status.declared, isJobTerminal]

theorem harmful_finish {told st : Status} (finishes : finishStatus told = some st) (stored : Status) :
    Harmful st stored ↔ finishOvertaken told stored = true := by
  cases told <;> cases finishes <;> cases stored <;>
    simp [Harmful, finishOvertaken, Status.declared, isJobTerminal]

theorem finishStatus_of_overtaken {told stored : Status} (ended : finishOvertaken told stored = true) :
    ∃ st, finishStatus told = some st := by
  cases told <;> first | exact ⟨_, rfl⟩ | (cases stored <;> cases ended)

theorem StatusWrite.overtaken {s : State} {a : Action} {jobId : String} {st : Status} {j : JobEntity}
    (write : StatusWrite s.clock s.memory a jobId st) (ok : a.ok = true)
    (stored : Assoc.get jobId s.db.jobs = some j) (harmful : Harmful st j.status) :
    Overtaken s a := by
  cases write with
  | start ok' i l v here inside found inTime waits =>
    cases ok
    exact .start i l v j here inside found inTime waits stored ((harmful_inProgress _).mp harmful)
  | scheduleEnd ok' i l before v here found =>
    cases ok
    exact .scheduleEnd i l before v j here found stored ((harmful_canceled _).mp harmful)
  | preload ok' _ told _ rest here finishes =>
    cases ok
    exact .preload jobId told j rest here stored ((harmful_finish finishes _).mp harmful)
  | drained ok' i l v _ here found finishes =>
    cases ok
    exact .drained i l v j here found stored ((harmful_finish finishes _).mp harmful)
  | checked ok' _ told _ todo here finishes =>
    cases ok
    exact .checked jobId told todo j here stored ((harmful_finish finishes _).mp harmful)
  | canceled ok' i _ force here =>
    cases ok
    exact .canceled i jobId force j here stored ((harmful_canceled _).mp harmful)

/-- An overtaken step writes a status, and it finds a row that it must not meet. -/
theorem Overtaken.write {s : State} {a : Action} (overtaken : Overtaken s a) :
    a.ok = true ∧ ∃ jobId st j, StatusWrite s.clock s.memory a jobId st ∧
      Assoc.get jobId s.db.jobs = some j ∧ Harmful st j.status := by
  cases overtaken with
  | start i l v j here inside found inTime waits stored ended =>
    exact ⟨rfl, _, _, j, .start true i l v here inside found inTime waits, stored,
      (harmful_inProgress _).mpr ended⟩
  | scheduleEnd i l ok v j here found stored ended =>
    exact ⟨rfl, _, _, j, .scheduleEnd true i l ok v here found, stored, (harmful_canceled _).mpr ended⟩
  | preload jobId told j rest here stored ended =>
    obtain ⟨st, finishes⟩ := finishStatus_of_overtaken ended
    exact ⟨rfl, _, st, j, .preload true jobId told st rest here finishes, stored,
      (harmful_finish finishes _).mpr ended⟩
  | drained i l v j here found stored ended =>
    obtain ⟨st, finishes⟩ := finishStatus_of_overtaken ended
    exact ⟨rfl, _, st, j, .drained true i l v st here found finishes, stored,
      (harmful_finish finishes _).mpr ended⟩
  | checked jobId told todo j here stored ended =>
    obtain ⟨st, finishes⟩ := finishStatus_of_overtaken ended
    exact ⟨rfl, _, st, j, .checked true jobId told st todo here finishes, stored,
      (harmful_finish finishes _).mpr ended⟩
  | canceled i jobId force j here stored ended =>
    exact ⟨rfl, _, _, j, .canceled true i jobId force here, stored, (harmful_canceled _).mpr ended⟩

/-- Under declared statuses exactly the overtaken steps break the promise. -/
theorem statusKept_step {s s' : State} {a : Action} (declared : AllDeclared s.db)
    (taken : step s a = some s') : StatusKept s.db s'.db ↔ ¬Overtaken s a := by
  rw [(step_eq_some_iff.mp taken).2.1]
  constructor
  · intro kept overtaken
    obtain ⟨ok, jobId, st, j, write, stored, harmful⟩ := overtaken.write
    obtain ⟨change, op, sets⟩ := write.request
    rw [access, op] at kept
    simp only [ok, if_true, DbOp.exec] at kept
    have harmless := (statusKept_updateJob_iff declared jobId change).mp kept j stored
    rw [sets, Option.getD_some] at harmless
    exact harmful harmless
  · intro free
    cases op : request s.clock s.memory a with
    | none => simpa [access, op] using StatusKept.refl declared
    | some op' =>
      cases ok : a.ok with
      | false => simpa [access, op, ok] using StatusKept.refl declared
      | true =>
        have reached : (access s a).1 = (op'.exec s.clock s.db).1 := by simp [access, op, ok]
        rw [reached]
        by_cases update : ∃ jobId change, op' = .updateJob jobId change
        · obtain ⟨jobId, change, rfl⟩ := update
          refine (statusKept_updateJob_iff declared jobId change).mpr fun j stored => ?_
          cases sets : change.status with
          | none => exact ⟨declared jobId j stored, fun _ => rfl⟩
          | some st =>
            by_contra harmful
            exact free ((request_status op sets).overtaken ok stored harmful)
        · refine statusKept_exec declared s.clock ?_ ?_
          · rintro jobId j rfl
            exact request_createJob op
          · rintro jobId change rfl
            exact update ⟨jobId, change, rfl⟩

/-- In a run from a table with declared statuses the statuses stay declared and a
job stays at its end if and only if no step is overtaken. -/
theorem status_kept_iff (db : {db : Db // AllDeclared db}) (clock : Int) (actions : List Action) :
    Always step (fun s _ s' => StatusKept s.db s'.db) (boot db.1 clock) actions ↔
      Meets step (fun s a => ¬Overtaken s a) (boot db.1 clock) actions := by
  refine always_iff_meets (fun s => AllDeclared s.db) ?_ ?_ actions db.2
  · exact fun s a s' declared taken => statusKept_step declared taken
  · exact fun s a s' declared free taken => ((statusKept_step declared taken).mpr free).declared

/-- One job in progress whose task was sent before the start. -/
def sentDb : Db where
  jobs := [("a", { toEntity "$updateShadow/x" ["thing"] none none none with status := .inProgress })]
  tasks := numbered 1 ((toTaskEntities 0 "a" "$updateShadow/x" ["thing"]).map fun t =>
    { t with status := .sent })
  nextTaskId := 2
  returning := true
  positive := second_positive
  given := numbered_given (by decide)

/-- The task is submitted, then a forced cancellation runs to its end. -/
def cancelRun : List Action :=
  List.replicate 4 (.rollout true) ++ [.rolloutTick] ++ List.replicate 4 (.rollout true) ++
  [.recvPut, .rollout true, .rollout true] ++ [.sysOpTick] ++ List.replicate 3 (.sysOp none true) ++
  [.call (.cancelJob "a" true), .serve 0 true, .serve 0 true, .recvRemove 0, .serve 0 true,
    .serve 0 true]

/-- The action is done, and the job is checked for its end once more. -/
def lateCheckRun : List Action :=
  [.work 0 true, .recvResult 0, .change true, .recvChange, .watchTick ["a"], .watch true,
    .watch true, .watch true]

theorem sentDb_declared : AllDeclared sentDb := by
  intro jobId j stored
  rw [sentDb, Assoc.get_cons] at stored
  split at stored <;> cases stored
  rfl

theorem canceled_job_loses_status : AllDeclared sentDb ∧
    (execute step (boot sentDb 0) cancelRun).map (fun s =>
      (Assoc.get "a" s.db.jobs).map JobEntity.status) = some (some .canceled) ∧
    (execute step (boot sentDb 0) (cancelRun ++ lateCheckRun)).map (fun s =>
      (Assoc.get "a" s.db.jobs).map JobEntity.status) = some (some .zero) := ⟨sentDb_declared, rfl, rfl⟩

end Tio.Job
