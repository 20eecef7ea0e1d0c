import Tio.Job.Load

namespace Tio.Job

open Tio.Core

/-- A forced cancellation or a deletion of a job. -/
def Request.withdraws : Request → Option (String × Bool)
  | .cancelJob jobId true => some (jobId, true)
  | .deleteJob jobId force => some (jobId, force)
  | _ => none

/-- The loop took the message of the call. -/
def CallPc.heard : CallPc → Bool
  | .submit _ | .writeCanceled | .returned true => true
  | _ => false

def CallPc.answered : CallPc → Bool
  | .returned ok => ok
  | _ => false

/-- The loop took the message of a call that ends the job. -/
def Heard (jobId : String) (m : Memory) : Prop :=
  ∃ call ∈ m.calls, (∃ w ∈ call.request.withdraws, w.1 = jobId) ∧ call.pc.heard = true

/-- The caller that ended the job has its answer. -/
def Withdrawn (jobId : String) (m : Memory) : Prop :=
  ∃ call ∈ m.calls, (∃ w ∈ call.request.withdraws, w.1 = jobId) ∧ call.pc.answered = true

/-- A task of the job is put to the runner, which has a context that does not end. -/
def PutsTask (jobId : String) (s : State) (a : Action) : Prop :=
  a = .recvPut ∧ ∃ (i l : Nat) (rolloutTasks : List Task), s.memory.rollout = .put i l rolloutTasks ∧
    (∃ t ∈ rolloutTasks, t.jobId = jobId) ∧ s.memory.barred jobId = false

/-- The row of the job gets the status of a job in progress. -/
def SetsInProgress (jobId : String) (db db' : Db) : Prop :=
  (∃ j, Assoc.get jobId db'.jobs = some j ∧ j.status = .inProgress) ∧
    ∀ j, Assoc.get jobId db.jobs = some j → j.status ≠ .inProgress

/-- Once its caller has the answer the job does not go on. -/
def StaysWithdrawn (s : State) (a : Action) (s' : State) : Prop :=
  ∀ jobId, Withdrawn jobId s.memory → ¬PutsTask jobId s a ∧ ¬SetsInProgress jobId s.db s'.db

def Action.removing : Action → Option Nat
  | .recvRemove k => some k
  | _ => none

/-- The loop takes the message that ends a job while something of the job is on its
way to the loop, or it keeps an item of the job. -/
def Overlooks (s : State) (a : Action) : Prop :=
  ∃ k ∈ a.removing, ∃ call ∈ s.memory.calls[k]?, ∃ w ∈ call.request.withdraws,
    s.memory.makers w.1 ≠ 0 ∨ 1 < tally (PendingJobItem.about w.1) s.memory.pendingJobs ∨
      w.2 = false ∧ ∃ v ∈ s.memory.pendingJobs, v.context.jobId = w.1 ∧ ongoingTasks v.tasks ≠ []

/-- The job that a step creates. -/
def created (s : State) : Action → Option String
  | .serve k true =>
    match s.memory.calls[k]? with
    | some ⟨.createJob jobId .., .start⟩ => if Assoc.get jobId s.db.jobs = none then some jobId else none
    | _ => none
  | _ => none

/-- The id of a job that was ended is given to another job. -/
def Recycles (s : State) (a : Action) : Prop := ∃ jobId ∈ created s a, Heard jobId s.memory

instance (jobId : String) (m : Memory) : Decidable (Heard jobId m) :=
  inferInstanceAs (Decidable (∃ call ∈ m.calls, (∃ w ∈ call.request.withdraws, w.1 = jobId) ∧
    call.pc.heard = true))

instance (jobId : String) (m : Memory) : Decidable (Withdrawn jobId m) :=
  inferInstanceAs (Decidable (∃ call ∈ m.calls, (∃ w ∈ call.request.withdraws, w.1 = jobId) ∧
    call.pc.answered = true))

instance (s : State) (a : Action) : Decidable (Recycles s a) :=
  inferInstanceAs (Decidable (∃ jobId ∈ created s a, Heard jobId s.memory))

instance (s : State) (a : Action) : Decidable (Overlooks s a) :=
  inferInstanceAs (Decidable (∃ k ∈ a.removing, ∃ call ∈ s.memory.calls[k]?,
    ∃ w ∈ call.request.withdraws, s.memory.makers w.1 ≠ 0 ∨
      1 < tally (PendingJobItem.about w.1) s.memory.pendingJobs ∨
      w.2 = false ∧ ∃ v ∈ s.memory.pendingJobs, v.context.jobId = w.1 ∧ ongoingTasks v.tasks ≠ []))

section

variable {s s' : State} {a : Action} {jobId : String}

theorem created_of_creates (creates : Creates jobId s a) : created s a = some jobId := by
  obtain ⟨k, operation, things, scheduling, rollout, timeout, rfl, here, missing⟩ := creates
  simp [created, here, missing]

theorem heard_of_withdrawn {m : Memory} (withdrawn : Withdrawn jobId m) : Heard jobId m := by
  obtain ⟨call, member, ends, answered⟩ := withdrawn
  refine ⟨call, member, ends, ?_⟩
  revert answered
  cases call.pc with
  | returned ok => cases ok <;> exact id
  | _ => exact fun answered => absurd answered Bool.false_ne_true

theorem removal_of_withdraws {r : Request} {w : String × Bool} (ends : w ∈ r.withdraws) :
    r.removal = some w := by
  cases r with
  | cancelJob other forced =>
    cases forced <;> cases ends
    rfl
  | deleteJob other forced =>
    cases ends
    rfl
  | _ => cases ends

/-- After its message a call only waits for the pool and the database. -/
theorem heard_of_serveNext {reply : Reply} {call : Call} {pc : CallPc} {w : String × Bool}
    (ends : w ∈ call.request.withdraws) (continues : Memory.serveNext reply call = some pc)
    (after : pc.heard = true) : call.pc.heard = true := by
  cases serves_of_serveNext continues with
  | submittedCancel | submitted | canceled => rfl
  | created | readBack | asked | written | described | taskCanceled | taskDeleted => cases ends
  | canceling | deleted | dropped | refused => cases after

/-- The message is taken at one step of the loop. -/
theorem heard_cases {now : Int} {m m' : Memory} {reply : Reply} (taken : resume now m reply a = some m')
    (heard : Heard jobId m') : Heard jobId m ∨ ∃ (k : Nat) (call : Call) (force : Bool),
      a = .recvRemove k ∧ m.calls[k]? = some call ∧ (jobId, force) ∈ call.request.withdraws := by
  obtain ⟨call, member, ⟨⟨_, force⟩, ends, rfl⟩, after⟩ := heard
  obtain ⟨k, found⟩ := List.getElem?_of_mem member
  cases resume_calls taken found with
  | before _ _ _ here => exact .inl ⟨call, List.mem_of_getElem? here, ⟨_, ends, rfl⟩, after⟩
  | started r => cases after
  | updated _ other timeout here => cases ends
  | removed _ r operation other forced here removal =>
    exact .inr ⟨k, ⟨r, .sendRemove operation⟩, force, rfl, here, ends⟩
  | served _ ok old pc here continues =>
    exact .inl ⟨old, List.mem_of_getElem? here, ⟨_, ends, rfl⟩,
      heard_of_serveNext ends continues after⟩

theorem about_pos_iff {v : PendingJobItem} : v.about jobId ≠ 0 ↔ v.context.jobId = jobId := by
  simp [PendingJobItem.about]

/-- A message that overlooks nothing leaves no item of the job. -/
theorem items_gone {pending rest : List PendingJobItem} {force forget : Bool}
    (single : tally (PendingJobItem.about jobId) pending ≤ 1)
    (allowed : force = true ∨ ∀ v ∈ pending, v.context.jobId = jobId → ongoingTasks v.tasks = [])
    (removed : removePendingJob jobId force pending = some (rest, forget)) :
    tally (PendingJobItem.about jobId) rest = 0 := by
  refine tally_eq_zero_iff.mpr fun u member => ?_
  by_contra counts
  have named := about_pos_iff.mp counts
  by_cases present : ∃ v ∈ pending, v.context.jobId = jobId
  · obtain ⟨v, listed, here⟩ := present
    obtain ⟨before, after, rfl⟩ := List.append_of_mem listed
    have one : v.about jobId = 1 := if_pos here
    rw [tally_append, tally_cons, one] at single
    have apart : ∀ u ∈ before ++ after, u.context.jobId ≠ jobId := by
      intro u within same
      have counted := le_tally (PendingJobItem.about jobId) within
      rw [tally_append, PendingJobItem.about, if_pos same] at counted
      omega
    have left := removePendingJob_single apart here
      (allowed.imp_right fun idle => idle v listed here) removed
    exact apart u (left ▸ member) named
  · obtain ⟨old, listed, same, -⟩ := mem_removePendingJob removed member
    exact present ⟨old, listed, by rw [← same, named]⟩

/-- When the loop took the message nothing of the job is left in the center. -/
structure Ended (s : State) : Prop where
  grounded : Grounded s
  empty : ∀ jobId, Heard jobId s.memory → s.memory.tokens jobId = 0

theorem ended_step (ended : Ended s) (heeds : ¬Overlooks s a) (single : ¬Recycles s a)
    (taken : step s a = some s') : Ended s' := by
  have resumed := step_resume taken
  refine ⟨grounded_step ended.grounded taken, fun jobId heard => ?_⟩
  have added := (tokens_step jobId resumed).2
  rcases heard_cases resumed heard with before | ⟨k, call, force, rfl, here, ends⟩
  · have none := ended.empty jobId before
    by_cases unminted : s.memory.minted jobId (access s a).2 a = 0
    · omega
    · obtain ⟨-, creates | ⟨⟨ok, rfl⟩, loading⟩⟩ := minted_cases ended.grounded.jobs unminted
      · exact absurd ⟨jobId, created_of_creates creates, before⟩ single
      · -- before the preload there is no call
        obtain ⟨call, member, -⟩ := before
        have idle := ended.grounded.unstarted (by rw [loading]; rfl)
        simp [idle.calls] at member
  · have settled : s.memory.makers jobId = 0 ∧
        tally (PendingJobItem.about jobId) s.memory.pendingJobs ≤ 1 ∧
        (force = true ∨ ∀ v ∈ s.memory.pendingJobs, v.context.jobId = jobId → ongoingTasks v.tasks = []) := by
      by_contra kept
      refine heeds ⟨k, rfl, call, here, (jobId, force), ends, ?_⟩
      cases force <;> grind
    obtain ⟨r', operation', jobId', force', received, idle, sender, removal, removed, after⟩ :=
      resume_recvRemove resumed
    rw [here] at sender
    cases sender
    cases (removal_of_withdraws ends).symm.trans removal
    obtain ⟨rest, forget, swept, rfl⟩ := receiveRemove_cases removed
    have makers := (tokens_step jobId resumed).1
    have unminted : s.memory.minted jobId (access s (.recvRemove k)).2 (.recvRemove k) = 0 := rfl
    have none := items_gone settled.2.1 settled.2.2 swept
    rw [Memory.tokens, after] at *
    simp only [Memory.setCall] at makers ⊢
    omega

theorem finishStatus_ne_inProgress (told : Status) : finishStatus told ≠ some .inProgress := by
  cases told <;> simp [finishStatus]

/-- Only the schedule loop writes this status, for an item that waits. -/
theorem item_of_write {now : Int} {m : Memory} (write : StatusWrite now m a jobId .inProgress) :
    ∃ v ∈ m.pendingJobs, v.context.jobId = jobId ∧ v.context.status = .waiting := by
  cases write with
  | start ok i l v here inside found inTime waits => exact ⟨v, List.mem_of_getElem? found, rfl, waits⟩
  | preload ok _ told _ rest here finishes | drained ok i l v _ here found finishes
  | checked ok _ told _ todo here finishes => exact absurd finishes (finishStatus_ne_inProgress _)

/-- Only a job with an item is put into progress, and only its tasks are put. -/
theorem staysWithdrawn_of_ended (ended : Ended s) (taken : step s a = some s') : StaysWithdrawn s a s' := by
  intro jobId withdrawn
  have none := ended.empty jobId (heard_of_withdrawn withdrawn)
  have apart : ∀ v ∈ s.memory.pendingJobs, v.context.jobId ≠ jobId := by
    intro v member named
    have counted := le_tally (PendingJobItem.about jobId) member
    rw [PendingJobItem.about, if_pos named] at counted
    rw [Memory.tokens] at none
    omega
  constructor
  · rintro ⟨rfl, i, l, rolloutTasks, here, ⟨t, member, named⟩, -⟩
    obtain ⟨v, found, home⟩ := ended.grounded.home.put i l rolloutTasks here
    exact apart v (List.mem_of_getElem? found) (by rw [← home t member, named])
  · rintro ⟨⟨j', stored', progress⟩, other⟩
    cases step_row taken stored' with
    | kept j stored _ status => exact other j stored (status ▸ progress)
    | created _ waiting => simp [progress] at waiting
    | canceled _ _ _ canceling => simp [progress] at canceling
    | written j stored _ answered write =>
      rw [progress] at write
      obtain ⟨v, member, named, -⟩ := item_of_write write
      exact apart v member named

end

/-- In a run whose loop overlooks nothing of a job that is ended, and that gives the id
of no such job to another one, a job does not go on once its caller has the answer. -/
theorem withdrawn_of_heeded (db : {db : Db // Keyed db ∧ (Assoc.keys db.jobs).Nodup}) (clock : Int)
    (actions : List Action)
    (heeded : Meets step (fun s a => ¬Overlooks s a ∧ ¬Recycles s a) (boot db.1 clock) actions) :
    Always step StaysWithdrawn (boot db.1 clock) actions := by
  refine Meets.always Ended ?_ heeded ⟨grounded_boot db.2.1 db.2.2 clock, ?_⟩
  · intro s a s' ended heeded taken
    exact ⟨staysWithdrawn_of_ended ended taken, ended_step ended heeded.1 heeded.2 taken⟩
  · intro jobId heard
    obtain ⟨call, member, -⟩ := heard
    cases member

theorem emptyDb_keyed : Keyed emptyDb ∧ (Assoc.keys emptyDb.jobs).Nodup := by decide

/-- A job is created and canceled by force, and only then the pool turns to it. -/
def asyncRun : List Action := List.flatten [
  List.replicate 3 (.rollout true),
  [.call (.createJob "a" "$updateShadow/x" ["thing"] none none none), .serve 0 true, .serve 0 true,
    .serve 0 true],
  [.call (.cancelJob "a" true), .serve 1 true, .serve 1 true, .recvRemove 1, .serve 1 true, .serve 1 true],
  [.run 0 true, .run 0 true, .recvPending 0]]

/-- The same requests, with the creation done before the cancellation. -/
def syncRun : List Action := List.flatten [
  List.replicate 3 (.rollout true),
  [.call (.createJob "a" "$updateShadow/x" ["thing"] none none none), .serve 0 true, .serve 0 true,
    .serve 0 true, .run 0 true, .run 0 true, .recvPending 0],
  List.replicate 4 (.rollout true), [.recvPut, .rollout true, .rollout true],
  [.call (.cancelJob "a" true), .serve 1 true, .serve 1 true, .recvRemove 1, .serve 1 true, .serve 1 true],
  [.rolloutTick, .rollout true]]

theorem job_withdrawn :
    (execute step (boot emptyDb 0) syncRun).map (fun s => (Assoc.get "a" s.db.jobs).map JobEntity.status) =
      some (some .canceled) ∧
    Always step StaysWithdrawn (boot emptyDb 0) syncRun :=
  ⟨by decide +kernel, withdrawn_of_heeded ⟨emptyDb, emptyDb_keyed⟩ 0 syncRun (by decide +kernel)⟩

/-- The job that was canceled is put into progress. -/
theorem canceled_job_in_progress :
    (Keyed emptyDb ∧ (Assoc.keys emptyDb.jobs).Nodup) ∧
    ¬Always step StaysWithdrawn (boot emptyDb 0) (asyncRun ++ [.rollout true]) := by
  refine ⟨emptyDb_keyed, fun every => ?_⟩
  have canceled : (execute step (boot emptyDb 0) asyncRun).any (fun s =>
      decide (Withdrawn "a" s.memory) && (Assoc.get "a" s.db.jobs).all (fun j => j.status ≠ .inProgress) &&
        (step s (.rollout true)).any fun s' =>
          (Assoc.get "a" s'.db.jobs).any fun j => j.status = .inProgress) = true := by decide +kernel
  obtain ⟨s, reached, before⟩ := (Option.any_eq_true _ _).mp canceled
  obtain ⟨⟨withdrawn, idle⟩, after⟩ := by simpa only [Bool.and_eq_true] using before
  obtain ⟨s', taken, progress⟩ := (Option.any_eq_true _ _).mp after
  obtain ⟨j', stored', progress⟩ := (Option.any_eq_true _ _).mp progress
  have stays := ((every.after reached) s' taken).1 "a" (of_decide_eq_true withdrawn)
  refine stays.2 ⟨⟨j', stored', of_decide_eq_true progress⟩, fun j stored => ?_⟩
  exact of_decide_eq_true ((Option.all_eq_true _ _).mp idle j stored)

end Tio.Job
