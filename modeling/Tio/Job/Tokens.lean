import Tio.Core.Tally
import Tio.Job.Frame

namespace Tio.Job

open Tio.Core

/-- One for an item of the job. -/
def PendingJobItem.about (jobId : String) (v : PendingJobItem) : Nat :=
  if v.context.jobId = jobId then 1 else 0

/-- One for a call that will add an item of the job. -/
def Call.makes (jobId : String) : Call → Nat
  | ⟨.createJob created .., .readBack⟩ => if created = jobId then 1 else 0
  | ⟨_, .submit (.createJob context _)⟩ => if context.jobId = jobId then 1 else 0
  | _ => 0

def Closure.makes (jobId : String) : Closure → Nat
  | .submitted (.createJob context _) | .readTasks context _ | .addPendingJob ⟨context, _, _⟩ =>
    if context.jobId = jobId then 1 else 0
  | _ => 0

def RolloutPc.makes (jobId : String) : RolloutPc → Nat
  | .loadTasks jobs => tally (fun row => if row.1 = jobId then 1 else 0) jobs
  | .preload jobs => tally (fun row => if row.1 = jobId then 1 else 0) jobs
  | _ => 0

namespace Memory

/-- How many items of the job are on their way. -/
def makers (jobId : String) (m : Memory) : Nat :=
  m.rollout.makes jobId + tally (Call.makes jobId) m.calls + tally (Closure.makes jobId) m.closures

def tokens (jobId : String) (m : Memory) : Nat :=
  m.makers jobId + tally (PendingJobItem.about jobId) m.pendingJobs

/-- How many a step adds: the rows of the preload, and a job that was created. -/
def minted (jobId : String) (m : Memory) (reply : Reply) : Action → Nat
  | .rollout _ =>
    match m.rollout, reply with
    | .loadJobs, .jobs jobs => tally (fun row => if row.1 = jobId then 1 else 0) jobs
    | _, _ => 0
  | .serve k _ =>
    match m.calls[k]?, reply with
    | some ⟨.createJob created .., .start⟩, .done => if created = jobId then 1 else 0
    | _, _ => 0
  | _ => 0

end Memory

section

variable {now : Int} {m m' : Memory} {reply : Reply} {a : Action} {jobId : String}

theorem tally_loaded (weight : String → Nat) (jobs : List (String × JobEntity))
    (rows : List (Int × TaskEntity)) :
    tally (fun row => weight row.1) (Memory.loaded jobs rows) = tally (fun row => weight row.1) jobs := by
  induction jobs with
  | nil => rfl
  | cons row rest ih => simpa [Memory.loaded] using ih

open Memory in
theorem tokens_rolls {ok : Bool} (rolls : Rolls now reply m m') :
    m'.makers jobId ≤ m.makers jobId + m.minted jobId reply (.rollout ok) ∧
      m'.tokens jobId ≤ m.tokens jobId + m.minted jobId reply (.rollout ok) := by
  have replaced : ∀ {i : Nat} {v v' : PendingJobItem}, m.pendingJobs[i]? = some v →
      v'.about jobId = v.about jobId →
      tally (PendingJobItem.about jobId) (m.pendingJobs.set i v') =
        tally (PendingJobItem.about jobId) m.pendingJobs := by
    intro i v v' found same
    have moved := tally_set (PendingJobItem.about jobId) found v'
    omega
  have erased : ∀ i, tally (PendingJobItem.about jobId) (m.pendingJobs.eraseIdx i) ≤
      tally (PendingJobItem.about jobId) m.pendingJobs :=
    fun i => tally_sublist (List.eraseIdx_sublist _ i)
  cases rolls with
  | jobsLoaded jobs here replied =>
    simp only [makers, tokens, minted, goto, here, replied, RolloutPc.makes]
    omega
  | tasksLoaded jobs rows here replied =>
    have same := tally_loaded (fun other => if other = jobId then 1 else 0) jobs rows
    simp only [makers, tokens, goto, here, RolloutPc.makes]
    omega
  | started here | terminated _ _ _ here =>
    simp only [makers, tokens, goto, here, RolloutPc.makes, tally_cons, tally_nil]
    omega
  | preloaded id j tasks rest here filled =>
    simp only [makers, tokens, here, RolloutPc.makes, tally_cons, tally_append, tally_nil,
      PendingJobItem.about, toContext]
    omega
  | starts i l v here _ found | empty i l v here found | filled i l v here found
  | stopped i l v _ here found | reloaded i l v _ here found =>
    simp only [makers, tokens, goto, setItem, here, RolloutPc.makes]
    rw [replaced found]
    · omega
    · rfl
  | ended i l v _ here found | checked i l _ v _ here found | published i l v here found =>
    simp only [makers, tokens, goto, setItem, setJobContext, here, apply_ite (RolloutPc.makes jobId)]
    simp only [RolloutPc.makes, ite_self]
    rw [replaced found]
    · omega
    · rfl
  | rolled i l _ v here found =>
    simp only [makers, tokens, goto, setItem, here, RolloutPc.makes]
    rw [replaced found]
    · omega
    · rfl
  | kept i l v here found | cleared i l v here found | rolledOut i l _ v here found =>
    have fewer := erased i
    simp only [makers, tokens, goto, delItem, removeJobContext, here, RolloutPc.makes]
    omega
  | passed _ _ here | runs _ _ _ here | outside _ _ _ here | finished _ _ here | early _ _ _ here
  | tasksEnded _ _ here | endFailed _ _ _ here | endForced _ _ _ here | endKept _ _ _ here
  | reloadFailed _ _ here | unlimited _ _ _ _ _ here | timedOut _ _ _ _ _ _ _ here
  | remains _ _ _ _ _ _ _ here =>
    simp only [makers, tokens, goto, here, RolloutPc.makes]
    omega

/-- The stops of a call, and what the closure it submits will make. -/
theorem makes_serves (jobId : String) (k : Nat) (ok : Bool) {call : Call} {pc : CallPc} (found : m.calls[k]? = some call)
    (serves : Serves reply call pc) :
    Call.makes jobId ⟨call.request, pc⟩ + tally (Closure.makes jobId) call.pc.submits ≤
      call.makes jobId + m.minted jobId reply (.serve k ok) := by
  cases serves with
  | created id operation things scheduling rollout timeout replied =>
    simp [Call.makes, CallPc.submits, Memory.minted, found, replied]
  | submittedCancel id force work =>
    cases work <;> simp [Call.makes, CallPc.submits, Closure.makes]
  | submitted r work =>
    cases work <;> simp [Call.makes, CallPc.submits, Closure.makes]
  | refused call waits =>
    have nothing : call.pc.submits = [] := by
      cases stop : call.pc with
      | submit work => exact absurd stop (waits work)
      | _ => rfl
    simp [nothing, Call.makes]
  | readBack => exact Nat.add_le_add_left (Nat.zero_le _) _
  | _ => simp [Call.makes, CallPc.submits]

theorem tokens_removePendingJob (jobId : String) {other : String} {force forget : Bool} {rest : List PendingJobItem}
    (removed : removePendingJob other force m.pendingJobs = some (rest, forget)) :
    tally (PendingJobItem.about jobId) rest ≤ tally (PendingJobItem.about jobId) m.pendingJobs :=
  tally_removePendingJob (fun _ => Nat.le_refl _) removed

theorem makes_closureNext (jobId : String) {closure next : Closure} (continues : Memory.closureNext reply closure = some next) :
    next.makes jobId ≤ closure.makes jobId := by
  cases Memory.runs_of_closureNext continues <;> simp [Closure.makes]

variable (jobId) in
/-- Another timeout changes no token. -/
theorem tokens_recvUpdate {i : Nat} (taken : resume now m reply (.recvUpdate i) = some m') :
    m'.makers jobId = m.makers jobId ∧ m'.tokens jobId = m.tokens jobId := by
  obtain ⟨other, timeout, idle, sender, rfl⟩ := resume_recvUpdate taken
  have moved := tally_set (Call.makes jobId) sender ⟨.updateJob other (.configs timeout), .returned true⟩
  have after : Call.makes jobId ⟨.updateJob other (.configs timeout), .returned true⟩ = 0 := rfl
  have before : Call.makes jobId ⟨.updateJob other (.configs timeout), .sendUpdate⟩ = 0 := rfl
  rcases updateContext_cases other timeout m with same | ⟨k, v, timeout', found, named, same⟩
  · rw [same]
    simp only [Memory.makers, Memory.tokens, Memory.startPass, Memory.goto, Memory.setCall, idle, RolloutPc.makes]
    omega
  · have kept := tally_set (PendingJobItem.about jobId) found (v.withTimeout timeout')
    have alike : (v.withTimeout timeout').about jobId = v.about jobId := rfl
    rw [same]
    simp only [Memory.makers, Memory.tokens, Memory.startPass, Memory.goto, Memory.setCall, idle, RolloutPc.makes]
    omega

variable (jobId) in
/-- A step adds no token but those it mints. -/
theorem tokens_step (taken : resume now m reply a = some m') :
    m'.makers jobId ≤ m.makers jobId + m.minted jobId reply a ∧
      m'.tokens jobId ≤ m.tokens jobId + m.minted jobId reply a := by
  have frame := resume_frame taken
  cases a with
  | rollout ok => exact tokens_rolls (Memory.rolls_of_rolloutNext taken)
  | rolloutTick =>
    simp only [resume] at taken
    split at taken
    · rename_i idle
      cases taken
      simp only [Memory.makers, Memory.tokens, Memory.startPass, Memory.goto, idle, RolloutPc.makes]
      omega
    · cases taken
  | recvPending i =>
    obtain ⟨item, idle, sender, rfl⟩ := resume_recvPending taken
    have moved := tally_set (Closure.makes jobId) sender .finished
    have same : Closure.makes jobId (.addPendingJob item) = item.about jobId := rfl
    have none : Closure.makes jobId .finished = 0 := rfl
    simp only [Memory.makers, Memory.tokens, Memory.startPass, Memory.goto, Memory.setClosure, idle,
      RolloutPc.makes, tally_append, tally_cons, tally_nil]
    omega
  | recvUpdate i =>
    have kept := tokens_recvUpdate jobId taken
    omega
  | recvRemove i =>
    obtain ⟨r, operation, other, force, received, idle, sender, removal, removed, rfl⟩ :=
      resume_recvRemove taken
    obtain ⟨rest, forget, swept, rfl⟩ := receiveRemove_cases removed
    have fewer := tokens_removePendingJob jobId swept
    have moved := tally_set (Call.makes jobId) sender ⟨r, .submit (.delete operation (.job other))⟩
    have none : Call.makes jobId ⟨r, .submit (.delete operation (.job other))⟩ = 0 := by
      cases r <;> rfl
    simp only [Memory.makers, Memory.tokens, Memory.setCall]
    omega
  | recvFinished =>
    obtain ⟨other, todo, received, idle, sender, removed, rfl⟩ := resume_recvFinished taken
    obtain ⟨rest, forget, swept, rfl⟩ := receiveRemove_cases removed
    have fewer := tokens_removePendingJob jobId swept
    simp only [Memory.makers, Memory.tokens]
    omega
  | recvPut =>
    obtain ⟨i, l, rolloutTasks, idle, sender, rfl⟩ := resume_recvPut taken
    simp only [Memory.makers, Memory.tokens, sender, RolloutPc.makes]
    omega
  | recvEndDelete =>
    obtain ⟨i, l, v, idle, sender, found, rfl⟩ := resume_recvEndDelete taken
    obtain ⟨rollout, watch, service, change, sysOp, workers⟩ :=
      Memory.deleteTask_frame (.job v.context.jobId) m
    simp only [Memory.makers, Memory.tokens, Memory.goto, sender, RolloutPc.makes, service.calls,
      service.closures, rollout.pendingJobs]
    omega
  | recvDelete i =>
    obtain ⟨operation, msg, idle, sender, system, rfl⟩ := resume_recvDelete taken
    obtain ⟨rollout, watch, service, change, sysOp, workers⟩ := Memory.deleteTask_frame msg m
    have moved := tally_set (Closure.makes jobId) sender (.deleted msg)
    have none : Closure.makes jobId (.deleted msg) = 0 := rfl
    simp only [Memory.makers, Memory.tokens, Memory.setClosure, service.calls, service.closures,
      rollout.pendingJobs, rollout.rollout]
    omega
  | call r =>
    simp only [resume] at taken
    split at taken
    · cases taken
      have none : Call.makes jobId ⟨r, .start⟩ = 0 := by cases r <;> rfl
      simp only [Memory.makers, Memory.tokens, tally_append, tally_cons, tally_nil, none]
      omega
    · cases taken
  | serve k ok =>
    obtain ⟨call, pc, found, serves, rfl⟩ := resume_serve taken
    have moved := tally_set (Call.makes jobId) found ⟨call.request, pc⟩
    have made := makes_serves jobId k ok found serves
    simp only [Memory.makers, Memory.tokens, tally_append]
    omega
  | run k ok =>
    obtain ⟨closure, next, found, continues, rfl⟩ := resume_run taken
    have moved := tally_set (Closure.makes jobId) found next
    have fewer := makes_closureNext jobId continues
    simp only [Memory.makers, Memory.tokens, Memory.setClosure]
    omega
  | _ =>
    simp only [Memory.makers, Memory.tokens]
    rw [frame.rollout rfl, frame.calls rfl, frame.closures rfl, frame.pendingJobs rfl]
    omega

end

end Tio.Job
