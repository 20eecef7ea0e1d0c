import Tio.Job.System

namespace Tio.Job

open Tio.Core

/-- The tasks that a job in its window still has to roll out. -/
def drained (v : PendingJobItem) : List Task :=
  if isJobToTerminal v.context.status then ongoingTasks v.tasks else v.tasks

def PendingJobItem.withStatus (v : PendingJobItem) (status : Status) : PendingJobItem :=
  { v with context := { v.context with status := status } }

def PendingJobItem.withTimeout (v : PendingJobItem) (timeout : Option TimeoutConfig) : PendingJobItem :=
  { v with context := { v.context with timeout := timeout } }

def PendingJobItem.withTasks (v : PendingJobItem) (tasks : List Task) : PendingJobItem :=
  { v with tasks := tasks }

namespace Memory

/-- What the preload keeps of its queries. -/
def loaded (jobs : List (String × JobEntity)) (rows : List (Int × TaskEntity)) :
    List (String × JobEntity × List Task) :=
  jobs.map fun (jobId, j) => (jobId, j, toTasks (rows.filter fun row => row.2.jobId = jobId))

/-- One step of the loop from a memory to the next one. -/
inductive Rolls (now : Int) (reply : Reply) (m : Memory) : Memory → Prop
  | jobsLoaded (jobs : List (String × JobEntity)) (here : m.rollout = .loadJobs)
      (replied : reply = .jobs jobs) : Rolls now reply m (m.goto (.loadTasks jobs))
  | tasksLoaded (jobs : List (String × JobEntity)) (rows : List (Int × TaskEntity))
      (here : m.rollout = .loadTasks jobs) (replied : reply = .tasks rows) :
      Rolls now reply m (m.goto (.preload (loaded jobs rows)))
  | started (here : m.rollout = .preload []) : Rolls now reply m (m.goto .select)
  | terminated (jobId : String) (j : JobEntity) (rest : List (String × JobEntity × List Task))
      (here : m.rollout = .preload ((jobId, j, []) :: rest)) :
      Rolls now reply m (m.goto (.preload rest))
  | preloaded (jobId : String) (j : JobEntity) (tasks : List Task)
      (rest : List (String × JobEntity × List Task))
      (here : m.rollout = .preload ((jobId, j, tasks) :: rest)) (filled : tasks ≠ []) :
      Rolls now reply m { m with
        pendingJobs := m.pendingJobs ++ [⟨toContext jobId j, tasks, []⟩]
        rollout := .preload rest }
  | passed (i l : Nat) (here : m.rollout = .schedule i l) (outside : l ≤ i) :
      Rolls now reply m (m.goto .select)
  | starts (i l : Nat) (v : PendingJobItem) (here : m.rollout = .schedule i l) (inside : i < l)
      (found : m.pendingJobs[i]? = some v) (inTime : isJobScheduleInTime now v.context = true)
      (waits : v.context.status = .waiting) :
      Rolls now reply m ((m.setItem i (v.withStatus .inProgress)).goto (.drain i l))
  | runs (i l : Nat) (v : PendingJobItem) (here : m.rollout = .schedule i l) (inside : i < l)
      (found : m.pendingJobs[i]? = some v) (inTime : isJobScheduleInTime now v.context = true)
      (going : v.context.status ≠ .waiting) : Rolls now reply m (m.goto (.drain i l))
  | outside (i l : Nat) (v : PendingJobItem) (here : m.rollout = .schedule i l) (inside : i < l)
      (found : m.pendingJobs[i]? = some v) (outOfTime : isJobScheduleInTime now v.context = false) :
      Rolls now reply m (m.goto (.outOfTime i l))
  | empty (i l : Nat) (v : PendingJobItem) (here : m.rollout = .drain i l)
      (found : m.pendingJobs[i]? = some v) (nothing : drained v = []) :
      Rolls now reply m ((m.setItem i (v.withTasks [])).goto (.finish i l))
  | filled (i l : Nat) (v : PendingJobItem) (here : m.rollout = .drain i l)
      (found : m.pendingJobs[i]? = some v) (something : drained v ≠ []) :
      Rolls now reply m ((m.setItem i (v.withTasks (drained v))).goto (.timeout i l (drained v) []))
  | finished (i l : Nat) (here : m.rollout = .finish i l) : Rolls now reply m (m.goto (.clear i l))
  | kept (i l : Nat) (v : PendingJobItem) (here : m.rollout = .clear i l)
      (found : m.pendingJobs[i]? = some v) (going : v.context.status = .inProgress) :
      Rolls now reply m ((m.delItem i).goto (.schedule (i + 1) (m.pendingJobs.eraseIdx i).length))
  | cleared (i l : Nat) (v : PendingJobItem) (here : m.rollout = .clear i l)
      (found : m.pendingJobs[i]? = some v) (ended : v.context.status ≠ .inProgress) :
      Rolls now reply m (((m.removeJobContext v.context.jobId).delItem i).goto
        (.schedule (i + 1) (m.pendingJobs.eraseIdx i).length))
  | early (i l : Nat) (v : PendingJobItem) (here : m.rollout = .outOfTime i l)
      (found : m.pendingJobs[i]? = some v)
      (before : isJobScheduleBeforeStartTime now v.context = true) :
      Rolls now reply m (m.goto (.schedule (i + 1) l))
  | stopped (i l : Nat) (v : PendingJobItem) (config : SchedulingConfig)
      (here : m.rollout = .outOfTime i l) (found : m.pendingJobs[i]? = some v)
      (late : isJobScheduleBeforeStartTime now v.context = false)
      (scheduled : v.context.scheduling = some config) (stops : config.endBehavior = .stopRollout) :
      Rolls now reply m ((m.setItem i (v.withTasks (ongoingTasks v.tasks))).goto
        (.timeout i l (ongoingTasks v.tasks) []))
  | ended (i l : Nat) (v : PendingJobItem) (config : SchedulingConfig)
      (here : m.rollout = .outOfTime i l) (found : m.pendingJobs[i]? = some v)
      (late : isJobScheduleBeforeStartTime now v.context = false)
      (scheduled : v.context.scheduling = some config) (cancels : config.endBehavior ≠ .stopRollout) :
      Rolls now reply m ((m.setItem i (v.withStatus .canceled)).goto
        (if isSysOp v.context.operation then .endSend i l else .endTasks i l))
  | tasksEnded (i l : Nat) (here : m.rollout = .endTasks i l) :
      Rolls now reply m (m.goto (.endJob i l (reply matches .done)))
  | endFailed (i l : Nat) (ok : Bool) (here : m.rollout = .endJob i l ok) (failed : ok = true → reply ≠ .done) :
      Rolls now reply m (m.goto (.schedule (i + 1) l))
  | endForced (i l : Nat) (v : PendingJobItem) (here : m.rollout = .endJob i l true)
      (found : m.pendingJobs[i]? = some v) (replied : reply = .done)
      (force : endForce v.context = true) : Rolls now reply m (m.goto (.clear i l))
  | endKept (i l : Nat) (v : PendingJobItem) (here : m.rollout = .endJob i l true)
      (found : m.pendingJobs[i]? = some v) (replied : reply = .done)
      (mild : endForce v.context = false) : Rolls now reply m (m.goto (.reload i l))
  | reloaded (i l : Nat) (v : PendingJobItem) (rows : List (Int × TaskEntity))
      (here : m.rollout = .reload i l) (found : m.pendingJobs[i]? = some v)
      (replied : reply = .tasks rows) :
      Rolls now reply m ((m.setItem i (v.withTasks (toTasks rows))).goto
        (.timeout i l (toTasks rows) []))
  | reloadFailed (i l : Nat) (here : m.rollout = .reload i l) (failed : ∀ rows, reply ≠ .tasks rows) :
      Rolls now reply m (m.goto (.schedule (i + 1) l))
  | unlimited (i l : Nat) (tasks remain : List Task) (v : PendingJobItem)
      (here : m.rollout = .timeout i l tasks remain) (found : m.pendingJobs[i]? = some v)
      (limit : timeoutMinutes v.context = none) : Rolls now reply m (m.goto (.publish i l))
  | timedOut (i l : Nat) (t : Task) (rest remain : List Task) (v : PendingJobItem) (minutes : Int)
      (here : m.rollout = .timeout i l (t :: rest) remain) (found : m.pendingJobs[i]? = some v)
      (limit : timeoutMinutes v.context = some minutes) (late : isTimeout now minutes t = true) :
      Rolls now reply m (m.goto (.timeout i l rest remain))
  | remains (i l : Nat) (t : Task) (rest remain : List Task) (v : PendingJobItem) (minutes : Int)
      (here : m.rollout = .timeout i l (t :: rest) remain) (found : m.pendingJobs[i]? = some v)
      (limit : timeoutMinutes v.context = some minutes) (early : isTimeout now minutes t = false) :
      Rolls now reply m (m.goto (.timeout i l rest (remain ++ [t])))
  | checked (i l : Nat) (remain : List Task) (v : PendingJobItem) (minutes : Int)
      (here : m.rollout = .timeout i l [] remain) (found : m.pendingJobs[i]? = some v)
      (limit : timeoutMinutes v.context = some minutes) :
      Rolls now reply m ((m.setItem i (v.withTasks remain)).goto
        (if remain = [] then .clear i l else .publish i l))
  | published (i l : Nat) (v : PendingJobItem) (here : m.rollout = .publish i l)
      (found : m.pendingJobs[i]? = some v) :
      Rolls now reply m (((m.setJobContext v.context).setItem i
        (v.withTasks (v.tasks.drop (rolloutCount now v)))).goto
          (if isSysOp v.context.operation then .put i l (v.tasks.take (rolloutCount now v))
          else .rolled i l (rolloutCount now v)))
  | rolled (i l count : Nat) (v : PendingJobItem) (here : m.rollout = .rolled i l count)
      (found : m.pendingJobs[i]? = some v) (left : v.tasks ≠ []) :
      Rolls now reply m ((m.setItem i { v with rolloutStat := v.rolloutStat ++ [(now, count)] }).goto
        (.schedule (i + 1) l))
  | rolledOut (i l count : Nat) (v : PendingJobItem) (here : m.rollout = .rolled i l count)
      (found : m.pendingJobs[i]? = some v) (nothing : v.tasks = []) :
      Rolls now reply m ((m.delItem i).goto (.schedule (i + 1) (m.pendingJobs.eraseIdx i).length))

section

variable {now : Int} {reply : Reply} {m m' : Memory}

theorem eraseIdx_set_self {α : Type} (xs : List α) (i : Nat) (x : α) : (xs.set i x).eraseIdx i = xs.eraseIdx i := by
  induction xs generalizing i with
  | nil => rfl
  | cons y rest ih =>
    cases i with
    | zero => rfl
    | succ i => simp [ih]

/-! One lemma for each place where the loop stands. -/

theorem loadJobs_rolls (here : m.rollout = .loadJobs) (taken : m.rolloutNext now reply = some m') :
    Rolls now reply m m' := by
  simp only [rolloutNext, here] at taken
  split at taken
  · cases taken
    exact .jobsLoaded _ here rfl
  · cases taken

theorem loadTasks_rolls {jobs : List (String × JobEntity)} (here : m.rollout = .loadTasks jobs)
    (taken : m.rolloutNext now reply = some m') : Rolls now reply m m' := by
  simp only [rolloutNext, here] at taken
  split at taken
  · cases taken
    exact .tasksLoaded _ _ here rfl
  · cases taken

theorem preload_rolls {todo : List (String × JobEntity × List Task)} (here : m.rollout = .preload todo)
    (taken : m.rolloutNext now reply = some m') : Rolls now reply m m' := by
  simp only [rolloutNext, here] at taken
  match todo, here, taken with
  | [], here, taken =>
    cases taken
    exact .started here
  | (jobId, j, []) :: rest, here, taken =>
    cases taken
    exact .terminated jobId j rest here
  | (jobId, j, t :: more) :: rest, here, taken =>
    cases taken
    exact .preloaded jobId j (t :: more) rest here (by simp)

theorem schedule_rolls {i l : Nat} (here : m.rollout = .schedule i l)
    (taken : m.rolloutNext now reply = some m') : Rolls now reply m m' := by
  simp only [rolloutNext, here, bind] at taken
  split at taken
  case isTrue outside =>
    cases taken
    exact .passed i l here outside
  case isFalse within =>
    have inside : i < l := by omega
    obtain ⟨v, found, taken⟩ := Option.bind_eq_some_iff.mp taken
    split at taken
    case isTrue inTime =>
      split at taken
      case isTrue waits =>
        cases taken
        exact .starts i l v here inside found inTime waits
      case isFalse going =>
        cases taken
        exact .runs i l v here inside found inTime going
    case isFalse outOfTime =>
      cases taken
      exact .outside i l v here inside found (Bool.eq_false_iff.mpr outOfTime)

theorem drain_rolls {i l : Nat} (here : m.rollout = .drain i l) (taken : m.rolloutNext now reply = some m') :
    Rolls now reply m m' := by
  simp only [rolloutNext, here, bind] at taken
  obtain ⟨v, found, taken⟩ := Option.bind_eq_some_iff.mp taken
  have same : (if isJobToTerminal v.context.status then ongoingTasks v.tasks else v.tasks) = drained v := rfl
  rw [same] at taken
  split at taken
  case isTrue nothing =>
    cases taken
    rw [List.isEmpty_iff.mp nothing]
    exact .empty i l v here found (List.isEmpty_iff.mp nothing)
  case isFalse something =>
    cases taken
    exact .filled i l v here found (by simpa using something)

theorem clear_rolls {i l : Nat} (here : m.rollout = .clear i l) (taken : m.rolloutNext now reply = some m') :
    Rolls now reply m m' := by
  simp only [rolloutNext, here, bind] at taken
  obtain ⟨v, found, taken⟩ := Option.bind_eq_some_iff.mp taken
  split at taken
  case isTrue going =>
    cases taken
    exact .kept i l v here found going
  case isFalse ended =>
    cases taken
    exact .cleared i l v here found ended

theorem outOfTime_rolls {i l : Nat} (here : m.rollout = .outOfTime i l)
    (taken : m.rolloutNext now reply = some m') : Rolls now reply m m' := by
  simp only [rolloutNext, here, bind] at taken
  obtain ⟨v, found, taken⟩ := Option.bind_eq_some_iff.mp taken
  split at taken
  case isTrue early =>
    cases taken
    exact .early i l v here found early
  case isFalse after =>
    have late : isJobScheduleBeforeStartTime now v.context = false := Bool.eq_false_iff.mpr after
    obtain ⟨config, scheduled, taken⟩ := Option.bind_eq_some_iff.mp taken
    cases behavior : config.endBehavior with
    | stopRollout =>
      rw [behavior] at taken
      cases taken
      exact .stopped i l v config here found late scheduled behavior
    | cancel | forceCancel =>
      -- both behaviors cancel; the force only shows in what is written
      have step : Rolls now reply m _ := .ended i l v config here found late scheduled (by simp [behavior])
      rw [behavior] at taken
      dsimp only at taken
      split at taken
      case isTrue system =>
        cases taken
        rwa [if_pos system] at step
      case isFalse custom =>
        cases taken
        rwa [if_neg custom] at step

theorem endJob_rolls {i l : Nat} {ok : Bool} (here : m.rollout = .endJob i l ok)
    (taken : m.rolloutNext now reply = some m') : Rolls now reply m m' := by
  simp only [rolloutNext, here, bind] at taken
  obtain ⟨v, found, taken⟩ := Option.bind_eq_some_iff.mp taken
  cases ok with
  | false =>
    cases taken
    exact .endFailed i l false here (by simp)
  | true =>
    cases reply with
    | done =>
      simp only [Bool.and_self, Bool.not_true, Bool.false_eq_true, if_false] at taken
      split at taken
      case isTrue force =>
        cases taken
        exact .endForced i l v here found rfl force
      case isFalse mild =>
        cases taken
        exact .endKept i l v here found rfl (Bool.eq_false_iff.mpr mild)
    | _ =>
      cases taken
      exact .endFailed i l true here (by simp)

theorem reload_rolls {i l : Nat} (here : m.rollout = .reload i l) (taken : m.rolloutNext now reply = some m') :
    Rolls now reply m m' := by
  simp only [rolloutNext, here, bind] at taken
  obtain ⟨v, found, taken⟩ := Option.bind_eq_some_iff.mp taken
  split at taken
  · cases taken
    exact .reloaded i l v _ here found rfl
  · rename_i failed
    cases taken
    exact .reloadFailed i l here failed

theorem timeout_rolls {i l : Nat} {tasks remain : List Task} (here : m.rollout = .timeout i l tasks remain)
    (taken : m.rolloutNext now reply = some m') : Rolls now reply m m' := by
  simp only [rolloutNext, here, bind] at taken
  obtain ⟨v, found, taken⟩ := Option.bind_eq_some_iff.mp taken
  cases limit : timeoutMinutes v.context with
  | none =>
    rw [limit] at taken
    cases taken
    exact .unlimited i l tasks remain v here found limit
  | some minutes =>
    rw [limit] at taken
    cases tasks with
    | cons t rest =>
      dsimp only at taken
      split at taken
      case isTrue late =>
        cases taken
        exact .timedOut i l t rest remain v minutes here found limit late
      case isFalse early =>
        cases taken
        exact .remains i l t rest remain v minutes here found limit (Bool.eq_false_iff.mpr early)
    | nil =>
      have step : Rolls now reply m _ := .checked i l remain v minutes here found limit
      dsimp only at taken
      split at taken
      case isTrue nothing =>
        cases taken
        rwa [if_pos (List.isEmpty_iff.mp nothing)] at step
      case isFalse something =>
        cases taken
        rwa [if_neg (by simpa using something)] at step

theorem publish_rolls {i l : Nat} (here : m.rollout = .publish i l) (taken : m.rolloutNext now reply = some m') :
    Rolls now reply m m' := by
  simp only [rolloutNext, here, bind] at taken
  obtain ⟨v, found, taken⟩ := Option.bind_eq_some_iff.mp taken
  have step : Rolls now reply m _ := .published i l v here found
  split at taken
  case isTrue system =>
    cases taken
    rwa [if_pos system] at step
  case isFalse custom =>
    cases taken
    rwa [if_neg custom] at step

theorem rolled_rolls {i l count : Nat} (here : m.rollout = .rolled i l count)
    (taken : m.rolloutNext now reply = some m') : Rolls now reply m m' := by
  simp only [rolloutNext, here, bind] at taken
  obtain ⟨v, found, taken⟩ := Option.bind_eq_some_iff.mp taken
  split at taken
  case isTrue nothing =>
    cases taken
    have step : Rolls now reply m _ := .rolledOut i l count v here found (List.isEmpty_iff.mp nothing)
    simpa [goto, delItem, setItem, eraseIdx_set_self] using step
  case isFalse left =>
    cases taken
    exact .rolled i l count v here found (by simpa using left)

theorem rolls_of_rolloutNext (taken : m.rolloutNext now reply = some m') : Rolls now reply m m' := by
  cases here : m.rollout with
  | loadJobs => exact loadJobs_rolls here taken
  | loadTasks jobs => exact loadTasks_rolls here taken
  | preload todo => exact preload_rolls here taken
  | schedule i l => exact schedule_rolls here taken
  | drain i l => exact drain_rolls here taken
  | clear i l => exact clear_rolls here taken
  | outOfTime i l => exact outOfTime_rolls here taken
  | endJob i l ok => exact endJob_rolls here taken
  | reload i l => exact reload_rolls here taken
  | timeout i l tasks remain => exact timeout_rolls here taken
  | publish i l => exact publish_rolls here taken
  | rolled i l count => exact rolled_rolls here taken
  | finish i l =>
    unfold rolloutNext at taken
    rw [here] at taken
    cases taken
    exact .finished i l here
  | endTasks i l =>
    unfold rolloutNext at taken
    rw [here] at taken
    cases taken
    exact .tasksEnded i l here
  | select | endSend i l | put i l tasks =>
    -- here the loop waits for a message
    unfold rolloutNext at taken
    rw [here] at taken
    cases taken

end

/-- One step of the loop that checks which jobs are finished. -/
inductive Watches (reply : Reply) (m : Memory) : Memory → Prop
  | done (here : m.watch = .count []) : Watches reply m { m with watch := .select }
  | terminal (jobId : String) (todo : List String) (found : List TaskStatus)
      (here : m.watch = .count (jobId :: todo)) (replied : reply = .statuses found)
      (all : found.all isTaskTerminal = true) : Watches reply m { m with watch := .getJob jobId todo }
  | skipped (jobId : String) (todo : List String) (here : m.watch = .count (jobId :: todo)) :
      Watches reply m { m with watch := .count todo }
  | told (jobId : String) (todo : List String) (j : JobEntity) (here : m.watch = .getJob jobId todo)
      (replied : reply = .job (some j)) : Watches reply m { m with watch := .finish jobId j.status todo }
  | missing (jobId : String) (todo : List String) (here : m.watch = .getJob jobId todo)
      (replied : reply = .job none) : Watches reply m { m with watch := .forget jobId todo }
  | unanswered (jobId : String) (todo : List String) (here : m.watch = .getJob jobId todo) :
      Watches reply m { m with watch := .count todo }
  | finished (jobId : String) (status : Status) (todo : List String)
      (here : m.watch = .finish jobId status todo) :
      Watches reply m { m with watch := .forget jobId todo }
  | forgets (jobId : String) (todo : List String) (here : m.watch = .forget jobId todo) :
      Watches reply m { m.removeJobContext jobId with watch := .sendRemove jobId todo }

theorem watches_of_watchNext {reply : Reply} {m m' : Memory} (taken : m.watchNext reply = some m') :
    Watches reply m m' := by
  cases here : m.watch with
  | select | sendRemove jobId todo =>
    rw [watchNext, here] at taken
    cases taken
  | count todo =>
    cases todo with
    | nil =>
      rw [watchNext, here] at taken
      cases taken
      exact .done here
    | cons jobId todo =>
      simp only [watchNext, here] at taken
      split at taken
      · split at taken
        case isTrue all =>
          cases taken
          exact .terminal jobId todo _ here rfl all
        case isFalse =>
          cases taken
          exact .skipped jobId todo here
      · cases taken
        exact .skipped jobId todo here
  | getJob jobId todo =>
    simp only [watchNext, here] at taken
    split at taken
    · cases taken
      exact .told jobId todo _ here rfl
    · cases taken
      exact .missing jobId todo here rfl
    · cases taken
      exact .unanswered jobId todo here
  | finish jobId status todo =>
    rw [watchNext, here] at taken
    cases taken
    exact .finished jobId status todo here
  | forget jobId todo =>
    rw [watchNext, here] at taken
    cases taken
    exact .forgets jobId todo here

/-- One turn of the loop of the runner over its queue. -/
inductive Operates (online : Option Bool) (accepted : Bool) (m : Memory) : Memory → Prop
  | rests (c : Nat) (here : m.sysOp = .pop c) : Operates online accepted m { m with sysOp := .select }
  | drops (c : Nat) (t : Task) (rest : TaskQueue) (here : m.sysOp = .pop c)
      (popped : TaskQueue.pop m.curQ = some (t, rest))
      (barred : ∀ context, Assoc.get t.jobId m.contexts = some context → isJobToTerminal context.status = true) :
      Operates online accepted m { m with curQ := rest, sysOp := .pop (c + 1) }
  | takes (c : Nat) (t : Task) (rest : TaskQueue) (context : JobContext) (here : m.sysOp = .pop c)
      (popped : TaskQueue.pop m.curQ = some (t, rest)) (held : Assoc.get t.jobId m.contexts = some context)
      (going : isJobToTerminal context.status = false) :
      Operates online accepted m { m with curQ := rest, sysOp := .submit (c + 1) t }
  | parks (c : Nat) (t : Task) (here : m.sysOp = .submit c t) (offline : online = some false) :
      Operates online accepted m { m with
        offlineThingTasks := Assoc.set t.thingId
          ((Assoc.get t.thingId m.offlineThingTasks).getD [] ++ [t]) m.offlineThingTasks
        sysOp := .pop c }
  | returns (c : Nat) (t : Task) (here : m.sysOp = .submit c t) (system : isSysOp t.operation = true)
      (full : accepted = false) :
      Operates online accepted m { m with curQ := TaskQueue.push t m.curQ, sysOp := .select }
  | submits (c : Nat) (t : Task) (here : m.sysOp = .submit c t) :
      Operates online accepted m { m with
        workers := if isSysOp t.operation then m.workers ++ [⟨t, .running⟩] else m.workers
        sysOp := if t.status = .queued then .sendSent c t else .pop c }

section

variable {online : Option Bool} {accepted : Bool} {m m' : Memory}

theorem pop_operates {c : Nat} (here : m.sysOp = .pop c) (taken : m.sysOpNext online accepted = some m') :
    Operates online accepted m m' := by
  simp only [sysOpNext, here] at taken
  split at taken
  case isTrue room =>
    split at taken
    · cases taken
      exact .rests c here
    · rename_i t rest popped
      cases held : Assoc.get t.jobId m.contexts with
      | none =>
        rw [held] at taken
        cases taken
        exact .drops c t rest here popped (by simp [held])
      | some context =>
        rw [held] at taken
        dsimp only at taken
        split at taken
        case isTrue barred =>
          cases taken
          exact .drops c t rest here popped (by simpa [held] using barred)
        case isFalse going =>
          cases taken
          exact .takes c t rest context here popped held (Bool.eq_false_iff.mpr going)
  case isFalse =>
    cases taken
    exact .rests c here

theorem submit_operates {c : Nat} {t : Task} (here : m.sysOp = .submit c t)
    (taken : m.sysOpNext online accepted = some m') : Operates online accepted m m' := by
  simp only [sysOpNext, here] at taken
  split at taken
  case isTrue parked =>
    cases taken
    exact .parks c t here (by simpa using (Bool.and_eq_true_iff.mp parked).2)
  case isFalse =>
    split at taken
    case isTrue refused =>
      obtain ⟨system, full⟩ := Bool.and_eq_true_iff.mp refused
      cases taken
      exact .returns c t here system (by simpa using full)
    case isFalse =>
      have step : Operates online accepted m _ := .submits c t here
      split at taken
      case isTrue queued =>
        cases taken
        rwa [if_pos queued] at step
      case isFalse sent =>
        cases taken
        rwa [if_neg sent] at step

theorem operates_of_sysOpNext (taken : m.sysOpNext online accepted = some m') : Operates online accepted m m' := by
  cases here : m.sysOp with
  | pop c => exact pop_operates here taken
  | submit c t => exact submit_operates here taken
  | select | sendSent c t =>
    rw [sysOpNext, here] at taken
    cases taken

end

/-- One step of what a call submitted to the pool. -/
inductive Runs (reply : Reply) : Closure → Closure → Prop
  | created (context : JobContext) (things : List String) (ids : List Int) (replied : reply = .taskIds ids) :
      Runs reply (.submitted (.createJob context things)) (.readTasks context ids)
  | unstored (context : JobContext) (things : List String) :
      Runs reply (.submitted (.createJob context things)) .finished
  | loaded (context : JobContext) (taskIds : List Int) (rows : List (Int × TaskEntity))
      (replied : reply = .tasks rows) :
      Runs reply (.readTasks context taskIds) (.addPendingJob ⟨context, toTasks rows, []⟩)
  | unread (context : JobContext) (taskIds : List Int) : Runs reply (.readTasks context taskIds) .finished
  | ignored (operation : String) (msg : DeleteTaskMsg) (custom : isSysOp operation = false) :
      Runs reply (.submitted (.delete operation msg)) .finished

theorem runs_of_closureNext {reply : Reply} {closure next : Closure} (continues : closureNext reply closure = some next) :
    Runs reply closure next := by
  cases closure with
  | submitted work =>
    cases work with
    | createJob context things =>
      simp only [closureNext] at continues
      split at continues
      · cases continues
        exact .created context things _ rfl
      · cases continues
        exact .unstored context things
    | delete operation msg =>
      simp only [closureNext] at continues
      split at continues
      case isTrue => cases continues
      case isFalse custom =>
        cases continues
        exact .ignored operation msg (Bool.eq_false_iff.mpr custom)
  | readTasks context taskIds =>
    simp only [closureNext] at continues
    split at continues
    · cases continues
      exact .loaded context taskIds _ rfl
    · cases continues
      exact .unread context taskIds
  | addPendingJob item | deleted msg | finished => cases continues

end Memory

/-- The context that a call takes out of the map. -/
def Call.drops : Call → Option String
  | ⟨.cancelJob jobId true, .dropContext _⟩ => some jobId
  | ⟨.deleteJob jobId _, .dropContext _⟩ => some jobId
  | _ => none

/-- What a call submits to the pool. -/
def CallPc.submits : CallPc → List Closure
  | .submit work => [.submitted work]
  | _ => []

/-- One step of a call. -/
inductive Serves (reply : Reply) : Call → CallPc → Prop
  | created (jobId operation : String) (things : List String) (scheduling : Option SchedulingConfig)
      (rollout : Option RolloutConfig) (timeout : Option TimeoutConfig) (replied : reply = .done) :
      Serves reply ⟨.createJob jobId operation things scheduling rollout timeout, .start⟩ .readBack
  | readBack (jobId operation : String) (things : List String) (scheduling : Option SchedulingConfig)
      (rollout : Option RolloutConfig) (timeout : Option TimeoutConfig) (j : JobEntity)
      (replied : reply = .job (some j)) :
      Serves reply ⟨.createJob jobId operation things scheduling rollout timeout, .readBack⟩
        (.submit (.createJob (toContext jobId j) j.things))
  | asked (jobId : String) (fields : UpdateFields) (j : JobEntity) (replied : reply = .job (some j))
      (going : (isJobToTerminal j.status && fields.sends) = false) :
      Serves reply ⟨.updateJob jobId fields, .start⟩ .write
  | written (jobId : String) (timeout : Option TimeoutConfig) (replied : reply = .done) :
      Serves reply ⟨.updateJob jobId (.configs timeout), .write⟩ .sendUpdate
  | described (jobId : String) (replied : reply = .done) :
      Serves reply ⟨.updateJob jobId .description, .write⟩ (.returned true)
  | canceling (jobId : String) (force : Bool) (j : JobEntity) (replied : reply = .job (some j)) :
      Serves reply ⟨.cancelJob jobId force, .start⟩ (.dropContext j.operation)
  | deleted (jobId : String) (force : Bool) (row : Option JobEntity) (replied : reply = .job row) :
      Serves reply ⟨.deleteJob jobId force, .start⟩
        (.dropContext ((row.map JobEntity.operation).getD ""))
  | dropped (r : Request) (operation jobId : String) (force : Bool)
      (removal : r.removal = some (jobId, force)) :
      Serves reply ⟨r, .dropContext operation⟩ (.sendRemove operation)
  | taskCanceled (thingId jobId : String) (version : Int) (force : Bool) (row : Int × TaskEntity)
      (replied : reply = .task row) :
      Serves reply ⟨.cancelTask thingId jobId version force, .start⟩
        (.submit (.delete row.2.operation (.task row.1)))
  | taskDeleted (thingId jobId : String) (taskId : Int) (force : Bool) (row : Int × TaskEntity)
      (replied : reply = .task row) :
      Serves reply ⟨.deleteTask thingId jobId taskId force, .start⟩
        (.submit (.delete row.2.operation (.task row.1)))
  | submittedCancel (jobId : String) (force : Bool) (work : Submission) :
      Serves reply ⟨.cancelJob jobId force, .submit work⟩ .writeCanceled
  | submitted (r : Request) (work : Submission) : Serves reply ⟨r, .submit work⟩ (.returned true)
  | canceled (jobId : String) (force : Bool) :
      Serves reply ⟨.cancelJob jobId force, .writeCanceled⟩ (.returned true)
  | refused (call : Call) (waits : ∀ work, call.pc ≠ .submit work) : Serves reply call (.returned false)

section

variable {now : Int} {m m' : Memory} {reply : Reply} {a : Action}

theorem serves_of_serveNext {call : Call} {pc : CallPc} (continues : Memory.serveNext reply call = some pc) :
    Serves reply call pc := by
  obtain ⟨request, stop⟩ := call
  cases stop with
  | returned ok => cases request <;> cases continues
  | sendUpdate => cases request <;> cases continues
  | sendRemove operation => cases request <;> cases continues
  | dropContext operation =>
    cases request with
    | cancelJob jobId force | deleteJob jobId force =>
      cases continues
      exact .dropped _ operation jobId force rfl
    | _ => cases continues
  | submit work =>
    cases request with
    | cancelJob jobId force =>
      cases continues
      exact .submittedCancel jobId force work
    | _ =>
      cases continues
      exact .submitted _ work
  | writeCanceled =>
    cases request with
    | cancelJob jobId force =>
      cases continues
      exact .canceled jobId force
    | _ => cases continues
  | start =>
    have refused := @Serves.refused reply ⟨request, .start⟩ (by simp)
    cases request with
    | createJob => cases reply <;> cases continues <;> first | exact refused | exact .created _ _ _ _ _ _ rfl
    | updateJob jobId fields =>
      cases reply with
      | job row =>
        cases row with
        | none =>
          cases continues
          exact refused
        | some j =>
          simp only [Memory.serveNext] at continues
          split at continues
          · cases continues
            exact refused
          · rename_i going
            cases continues
            exact .asked jobId fields j rfl (by simpa using going)
      | _ =>
        cases continues
        exact refused
    | cancelJob jobId force =>
      cases reply with
      | job row => cases row <;> cases continues <;> first | exact refused | exact .canceling _ _ _ rfl
      | _ =>
        cases continues
        exact refused
    | deleteJob => cases reply <;> cases continues <;> first | exact refused | exact .deleted _ _ _ rfl
    | cancelTask => cases reply <;> cases continues <;> first | exact refused | exact .taskCanceled _ _ _ _ _ rfl
    | deleteTask => cases reply <;> cases continues <;> first | exact refused | exact .taskDeleted _ _ _ _ _ rfl
  | readBack =>
    have refused := @Serves.refused reply ⟨request, .readBack⟩ (by simp)
    cases request with
    | createJob jobId operation things scheduling rollout timeout =>
      cases reply with
      | job row => cases row <;> cases continues <;> first | exact refused | exact .readBack _ _ _ _ _ _ _ rfl
      | _ =>
        cases continues
        exact refused
    | _ => cases continues
  | write =>
    have refused := @Serves.refused reply ⟨request, .write⟩ (by simp)
    cases request with
    | updateJob jobId fields =>
      cases fields <;> cases reply <;> cases continues <;>
        first | exact refused | exact .written _ _ rfl | exact .described _ rfl
    | _ => cases continues

/-- What a call does to the memory. -/
theorem resume_serve {k : Nat} {ok : Bool} (taken : resume now m reply (.serve k ok) = some m') :
    ∃ call pc, m.calls[k]? = some call ∧ Serves reply call pc ∧
      m' = { m with
        contexts := match call.drops with
          | some jobId => Assoc.erase jobId m.contexts
          | none => m.contexts
        calls := m.calls.set k ⟨call.request, pc⟩
        closures := m.closures ++ call.pc.submits } := by
  simp only [resume, Memory.serve, bind, Option.bind_eq_some_iff] at taken
  obtain ⟨⟨request, stop⟩, found, pc, continues, taken⟩ := taken
  refine ⟨⟨request, stop⟩, pc, found, serves_of_serveNext continues, ?_⟩
  cases stop with
  | dropContext operation =>
    cases request with
    | cancelJob jobId force =>
      cases force <;> cases taken <;>
        simp [Call.drops, CallPc.submits, Memory.removeJobContext, Memory.setCall]
    | _ => cases taken; simp [Call.drops, CallPc.submits, Memory.removeJobContext, Memory.setCall]
  | submit work =>
    cases request <;> cases taken <;> simp [Call.drops, CallPc.submits, Memory.setCall]
  | _ => cases request <;> cases taken <;> simp [Call.drops, CallPc.submits, Memory.setCall]

/-- The rollout loop receives a removal. -/
theorem receiveRemove_cases {other : String} {force : Bool} {received : Memory}
    (taken : m.receiveRemove other force = some received) :
    ∃ rest forget, removePendingJob other force m.pendingJobs = some (rest, forget) ∧
      received = { m with
        pendingJobs := rest
        contexts := if forget then Assoc.erase other m.contexts else m.contexts } := by
  simp only [Memory.receiveRemove, bind, Option.bind_eq_some_iff] at taken
  obtain ⟨⟨rest, forget⟩, removed, taken⟩ := taken
  refine ⟨rest, forget, removed, ?_⟩
  cases forget <;> cases taken <;> rfl

/-- The first item of the job gets another timeout, and its context is set. -/
theorem updateContext_cases (other : String) (timeout : Option TimeoutConfig) (m : Memory) :
    m.updateContext other timeout = m ∨ ∃ i v timeout', m.pendingJobs[i]? = some v ∧
      v.context.jobId = other ∧ m.updateContext other timeout = { m with
        pendingJobs := m.pendingJobs.set i (v.withTimeout timeout')
        contexts := Assoc.set other (v.withTimeout timeout').context m.contexts } := by
  rw [Memory.updateContext]
  split
  · rename_i i first
    split
    · rename_i v found
      have named : v.context.jobId = other := by
        obtain ⟨inside, here, -⟩ := List.findIdx?_eq_some_iff_getElem.mp first
        rw [List.getElem?_eq_getElem inside, Option.some.injEq] at found
        simpa [found] using here
      refine .inr ⟨i, v, timeout.or v.context.timeout, found, named, ?_⟩
      simp [Memory.setItem, Memory.setJobContext, PendingJobItem.withTimeout, named]
    · exact .inl rfl
  · exact .inl rfl

end

end Tio.Job
