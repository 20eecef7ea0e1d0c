import Tio.Job.Tokens

namespace Tio.Job

open Tio.Core

/-- An item of the pending list after a step. -/
inductive ItemFrom (now : Int) (m : Memory) (reply : Reply) : Action → PendingJobItem → Prop
  | kept (a : Action) (v v' : PendingJobItem) (member : v ∈ m.pendingJobs)
      (same : v'.context = v.context) (fewer : ∀ t ∈ v'.tasks, t ∈ v.tasks) : ItemFrom now m reply a v'
  | checked (ok : Bool) (i l : Nat) (remain : List Task) (v : PendingJobItem)
      (here : m.rollout = .timeout i l [] remain) (found : m.pendingJobs[i]? = some v) :
      ItemFrom now m reply (.rollout ok) (v.withTasks remain)
  | starts (ok : Bool) (i l : Nat) (v : PendingJobItem) (here : m.rollout = .schedule i l)
      (found : m.pendingJobs[i]? = some v) (inTime : isJobScheduleInTime now v.context = true)
      (waits : v.context.status = .waiting) :
      ItemFrom now m reply (.rollout ok) (v.withStatus .inProgress)
  | ended (ok : Bool) (i l : Nat) (v : PendingJobItem) (config : SchedulingConfig)
      (here : m.rollout = .outOfTime i l) (found : m.pendingJobs[i]? = some v)
      (late : isJobScheduleBeforeStartTime now v.context = false)
      (scheduled : v.context.scheduling = some config) (cancels : config.endBehavior ≠ .stopRollout) :
      ItemFrom now m reply (.rollout ok) (v.withStatus .canceled)
  | reloaded (ok : Bool) (i l : Nat) (v : PendingJobItem) (rows : List (Int × TaskEntity))
      (here : m.rollout = .reload i l) (found : m.pendingJobs[i]? = some v)
      (replied : reply = .tasks rows) :
      ItemFrom now m reply (.rollout ok) (v.withTasks (toTasks rows))
  | updated (k : Nat) (v : PendingJobItem) (timeout : Option TimeoutConfig) (member : v ∈ m.pendingJobs) :
      ItemFrom now m reply (.recvUpdate k) (v.withTimeout timeout)
  | received (i : Nat) (item : PendingJobItem) (here : m.closures[i]? = some (.addPendingJob item)) :
      ItemFrom now m reply (.recvPending i) item
  | preloaded (ok : Bool) (jobId : String) (j : JobEntity) (tasks : List Task)
      (rest : List (String × JobEntity × List Task))
      (here : m.rollout = .preload ((jobId, j, tasks) :: rest)) (filled : tasks ≠ []) :
      ItemFrom now m reply (.rollout ok) ⟨toContext jobId j, tasks, []⟩

/-- The entry of a job in the context map after a step. -/
inductive ContextAfter (m m' : Memory) (jobId : String) : Action → Prop
  | kept (a : Action) (same : Assoc.get jobId m'.contexts = Assoc.get jobId m.contexts) :
      ContextAfter m m' jobId a
  | published (ok : Bool) (i l : Nat) (v : PendingJobItem) (here : m.rollout = .publish i l)
      (found : m.pendingJobs[i]? = some v) (named : v.context.jobId = jobId)
      (set : Assoc.get jobId m'.contexts = some v.context) : ContextAfter m m' jobId (.rollout ok)
  | updated (k : Nat) (v : PendingJobItem) (timeout : Option TimeoutConfig) (member : v ∈ m.pendingJobs)
      (named : v.context.jobId = jobId)
      (set : Assoc.get jobId m'.contexts = some (v.withTimeout timeout).context) :
      ContextAfter m m' jobId (.recvUpdate k)
  | cleared (ok : Bool) (i l : Nat) (v : PendingJobItem) (here : m.rollout = .clear i l)
      (found : m.pendingJobs[i]? = some v) (named : v.context.jobId = jobId)
      (ended : v.context.status ≠ .inProgress) (gone : Assoc.get jobId m'.contexts = none) :
      ContextAfter m m' jobId (.rollout ok)
  | removed (k : Nat) (r : Request) (operation : String) (force : Bool)
      (here : m.calls[k]? = some ⟨r, .sendRemove operation⟩) (removal : r.removal = some (jobId, force))
      (gone : Assoc.get jobId m'.contexts = none) : ContextAfter m m' jobId (.recvRemove k)
  | finished (todo : List String) (here : m.watch = .sendRemove jobId todo)
      (gone : Assoc.get jobId m'.contexts = none) : ContextAfter m m' jobId .recvFinished
  | forgotten (ok : Bool) (todo : List String) (here : m.watch = .forget jobId todo)
      (gone : Assoc.get jobId m'.contexts = none) : ContextAfter m m' jobId (.watch ok)
  | dropped (k : Nat) (ok : Bool) (call : Call) (found : m.calls[k]? = some call)
      (drops : call.drops = some jobId) (gone : Assoc.get jobId m'.contexts = none) :
      ContextAfter m m' jobId (.serve k ok)

section

variable {now : Int} {m m' : Memory} {reply : Reply} {a : Action} {jobId : String}

theorem ItemFrom.refl {v : PendingJobItem} (member : v ∈ m.pendingJobs) : ItemFrom now m reply a v :=
  .kept a v v member rfl fun _ => id

/-- An item that replaces another one. -/
theorem itemFrom_set {i : Nat} {v' u : PendingJobItem} (member : u ∈ m.pendingJobs.set i v')
    (replaces : ItemFrom now m reply a v') : ItemFrom now m reply a u := by
  rcases List.mem_or_eq_of_mem_set member with old | rfl
  · exact .refl old
  · exact replaces

open Memory in
theorem itemFrom_rolls {ok : Bool} (rolls : Rolls now reply m m') {u : PendingJobItem}
    (member : u ∈ m'.pendingJobs) : ItemFrom now m reply (.rollout ok) u := by
  have kept : ∀ {i : Nat} {v v' : PendingJobItem}, m.pendingJobs[i]? = some v → v'.context = v.context →
      (∀ t ∈ v'.tasks, t ∈ v.tasks) → ItemFrom now m reply (.rollout ok) v' :=
    fun found same fewer => .kept _ _ _ (List.mem_of_getElem? found) same fewer
  cases rolls with
  | preloaded id j tasks rest here filled =>
    rcases List.mem_append.mp member with old | fresh
    · exact .refl old
    · cases List.mem_singleton.mp fresh
      exact .preloaded ok id j tasks rest here filled
  | starts i l v here inside found inTime waits =>
    exact itemFrom_set member (.starts ok i l v here found inTime waits)
  | empty i l v here found => exact itemFrom_set member (kept found rfl (by simp [PendingJobItem.withTasks]))
  | filled i l v here found =>
    refine itemFrom_set member (kept found rfl fun t within => ?_)
    have within : t ∈ drained v := within
    rw [drained] at within
    split at within
    · exact mem_ongoingTasks within
    · exact within
  | stopped i l v config here found =>
    exact itemFrom_set member (kept found rfl fun t within => mem_ongoingTasks within)
  | ended i l v config here found late scheduled cancels =>
    exact itemFrom_set member (.ended ok i l v config here found late scheduled cancels)
  | reloaded i l v rows here found replied =>
    exact itemFrom_set member (.reloaded ok i l v rows here found replied)
  | checked i l remain v minutes here found =>
    exact itemFrom_set member (.checked ok i l remain v here found)
  | published i l v here found =>
    exact itemFrom_set member (kept found rfl fun t within => List.mem_of_mem_drop within)
  | rolled i l count v here found => exact itemFrom_set member (kept found rfl fun t within => within)
  | kept i l v here found | cleared i l v here found | rolledOut i l count v here found =>
    exact .refl (List.mem_of_mem_eraseIdx member)
  | _ => exact .refl member

theorem resume_items (taken : resume now m reply a = some m') {u : PendingJobItem}
    (member : u ∈ m'.pendingJobs) : ItemFrom now m reply a u := by
  have frame := resume_frame taken
  have swept : ∀ {other : String} {force : Bool} {received : Memory},
      m.receiveRemove other force = some received → u ∈ received.pendingJobs →
      ItemFrom now m reply a u := by
    intro other force received taken within
    obtain ⟨rest, forget, removed, rfl⟩ := receiveRemove_cases taken
    obtain ⟨old, present, same, fewer⟩ := mem_removePendingJob removed within
    exact .kept _ old u present same fewer
  cases a with
  | rollout ok => exact itemFrom_rolls (Memory.rolls_of_rolloutNext taken) member
  | recvPending i =>
    obtain ⟨item, idle, sender, rfl⟩ := resume_recvPending taken
    rcases List.mem_append.mp member with old | fresh
    · exact .refl old
    · cases List.mem_singleton.mp fresh
      exact .received i _ sender
  | recvUpdate k =>
    obtain ⟨other, timeout, idle, sender, rfl⟩ := resume_recvUpdate taken
    rcases updateContext_cases other timeout m with same | ⟨i, v, timeout', found, named, same⟩
    · simp only [Memory.startPass, Memory.goto, Memory.setCall, same] at member
      exact .refl member
    · simp only [Memory.startPass, Memory.goto, Memory.setCall, same] at member
      exact itemFrom_set member (.updated k v timeout' (List.mem_of_getElem? found))
  | recvRemove i =>
    obtain ⟨r, operation, other, force, received, idle, sender, removal, removed, rfl⟩ :=
      resume_recvRemove taken
    exact swept removed member
  | recvFinished =>
    obtain ⟨other, todo, received, idle, sender, removed, rfl⟩ := resume_recvFinished taken
    exact swept removed member
  | _ => exact .refl (frame.pendingJobs rfl ▸ member)

open Memory in
theorem contextAfter_rolls {ok : Bool} (rolls : Rolls now reply m m') :
    ContextAfter m m' jobId (.rollout ok) := by
  cases rolls with
  | cleared i l v here found ended =>
    by_cases named : v.context.jobId = jobId
    · exact .cleared ok i l v here found named ended (by simp [goto, delItem, removeJobContext, named])
    · exact .kept _ (by simp [goto, delItem, removeJobContext, Assoc.get_erase, named])
  | published i l v here found =>
    by_cases named : v.context.jobId = jobId
    · exact .published ok i l v here found named (by simp [goto, setItem, setJobContext, named])
    · exact .kept _ (by simp [goto, setItem, setJobContext, Assoc.get_set, named])
  | _ => exact .kept _ rfl

theorem sysOpNext_contexts {online : Option Bool} {accepted : Bool}
    (taken : m.sysOpNext online accepted = some m') : m'.contexts = m.contexts := by
  cases Memory.operates_of_sysOpNext taken <;> rfl

theorem connected_contexts (thingId : String) (m : Memory) : (m.connected thingId).contexts = m.contexts := by
  rw [Memory.connected]
  split <;> rfl

theorem deleteTask_contexts (msg : DeleteTaskMsg) (m : Memory) : (m.deleteTask msg).contexts = m.contexts := by
  rw [Memory.deleteTask]
  split
  · rfl
  · split <;> rfl

theorem resume_contexts (jobId : String) (taken : resume now m reply a = some m') :
    ContextAfter m m' jobId a := by
  have swept : ∀ {other : String} {force : Bool} {received : Memory},
      m.receiveRemove other force = some received →
      Assoc.get jobId received.contexts = Assoc.get jobId m.contexts ∨
        other = jobId ∧ Assoc.get jobId received.contexts = none := by
    intro other force received taken
    obtain ⟨rest, forget, -, rfl⟩ := receiveRemove_cases taken
    cases forget with
    | false => exact .inl rfl
    | true =>
      by_cases named : other = jobId
      · exact .inr ⟨named, by simp [named]⟩
      · exact .inl (by simp [Assoc.get_erase, named])
  cases a with
  | rollout ok => exact contextAfter_rolls (Memory.rolls_of_rolloutNext taken)
  | recvUpdate k =>
    obtain ⟨other, timeout, idle, sender, rfl⟩ := resume_recvUpdate taken
    rcases updateContext_cases other timeout m with same | ⟨i, v, timeout', found, named, same⟩
    · exact .kept _ (by simp [Memory.startPass, Memory.goto, Memory.setCall, same])
    · by_cases here : other = jobId
      · subst here
        refine .updated k v timeout' (List.mem_of_getElem? found) named ?_
        simp [Memory.startPass, Memory.goto, Memory.setCall, same]
      · exact .kept _ (by simp [Memory.startPass, Memory.goto, Memory.setCall, same, Assoc.get_set, here])
  | recvRemove k =>
    obtain ⟨r, operation, other, force, received, idle, sender, removal, removed, rfl⟩ :=
      resume_recvRemove taken
    rcases swept removed with same | ⟨rfl, gone⟩
    · exact .kept _ same
    · exact .removed k r operation force sender removal gone
  | recvFinished =>
    obtain ⟨other, todo, received, idle, sender, removed, rfl⟩ := resume_recvFinished taken
    rcases swept removed with same | ⟨rfl, gone⟩
    · exact .kept _ same
    · exact .finished todo sender gone
  | watch ok =>
    cases Memory.watches_of_watchNext taken with
    | forgets other todo here =>
      by_cases named : other = jobId
      · subst named
        exact .forgotten ok todo here (by simp [Memory.removeJobContext])
      · exact .kept _ (by simp [Memory.removeJobContext, Assoc.get_erase, named])
    | _ => exact .kept _ rfl
  | serve k ok =>
    obtain ⟨call, pc, found, serves, rfl⟩ := resume_serve taken
    cases drops : call.drops with
    | none => exact .kept _ (by simp)
    | some other =>
      by_cases named : other = jobId
      · exact .dropped k ok call found (named ▸ drops) (by simp [named])
      · exact .kept _ (by simp [Assoc.get_erase, named])
  | sysOp online accepted => exact .kept _ (by rw [sysOpNext_contexts taken])
  | connect thingId up =>
    simp only [resume] at taken
    split at taken
    · cases taken
      cases up with
      | true => exact .kept _ (by simp [connected_contexts])
      | false => exact .kept _ rfl
    · cases taken
  | recvEndDelete =>
    obtain ⟨i, l, v, idle, sender, found, rfl⟩ := resume_recvEndDelete taken
    exact .kept _ (by simp [Memory.goto, deleteTask_contexts])
  | recvDelete i =>
    obtain ⟨operation, msg, idle, sender, system, rfl⟩ := resume_recvDelete taken
    exact .kept _ (by simp [Memory.setClosure, deleteTask_contexts])
  | recvPending i =>
    obtain ⟨item, idle, sender, rfl⟩ := resume_recvPending taken
    exact .kept _ rfl
  | recvPut =>
    obtain ⟨i, l, rolloutTasks, idle, sender, rfl⟩ := resume_recvPut taken
    exact .kept _ rfl
  | run i ok =>
    obtain ⟨closure, next, found, continues, rfl⟩ := resume_run taken
    exact .kept _ rfl
  | change ok =>
    simp only [resume, Memory.changeNext] at taken
    split at taken <;> cases taken
    exact .kept _ rfl
  | _ =>
    simp only [resume] at taken
    refine .kept _ ?_
    grind

end

end Tio.Job
