import Tio.Job.Frame

namespace Tio.Job

open Tio.Core

/-- Every task that the center holds for a job satisfies `good`. -/
structure Held (good : String → Task → Prop) (m : Memory) : Prop where
  pending : ∀ v ∈ m.pendingJobs, ∀ t ∈ v.tasks, good v.context.jobId t
  preload : ∀ jobs, m.rollout = .preload jobs → ∀ jobId j tasks, (jobId, j, tasks) ∈ jobs →
    ∀ t ∈ tasks, good jobId t
  timeout : ∀ i l tasks remain, m.rollout = .timeout i l tasks remain →
    ∀ v, m.pendingJobs[i]? = some v → ∀ t ∈ tasks ++ remain, good v.context.jobId t
  put : ∀ i l rolloutTasks, m.rollout = .put i l rolloutTasks →
    ∃ v, m.pendingJobs[i]? = some v ∧ ∀ t ∈ rolloutTasks, good v.context.jobId t
  closures : ∀ item, .addPendingJob item ∈ m.closures → ∀ t ∈ item.tasks, good item.context.jobId t

/-- A row of a reply that becomes a task of a job. -/
inductive Arrives (m : Memory) (reply : Reply) : Action → String → Int × TaskEntity → Prop
  | preload (ok : Bool) (jobs : List (String × JobEntity)) (rows : List (Int × TaskEntity))
      (row : Int × TaskEntity) (here : m.rollout = .loadTasks jobs) (replied : reply = .tasks rows)
      (member : row ∈ rows) : Arrives m reply (.rollout ok) row.2.jobId row
  | reload (ok : Bool) (i l : Nat) (v : PendingJobItem) (rows : List (Int × TaskEntity))
      (row : Int × TaskEntity) (here : m.rollout = .reload i l) (found : m.pendingJobs[i]? = some v)
      (replied : reply = .tasks rows) (member : row ∈ rows) :
      Arrives m reply (.rollout ok) v.context.jobId row
  | created (ok : Bool) (i : Nat) (context : JobContext) (taskIds : List Int)
      (rows : List (Int × TaskEntity)) (row : Int × TaskEntity)
      (here : m.closures[i]? = some (.readTasks context taskIds)) (replied : reply = .tasks rows)
      (member : row ∈ rows) : Arrives m reply (.run i ok) context.jobId row

section

variable {now : Int} {m m' : Memory} {reply : Reply} {a : Action} {good : String → Task → Prop}

/-- The loop holds no tasks besides those of the items. -/
def RolloutPc.quiet : RolloutPc → Bool
  | .preload _ | .timeout .. | .put .. => false
  | _ => true

theorem Held.of_quiet (held : Held good m)
    (pending : ∀ v ∈ m'.pendingJobs, ∀ t ∈ v.tasks, good v.context.jobId t)
    (closures : m'.closures = m.closures) (quiet : m'.rollout.quiet = true) : Held good m' := by
  refine ⟨pending, ?_, ?_, ?_, closures ▸ held.closures⟩
  · intro jobs here
    rw [here] at quiet
    cases quiet
  · intro i l tasks remain here
    rw [here] at quiet
    cases quiet
  · intro i l rolloutTasks here
    rw [here] at quiet
    cases quiet

theorem Held.of_timeout (held : Held good m)
    (pending : ∀ v ∈ m'.pendingJobs, ∀ t ∈ v.tasks, good v.context.jobId t)
    (closures : m'.closures = m.closures) {i l : Nat} {tasks remain : List Task}
    (here : m'.rollout = .timeout i l tasks remain) {v : PendingJobItem} (found : m'.pendingJobs[i]? = some v)
    (checked : ∀ t ∈ tasks ++ remain, good v.context.jobId t) : Held good m' := by
  refine ⟨pending, ?_, ?_, ?_, closures ▸ held.closures⟩
  · intro jobs other
    rw [here] at other
    cases other
  · intro i' l' tasks' remain' same v' found'
    rw [here] at same
    cases same
    rw [found] at found'
    cases found'
    exact checked
  · intro i' l' rolloutTasks other
    rw [here] at other
    cases other

theorem Held.of_preload (held : Held good m)
    (pending : ∀ v ∈ m'.pendingJobs, ∀ t ∈ v.tasks, good v.context.jobId t)
    (closures : m'.closures = m.closures) {jobs : List (String × JobEntity × List Task)}
    (here : m'.rollout = .preload jobs)
    (loaded : ∀ jobId j tasks, (jobId, j, tasks) ∈ jobs → ∀ t ∈ tasks, good jobId t) : Held good m' := by
  refine ⟨pending, ?_, ?_, ?_, closures ▸ held.closures⟩
  · intro jobs' same
    rw [here] at same
    cases same
    exact loaded
  · intro i l tasks remain other
    rw [here] at other
    cases other
  · intro i l rolloutTasks other
    rw [here] at other
    cases other

theorem Held.replaced (held : Held good m) {i : Nat} {v' : PendingJobItem}
    (fine : ∀ t ∈ v'.tasks, good v'.context.jobId t) :
    ∀ u ∈ m.pendingJobs.set i v', ∀ t ∈ u.tasks, good u.context.jobId t := by
  intro u member
  rcases List.mem_or_eq_of_mem_set member with old | rfl
  · exact held.pending u old
  · exact fine

theorem Held.found (held : Held good m) {i : Nat} {v : PendingJobItem}
    (found : m.pendingJobs[i]? = some v) : ∀ t ∈ v.tasks, good v.context.jobId t :=
  held.pending v (List.mem_of_getElem? found)

theorem getElem?_set_found {items : List PendingJobItem} {i : Nat} {v : PendingJobItem}
    (found : items[i]? = some v) (v' : PendingJobItem) : (items.set i v')[i]? = some v' :=
  List.getElem?_set_self (List.getElem?_eq_some_iff.mp found).1

theorem mem_drained {v : PendingJobItem} {t : Task} (member : t ∈ drained v) : t ∈ v.tasks := by
  rw [drained] at member
  split at member
  · exact mem_ongoingTasks member
  · exact member

open Memory in
/-- The schedule loop only thins out and hands on what it holds, but for the three
stops where rows arrive. -/
theorem held_rollout {ok : Bool} (held : Held good m) (taken : m.rolloutNext now reply = some m')
    (arrives : ∀ jobId row, Arrives m reply (.rollout ok) jobId row → good jobId (toTask row)) :
    Held good m' := by
  have same := held.pending
  cases rolls_of_rolloutNext taken with
  | tasksLoaded jobs rows here replied =>
    refine held.of_preload same rfl rfl fun jobId j tasks member t within => ?_
    obtain ⟨⟨id, k⟩, listed, made⟩ := List.mem_map.mp member
    cases made
    obtain ⟨row, selected, rfl⟩ := List.mem_map.mp within
    obtain ⟨stored, named⟩ := List.mem_filter.mp selected
    have arrived := arrives _ row (.preload ok jobs rows row here replied stored)
    rwa [of_decide_eq_true named] at arrived
  | terminated jobId j rest here =>
    exact held.of_preload same rfl rfl fun id k tasks member =>
      held.preload _ here id k tasks (List.mem_cons_of_mem _ member)
  | preloaded jobId j tasks rest here filled =>
    refine held.of_preload (fun v member => ?_) rfl rfl fun id k tasks member =>
      held.preload _ here id k tasks (List.mem_cons_of_mem _ member)
    rcases List.mem_append.mp member with old | fresh
    · exact same v old
    · cases List.mem_singleton.mp fresh
      exact held.preload _ here jobId j tasks List.mem_cons_self
  | starts i l v here inside found =>
    have own := held.found found
    exact held.of_quiet (held.replaced own) rfl rfl
  | empty i l v here found => exact held.of_quiet (held.replaced (by simp [PendingJobItem.withTasks])) rfl rfl
  | filled i l v here found =>
    have fewer : ∀ t ∈ drained v, good v.context.jobId t :=
      fun t member => held.found found t (mem_drained member)
    exact held.of_timeout (held.replaced fewer) rfl rfl (getElem?_set_found found _) ((List.append_nil _).symm ▸ fewer)
  | kept i l v here found | cleared i l v here found | rolledOut i l count v here found =>
    exact held.of_quiet (fun u member => same u (List.mem_of_mem_eraseIdx member)) rfl rfl
  | stopped i l v config here found =>
    have fewer : ∀ t ∈ ongoingTasks v.tasks, good v.context.jobId t :=
      fun t member => held.found found t (mem_ongoingTasks member)
    exact held.of_timeout (held.replaced fewer) rfl rfl (getElem?_set_found found _) ((List.append_nil _).symm ▸ fewer)
  | ended i l v config here found =>
    have own := held.found found
    refine held.of_quiet (held.replaced own) rfl ?_
    simp only [goto]
    split <;> rfl
  | reloaded i l v rows here found replied =>
    have fresh : ∀ t ∈ toTasks rows, good v.context.jobId t := by
      intro t within
      obtain ⟨row, member, rfl⟩ := List.mem_map.mp within
      exact arrives _ row (.reload ok i l v rows row here found replied member)
    exact held.of_timeout (held.replaced fresh) rfl rfl (getElem?_set_found found _) ((List.append_nil _).symm ▸ fresh)
  | timedOut i l t rest remain v minutes here found =>
    refine held.of_timeout same rfl rfl found fun u member => ?_
    exact held.timeout i l _ _ here v found u (List.mem_cons_of_mem _ member)
  | remains i l t rest remain v minutes here found =>
    refine held.of_timeout same rfl rfl found fun u member => ?_
    refine held.timeout i l _ _ here v found u ?_
    simp only [List.mem_append, List.mem_cons, List.mem_nil_iff, or_false] at member ⊢
    tauto
  | checked i l remain v minutes here found =>
    have kept : ∀ t ∈ remain, good v.context.jobId t :=
      fun t member => held.timeout i l _ _ here v found t (by simpa using member)
    refine held.of_quiet (held.replaced kept) rfl ?_
    · simp only [goto]
      split <;> rfl
  | published i l v here found =>
    have fewer : ∀ t ∈ v.tasks.drop (rolloutCount now v), good v.context.jobId t :=
      fun t member => held.found found t (List.mem_of_mem_drop member)
    refine ⟨held.replaced fewer, ?_, ?_, ?_, held.closures⟩
    · intro jobs other
      simp only [goto] at other
      split at other <;> cases other
    · intro k l' tasks remain other
      simp only [goto] at other
      split at other <;> cases other
    · intro k l' rolloutTasks other
      simp only [goto] at other
      split at other <;> cases other
      exact ⟨_, getElem?_set_found found _, fun t member =>
        held.found found t (List.mem_of_mem_take member)⟩
  | rolled i l count v here found =>
    have own := held.found found
    exact held.of_quiet (held.replaced own) rfl rfl
  | _ => exact held.of_quiet same rfl rfl

theorem Held.mono {weak strong : String → Task → Prop} (held : Held strong m)
    (weaker : ∀ jobId t, strong jobId t → weak jobId t) : Held weak m := by
  refine ⟨fun v member t within => weaker _ t (held.pending v member t within),
    fun jobs here jobId j tasks member t within =>
      weaker _ t (held.preload jobs here jobId j tasks member t within),
    fun i l tasks remain here v found t within =>
      weaker _ t (held.timeout i l tasks remain here v found t within),
    fun i l rolloutTasks here => ?_,
    fun item member t within => weaker _ t (held.closures item member t within)⟩
  obtain ⟨v, found, batch⟩ := held.put i l rolloutTasks here
  exact ⟨v, found, fun t within => weaker _ t (batch t within)⟩

theorem Held.and {first second : String → Task → Prop} (one : Held first m) (other : Held second m) :
    Held (fun jobId t => first jobId t ∧ second jobId t) m := by
  refine ⟨fun v member t within => ⟨one.pending v member t within, other.pending v member t within⟩,
    fun jobs here jobId j tasks member t within =>
      ⟨one.preload jobs here jobId j tasks member t within, other.preload jobs here jobId j tasks member t within⟩,
    fun i l tasks remain here v found t within =>
      ⟨one.timeout i l tasks remain here v found t within, other.timeout i l tasks remain here v found t within⟩,
    fun i l rolloutTasks here => ?_,
    fun item member t within => ⟨one.closures item member t within, other.closures item member t within⟩⟩
  obtain ⟨v, found, batch⟩ := one.put i l rolloutTasks here
  obtain ⟨v', found', batch'⟩ := other.put i l rolloutTasks here
  rw [found] at found'
  cases found'
  exact ⟨v, found, fun t within => ⟨batch t within, batch' t within⟩⟩

theorem Held.congr (held : Held good m) (pending : m'.pendingJobs = m.pendingJobs)
    (rollout : m'.rollout = m.rollout)
    (closures : ∀ item, .addPendingJob item ∈ m'.closures → .addPendingJob item ∈ m.closures) :
    Held good m' := by
  constructor
  · simpa [pending] using held.pending
  · simpa [rollout] using held.preload
  · simpa [pending, rollout] using held.timeout
  · simpa [pending, rollout] using held.put
  · exact fun item member => held.closures item (closures item member)

theorem held_receiveRemove {jobId : String} {force : Bool} (held : Held good m)
    (idle : m.rollout = .select) (taken : m.receiveRemove jobId force = some m') : Held good m' := by
  have frame := Memory.receiveRemove_frame taken
  simp only [Memory.receiveRemove, bind, Option.bind_eq_some_iff] at taken
  obtain ⟨⟨rest, forget⟩, removed, taken⟩ := taken
  have pending : m'.pendingJobs = rest := by grind
  constructor
  · rw [pending]
    intro v member t within
    obtain ⟨old, present, same, fewer⟩ := mem_removePendingJob removed member
    rw [same]
    exact held.pending old present t (fewer t within)
  all_goals grind [held.closures]

theorem held_updateContext (jobId : String) (timeout : Option TimeoutConfig) (held : Held good m)
    (idle : m.rollout = .select) : Held good (m.updateContext jobId timeout) := by
  have frame := Memory.updateContext_frame jobId timeout m
  have pending := held.pending
  have created := held.closures
  unfold Memory.updateContext at frame ⊢
  split
  · split
    · constructor <;> grind [List.mem_or_eq_of_mem_set]
    · exact held
  · exact held

/-- What the center holds is what it held, or it arrived with the reply. -/
theorem held_step (held : Held good m) (taken : resume now m reply a = some m')
    (arrives : ∀ jobId row, Arrives m reply a jobId row → good jobId (toTask row)) :
    Held good m' := by
  have frame := resume_frame taken
  have pending := held.pending
  have created := held.closures
  cases a with
  | rollout ok => exact held_rollout held taken arrives
  | recvPending i =>
    obtain ⟨item, idle, sender, rfl⟩ := resume_recvPending taken
    have sent := created item (List.mem_of_getElem? sender)
    clear taken frame
    constructor
    · simp only [Memory.startPass, Memory.goto, Memory.setClosure]
      grind
    all_goals grind [List.mem_or_eq_of_mem_set]
  | recvUpdate i =>
    obtain ⟨jobId, timeout, idle, sender, rfl⟩ := resume_recvUpdate taken
    have updated := held_updateContext jobId timeout held idle
    have pending' := updated.pending
    have created' := updated.closures
    constructor <;> grind
  | recvRemove i =>
    obtain ⟨r, operation, jobId, force, received, idle, sender, removal, removed, rfl⟩ :=
      resume_recvRemove taken
    have left := held_receiveRemove held idle removed
    exact ⟨left.pending, left.preload, left.timeout, left.put, left.closures⟩
  | recvFinished =>
    obtain ⟨jobId, todo, received, idle, sender, removed, rfl⟩ := resume_recvFinished taken
    have left := held_receiveRemove held idle removed
    exact ⟨left.pending, left.preload, left.timeout, left.put, left.closures⟩
  | run i ok =>
    obtain ⟨closure, next, found, continues, rfl⟩ := resume_run taken
    have fresh : ∀ item, next = .addPendingJob item → ∀ t ∈ item.tasks, good item.context.jobId t := by
      rintro item rfl t within
      cases Memory.runs_of_closureNext continues with
      | loaded context taskIds rows replied =>
        obtain ⟨row, member, rfl⟩ := List.mem_map.mp within
        exact arrives _ row (.created ok i context taskIds rows row found replied member)
    clear taken frame continues
    refine ⟨held.pending, held.preload, held.timeout, held.put, fun item member => ?_⟩
    rcases List.mem_or_eq_of_mem_set member with old | same
    · exact created item old
    · exact fresh item same.symm
  | serve i ok =>
    refine held.congr (frame.pendingJobs rfl) (frame.rollout rfl) fun item member => ?_
    simp only [resume, Memory.serve, bind, Option.bind_eq_some_iff] at taken
    grind
  | recvPut =>
    obtain ⟨i, l, rolloutTasks, idle, sender, rfl⟩ := resume_recvPut taken
    constructor <;> grind
  | recvEndDelete =>
    obtain ⟨i, l, v, idle, sender, found, rfl⟩ := resume_recvEndDelete taken
    have untouched := Memory.deleteTask_frame (.job v.context.jobId) m
    constructor <;> grind
  | recvDelete i =>
    obtain ⟨operation, msg, idle, sender, system, rfl⟩ := resume_recvDelete taken
    refine held.congr (frame.pendingJobs rfl) (frame.rollout rfl) fun item member => ?_
    have untouched := Memory.deleteTask_frame msg m
    rcases List.mem_or_eq_of_mem_set member with old | same
    · rwa [untouched.2.2.1.closures] at old
    · cases same
  | rolloutTick =>
    simp only [resume] at taken
    constructor <;> grind
  | _ =>
    exact held.congr (frame.pendingJobs rfl) (frame.rollout rfl)
      fun item member => frame.closures rfl ▸ member

end

end Tio.Job
