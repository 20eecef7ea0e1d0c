import Tio.Job.Alive
import Tio.Job.Quiet

namespace Tio.Job

open Tio.Core TaskQueue

/-- The tasks of an item, but for those that the timeout filter dropped. -/
def Memory.left (m : Memory) (k : Nat) (v : PendingJobItem) : List Task :=
  match m.rollout with
  | .timeout i _ tasks remain => if i = k then tasks ++ remain else v.tasks
  | _ => v.tasks

/-- Every task that the center will hand on for a job satisfies `good`. -/
structure Left (good : String → Task → Prop) (m : Memory) : Prop where
  pending : ∀ k v, m.pendingJobs[k]? = some v → ∀ t ∈ m.left k v, good v.context.jobId t
  preload : ∀ jobs, m.rollout = .preload jobs → ∀ jobId j tasks, (jobId, j, tasks) ∈ jobs →
    ∀ t ∈ tasks, good jobId t
  put : ∀ i l rolloutTasks, m.rollout = .put i l rolloutTasks →
    ∃ v, m.pendingJobs[i]? = some v ∧ ∀ t ∈ rolloutTasks, good v.context.jobId t
  closures : ∀ item, .addPendingJob item ∈ m.closures → ∀ t ∈ item.tasks, good item.context.jobId t

/-- Without a limit the timeout filter drops nothing. -/
def Unlimited (m : Memory) : Prop :=
  ∀ i l tasks remain v, m.rollout = .timeout i l tasks remain → m.pendingJobs[i]? = some v →
    timeoutMinutes v.context = none → tasks ++ remain = v.tasks

/-- How the loop comes to the timeout filter of an item, or goes on there. -/
inductive Checking (m m' : Memory) (i l : Nat) (v : PendingJobItem) : List Task → List Task → Prop
  | enters (tasks remain : List Task) (same : tasks ++ remain = v.tasks) : Checking m m' i l v tasks remain
  | stays (tasks remain : List Task) (here : m.rollout = .timeout i l tasks remain)
      (pending : m'.pendingJobs = m.pendingJobs) : Checking m m' i l v tasks remain
  | drops (t : Task) (tasks remain : List Task) (minutes : Int)
      (here : m.rollout = .timeout i l (t :: tasks) remain) (pending : m'.pendingJobs = m.pendingJobs)
      (limit : timeoutMinutes v.context = some minutes) : Checking m m' i l v tasks remain
  | keeps (t : Task) (tasks remain : List Task) (minutes : Int)
      (here : m.rollout = .timeout i l (t :: tasks) remain) (pending : m'.pendingJobs = m.pendingJobs)
      (limit : timeoutMinutes v.context = some minutes) : Checking m m' i l v tasks (remain ++ [t])

section

variable {now : Int} {m m' : Memory} {reply : Reply} {a : Action} {good : String → Task → Prop}

theorem left_of_free {k : Nat} {v : PendingJobItem}
    (free : ∀ i l tasks remain, m.rollout ≠ .timeout i l tasks remain) : m.left k v = v.tasks := by
  rw [Memory.left]
  split
  · rename_i i l tasks remain here
    exact absurd here (free i l tasks remain)
  · rfl

theorem Left.held (left : Left good m) (free : ∀ i l tasks remain, m.rollout ≠ .timeout i l tasks remain) :
    Held good m := by
  refine ⟨fun v member t within => ?_, left.preload, fun i l tasks remain here => absurd here (free i l _ _),
    left.put, left.closures⟩
  obtain ⟨k, found⟩ := List.getElem?_of_mem member
  exact left.pending k v found t (by rwa [left_of_free free])

theorem Held.left (held : Held good m) : Left good m := by
  refine ⟨fun k v found t within => ?_, held.preload, held.put, held.closures⟩
  rw [Memory.left] at within
  split at within
  · rename_i i l tasks remain here
    split at within
    · rename_i same
      subst same
      exact held.timeout i l tasks remain here v found t within
    · exact held.pending v (List.mem_of_getElem? found) t within
  · exact held.pending v (List.mem_of_getElem? found) t within

theorem Left.mono {weak strong : String → Task → Prop} (left : Left strong m)
    (weaker : ∀ jobId t, strong jobId t → weak jobId t) : Left weak m := by
  refine ⟨fun k v found t within => weaker _ t (left.pending k v found t within),
    fun jobs here jobId j tasks member t within =>
      weaker _ t (left.preload jobs here jobId j tasks member t within),
    fun i l rolloutTasks here => ?_,
    fun item member t within => weaker _ t (left.closures item member t within)⟩
  obtain ⟨v, found, batch⟩ := left.put i l rolloutTasks here
  exact ⟨v, found, fun t within => weaker _ t (batch t within)⟩

theorem Left.and {first second : String → Task → Prop} (one : Left first m) (other : Left second m) :
    Left (fun jobId t => first jobId t ∧ second jobId t) m := by
  refine ⟨fun k v found t within => ⟨one.pending k v found t within, other.pending k v found t within⟩,
    fun jobs here jobId j tasks member t within =>
      ⟨one.preload jobs here jobId j tasks member t within, other.preload jobs here jobId j tasks member t within⟩,
    fun i l rolloutTasks here => ?_,
    fun item member t within => ⟨one.closures item member t within, other.closures item member t within⟩⟩
  obtain ⟨v, found, batch⟩ := one.put i l rolloutTasks here
  obtain ⟨v', found', batch'⟩ := other.put i l rolloutTasks here
  rw [found] at found'
  cases found'
  exact ⟨v, found, fun t within => ⟨batch t within, batch' t within⟩⟩

open Memory in
theorem checking_rolls {i l : Nat} {tasks remain : List Task} {v : PendingJobItem}
    (rolls : Rolls now reply m m') (here : m'.rollout = .timeout i l tasks remain)
    (found : m'.pendingJobs[i]? = some v) : Checking m m' i l v tasks remain := by
  have entered : ∀ {tasks' : List Task} {u : PendingJobItem} (pending : List PendingJobItem),
      (pending.set i (u.withTasks tasks'))[i]? = some v → tasks' ++ [] = v.tasks := by
    intro tasks' u pending place
    rw [List.getElem?_set] at place
    split at place
    · split at place <;> cases place
      exact List.append_nil _
    · contradiction
  cases rolls with
  | filled | stopped | reloaded =>
    cases here
    exact .enters _ _ (entered _ found)
  | timedOut i' l' t rest remain' u minutes stop place limit =>
    cases here
    have found : m.pendingJobs[i]? = some v := found
    rw [place] at found
    cases found
    exact .drops t _ _ minutes stop rfl limit
  | remains i' l' t rest remain' u minutes stop place limit =>
    cases here
    have found : m.pendingJobs[i]? = some v := found
    rw [place] at found
    cases found
    exact .keeps t _ _ minutes stop rfl limit
  | ended | checked | published =>
    simp only [goto] at here
    split at here <;> cases here
  | _ => cases here

theorem checking_step {i l : Nat} {tasks remain : List Task} {v : PendingJobItem}
    (taken : resume now m reply a = some m') (here : m'.rollout = .timeout i l tasks remain)
    (found : m'.pendingJobs[i]? = some v) : Checking m m' i l v tasks remain := by
  rcases rollout_still taken with ⟨ok, rfl⟩ | same | ⟨i', l', stop⟩ | ⟨i', l', n, stop⟩ | ⟨i', l', -, stop⟩
  · exact checking_rolls (Memory.rolls_of_rolloutNext taken) here found
  · rw [same] at here
    rcases alone_still (by rw [here]; rfl) taken with ⟨ok, rfl⟩ | ⟨-, pending⟩
    · exact checking_rolls (Memory.rolls_of_rolloutNext taken) (same.trans here) found
    · exact .stays tasks remain here pending
  all_goals
    rw [stop] at here
    cases here

theorem unlimited_step (unlimited : Unlimited m) (taken : resume now m reply a = some m') : Unlimited m' := by
  intro i l tasks remain v here found unbounded
  cases checking_step taken here found with
  | enters _ _ same => exact same
  | stays _ _ here pending => exact unlimited i l tasks remain v here (pending ▸ found) unbounded
  | drops _ _ _ _ _ _ limit | keeps _ _ _ _ _ _ limit =>
    rw [unbounded] at limit
    cases limit

/-- The tasks of a closure that adds an item came from the database. -/
theorem adding_step (taken : resume now m reply a = some m')
    (arrives : ∀ jobId row, Arrives m reply a jobId row → good jobId (toTask row))
    (closures : ∀ item, .addPendingJob item ∈ m.closures → ∀ t ∈ item.tasks, good item.context.jobId t) :
    ∀ item, .addPendingJob item ∈ m'.closures → ∀ t ∈ item.tasks, good item.context.jobId t := by
  intro item member t within
  cases resume_closures taken member with
  | before _ _ old => exact closures item old t within
  | next i ok old _ here continues =>
    cases Memory.runs_of_closureNext continues with
    | loaded context taskIds rows replied =>
      obtain ⟨row, listed, rfl⟩ := List.mem_map.mp within
      exact arrives _ row (.created ok i context taskIds rows row here replied listed)

/-- The filter that ends leaves the tasks that it kept. -/
theorem left_checked {i l : Nat} {tasks remain : List Task} (left : Left good m) (unlimited : Unlimited m)
    (here : m.rollout = .timeout i l tasks remain) (rolls : Memory.Rolls now reply m m')
    (closures : ∀ item, .addPendingJob item ∈ m'.closures → ∀ t ∈ item.tasks, good item.context.jobId t) :
    Left good m' := by
  have others : ∀ k v, m.pendingJobs[k]? = some v → k ≠ i → ∀ t ∈ v.tasks, good v.context.jobId t := by
    intro k v found apart t within
    exact left.pending k v found t (by simpa only [Memory.left, here, if_neg (Ne.symm apart)])
  have own : ∀ v, m.pendingJobs[i]? = some v → ∀ t ∈ tasks ++ remain, good v.context.jobId t := by
    intro v found t within
    exact left.pending i v found t (by simpa only [Memory.left, here, if_pos])
  -- the places that the loop has at other stops
  have elsewhere : ∀ {pc : RolloutPc}, m'.rollout = pc → pc.started = true →
      (∀ i l rolloutTasks, pc ≠ .put i l rolloutTasks) →
      (∀ k v, m'.pendingJobs[k]? = some v → ∀ t ∈ m'.left k v, good v.context.jobId t) → Left good m' := by
    intro pc stop started quiet pending
    subst stop
    refine ⟨pending, fun jobs other => ?_, fun i l rolloutTasks other => absurd other (quiet i l _), closures⟩
    rw [other] at started
    cases started
  cases rolls with
  | unlimited i' l' tasks' remain' u stop found limit =>
    rw [here] at stop
    cases stop
    refine elsewhere rfl rfl (by simp [Memory.goto]) fun k v place t within => ?_
    have inside : t ∈ v.tasks := within
    by_cases same : k = i
    · subst same
      cases found.symm.trans place
      rw [← unlimited _ _ _ _ _ here found limit] at inside
      exact own _ found t inside
    · exact others k v place same t inside
  | timedOut i' l' u rest remain' w minutes stop found limit late =>
    rw [here] at stop
    cases stop
    refine elsewhere rfl rfl (by simp [Memory.goto]) fun k v place t within => ?_
    simp only [Memory.left, Memory.goto] at within
    split at within
    · rename_i same
      subst same
      exact own v place t (List.mem_cons_of_mem _ within)
    · rename_i apart
      exact others k v place (Ne.symm apart) t within
  | remains i' l' u rest remain' w minutes stop found limit early =>
    rw [here] at stop
    cases stop
    refine elsewhere rfl rfl (by simp [Memory.goto]) fun k v place t within => ?_
    simp only [Memory.left, Memory.goto] at within
    split at within
    · rename_i same
      subst same
      refine own v place t ?_
      simp only [List.mem_append, List.mem_cons, List.mem_nil_iff, or_false] at within ⊢
      tauto
    · rename_i apart
      exact others k v place (Ne.symm apart) t within
  | checked i' l' remain' w minutes stop found limit =>
    rw [here] at stop
    cases stop
    refine elsewhere rfl ?_ ?_ fun k v place t within => ?_
    · simp only [Memory.goto]
      split <;> rfl
    · simp only [Memory.goto]
      split <;> simp
    · have place : (m.pendingJobs.set i (w.withTasks remain))[k]? = some v := place
      have within : t ∈ v.tasks := by
        rwa [left_of_free] at within
        simp only [Memory.goto]
        split <;> simp
      rw [List.getElem?_set] at place
      split at place
      · split at place <;> cases place
        exact own w found t (by simpa [PendingJobItem.withTasks] using within)
      · rename_i apart
        exact others k v place (Ne.symm apart) t within
  | _ => simp_all

/-- What the center will hand on is what it would have, or it arrived with the reply. -/
theorem left_step (left : Left good m) (unlimited : Unlimited m) (taken : resume now m reply a = some m')
    (arrives : ∀ jobId row, Arrives m reply a jobId row → good jobId (toTask row)) : Left good m' := by
  by_cases checks : ∃ i l tasks remain, m.rollout = .timeout i l tasks remain
  · obtain ⟨i, l, tasks, remain, here⟩ := checks
    have closures := adding_step taken arrives left.closures
    rcases alone_still (by rw [here]; rfl) taken with ⟨ok, rfl⟩ | ⟨same, pending⟩
    · exact left_checked left unlimited here (Memory.rolls_of_rolloutNext taken) closures
    · refine ⟨fun k v found t within => left.pending k v (pending ▸ found) t ?_, same ▸ left.preload,
        same ▸ pending ▸ left.put, closures⟩
      rwa [Memory.left, same] at within
  · have free : ∀ i l tasks remain, m.rollout ≠ .timeout i l tasks remain :=
      fun i l tasks remain here => checks ⟨i, l, tasks, remain, here⟩
    exact (held_step (left.held free) taken arrives).left

end

/-- Every task of the job that is still to be submitted has an id that satisfies `good`. -/
structure Awaited (jobId : String) (good : Int → Prop) (m : Memory) : Prop where
  center : Left (fun other t => other = jobId → good t.taskId) m
  reading : ∀ context taskIds, .readTasks context taskIds ∈ m.closures → context.jobId = jobId →
    ∀ taskId ∈ taskIds, good taskId
  runner : InRunner (fun t => t.jobId = jobId → good t.taskId) m

section

variable {now : Int} {m m' : Memory} {reply : Reply} {a : Action} {jobId : String} {good : Int → Prop}

theorem Awaited.mono {weak strong : Int → Prop} (awaited : Awaited jobId strong m)
    (weaker : ∀ taskId, strong taskId → weak taskId) : Awaited jobId weak m :=
  ⟨awaited.center.mono fun _ _ fine named => weaker _ (fine named),
    fun context taskIds member named taskId listed =>
      weaker taskId (awaited.reading context taskIds member named taskId listed),
    awaited.runner.mono fun _ fine named => weaker _ (fine named)⟩

theorem Awaited.and {first second : Int → Prop} (one : Awaited jobId first m) (other : Awaited jobId second m) :
    Awaited jobId (fun taskId => first taskId ∧ second taskId) m :=
  ⟨(one.center.and other.center).mono fun _ _ both named => ⟨both.1 named, both.2 named⟩,
    fun context taskIds member named taskId listed =>
      ⟨one.reading context taskIds member named taskId listed, other.reading context taskIds member named taskId listed⟩,
    (one.runner.and other.runner).mono fun _ both named => ⟨both.1 named, both.2 named⟩⟩

/-- What is still to be submitted was so before, or it comes with the reply. -/
theorem awaited_step (awaited : Awaited jobId good m) (indexed : Indexed m.curQ)
    (home : Held (fun other t => t.jobId = other) m) (unlimited : Unlimited m)
    (taken : resume now m reply a = some m') (arrives : ∀ row, Arrives m reply a jobId row → good row.1)
    (created : ∀ (k : Nat) (ok : Bool) (context : JobContext) (things : List String) (taskIds : List Int),
      a = .run k ok → m.closures[k]? = some (.submitted (.createJob context things)) → context.jobId = jobId →
        reply = .taskIds taskIds → ∀ taskId ∈ taskIds, good taskId) : Awaited jobId good m' := by
  refine ⟨left_step awaited.center unlimited taken fun other row arrived named => ?_, ?_, ?_⟩
  · subst named
    exact arrives row arrived
  · intro context taskIds member named taskId listed
    cases resume_closures taken member with
    | before _ _ old => exact awaited.reading context taskIds old named taskId listed
    | next i ok closure _ here continues =>
      obtain ⟨things, rfl, replied⟩ := created_of_reads continues
      exact created i ok context things taskIds rfl here named replied taskId listed
  · refine inRunner_step indexed awaited.runner (fun i l rolloutTasks sender t member named => ?_) taken
    obtain ⟨v, found, batch⟩ := awaited.center.put i l rolloutTasks sender
    obtain ⟨v', found', own⟩ := home.put i l rolloutTasks sender
    rw [found] at found'
    cases found'
    exact batch t member ((own t member).symm.trans named)

end

/-- One for the task of the job. -/
def own (jobId : String) (taskId : Int) (other : String) (id : Int) : Nat :=
  if other = jobId ∧ id = taskId then 1 else 0

theorem own_le_named (jobId : String) (taskId : Int) (other : String) (id : Int) :
    own jobId taskId other id ≤ named taskId other id := by
  by_cases both : other = jobId ∧ id = taskId
  · exact Nat.le_of_eq ((if_pos both).trans (if_pos both.2).symm)
  · rw [own, if_neg both]
    exact Nat.zero_le _

theorem own_self (jobId : String) (taskId : Int) : own jobId taskId jobId taskId = 1 := if_pos ⟨rfl, rfl⟩

theorem jobId_of_own {jobId other : String} {taskId id : Int} (weighs : own jobId taskId other id ≠ 0) :
    other = jobId := by
  by_contra apart
  exact weighs (if_neg fun both => apart both.1)

theorem ne_of_own {jobId other : String} {taskId id : Int} (nothing : own jobId taskId other id = 0) :
    other = jobId → id ≠ taskId := by
  rintro rfl rfl
  rw [own_self] at nothing
  cases nothing

section

variable {m : Memory} {jobId : String} {taskId : Int}

/-- The center has no task that it does not count. -/
theorem held_of_centerLoad (staged : Staged m) (home : Held (fun other t => t.jobId = other) m)
    (going : ∀ v ∈ m.pendingJobs, v.context.jobId = jobId → isJobToTerminal v.context.status = false)
    (nothing : m.centerLoad (own jobId taskId) = 0) :
    Held (fun other t => other = jobId → t.taskId ≠ taskId) m := by
  rw [Memory.centerLoad] at nothing
  have items : ∀ v ∈ m.pendingJobs, v.context.jobId = jobId →
      tally (fun t => own jobId taskId v.context.jobId t.taskId) v.tasks = 0 := by
    intro v member named
    have none := tally_eq_zero_iff.mp (by omega : tally (PendingJobItem.load (own jobId taskId)) m.pendingJobs = 0)
      v member
    simpa [PendingJobItem.load, tasksLoad, going v member named] using none
  refine ⟨fun v member t within named => ?_, fun jobs here other j tasks member t within => ?_,
    fun i l tasks remain here v found t within named => ?_, fun i l rolloutTasks here => ?_,
    fun item member t within => ?_⟩
  · exact ne_of_own (tally_eq_zero_iff.mp (items v member named) t within) named
  · have none : m.rollout.load (own jobId taskId) m.pendingJobs = 0 := by omega
    rw [here] at none
    exact ne_of_own (tally_eq_zero_iff.mp (tally_eq_zero_iff.mp none _ member) t within)
  · have fewer := staged.checking i l tasks remain v here found fun t => own jobId taskId v.context.jobId t.taskId
    rw [items v (List.mem_of_getElem? found) named] at fewer
    exact ne_of_own (tally_eq_zero_iff.mp (Nat.le_zero.mp fewer) t within) named
  · obtain ⟨v, found, -⟩ := home.put i l rolloutTasks here
    have none : m.rollout.load (own jobId taskId) m.pendingJobs = 0 := by omega
    rw [here] at none
    refine ⟨v, found, fun t within named => ?_⟩
    simp only [RolloutPc.load, found, Option.elim_some, batchLoad, going v (List.mem_of_getElem? found) named,
      Bool.false_eq_true, if_false] at none
    exact ne_of_own (tally_eq_zero_iff.mp none t within) named
  · have none := tally_eq_zero_iff.mp (by omega : tally (Closure.load (own jobId taskId)) m.closures = 0) _ member
    exact ne_of_own (tally_eq_zero_iff.mp none t within)

theorem reading_of_centerLoad (nothing : m.centerLoad (own jobId taskId) = 0) :
    ∀ context taskIds, .readTasks context taskIds ∈ m.closures → context.jobId = jobId →
      ∀ other ∈ taskIds, other ≠ taskId := by
  rw [Memory.centerLoad] at nothing
  intro context taskIds member named other listed
  have none := tally_eq_zero_iff.mp (by omega : tally (Closure.load (own jobId taskId)) m.closures = 0) _ member
  exact ne_of_own (tally_eq_zero_iff.mp none other listed) named

/-- The runner has no task waiting that it does not count, while the job is not spent. -/
theorem inRunner_of_load (counted : (∃ t ∈ m.waiting, t.jobId = jobId) → m.spent jobId = false)
    (nothing : tally (Memory.waitingLoad (own jobId taskId) fun other => m.spent other)
      (getTasks m.curQ ++ m.parked) = 0) (hand : tally (fun t => own jobId taskId t.jobId t.taskId) m.hand = 0) :
    InRunner (fun t => t.jobId = jobId → t.taskId ≠ taskId) m := by
  refine inRunner_iff.mpr fun t member named => ?_
  rcases List.mem_append.mp member with waits | inHand
  · have none := tally_eq_zero_iff.mp nothing t waits
    rw [Memory.waitingLoad, named, counted ⟨t, member, named⟩] at none
    exact ne_of_own none rfl
  · exact ne_of_own (tally_eq_zero_iff.mp hand t inHand) named

/-- A task that was submitted is not awaited. -/
theorem awaited_of_submitted (staged : Staged m) (home : Held (fun other t => t.jobId = other) m)
    (going : ∀ v ∈ m.pendingJobs, v.context.jobId = jobId → isJobToTerminal v.context.status = false)
    (counted : (∃ t ∈ m.waiting, t.jobId = jobId) → m.spent jobId = false)
    (once : m.load (own jobId taskId) ≤ 1) {t : Task} (submitted : t ∈ m.submitted) (named : t.jobId = jobId)
    (here : t.taskId = taskId) : Awaited jobId (· ≠ taskId) m := by
  have weighs := le_tally (fun t => own jobId taskId t.jobId t.taskId) submitted
  simp only [named, here, own_self] at weighs
  rw [Memory.load, Memory.runnerLoad, tally_append m.hand] at once
  exact ⟨(held_of_centerLoad staged home going (by omega)).left, reading_of_centerLoad (by omega),
    inRunner_of_load counted (by omega) (by omega)⟩

end

end Tio.Job
