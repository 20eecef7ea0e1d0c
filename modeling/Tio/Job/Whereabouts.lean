import Tio.Job.Delete
import Tio.Job.Steady
import Tio.Job.Sweep

namespace Tio.Job

open Tio.Core TaskQueue

/-- The task is one of these. -/
def Lists (taskId : Int) (tasks : List Task) : Prop := ∃ t ∈ tasks, t.taskId = taskId

/-- Somebody has the task of the job. -/
inductive Tracked (jobId : String) (taskId : Int) (m : Memory) : Prop
  | loadJobs (here : m.rollout = .loadJobs)
  | loadTasks (jobs : List (String × JobEntity)) (here : m.rollout = .loadTasks jobs)
      (listed : jobId ∈ Assoc.keys jobs)
  | preload (jobs : List (String × JobEntity × List Task)) (j : JobEntity) (tasks : List Task)
      (here : m.rollout = .preload jobs) (listed : (jobId, j, tasks) ∈ jobs) (within : Lists taskId tasks)
  | reading (context : JobContext) (taskIds : List Int) (member : .readTasks context taskIds ∈ m.closures)
      (named : context.jobId = jobId) (listed : taskId ∈ taskIds)
  | creating (item : PendingJobItem) (member : .addPendingJob item ∈ m.closures)
      (named : item.context.jobId = jobId) (within : Lists taskId item.tasks)
  | pending (k : Nat) (v : PendingJobItem) (found : m.pendingJobs[k]? = some v)
      (named : v.context.jobId = jobId) (within : Lists taskId (m.left k v))
  | put (i l : Nat) (rolloutTasks : List Task) (v : PendingJobItem) (here : m.rollout = .put i l rolloutTasks)
      (found : m.pendingJobs[i]? = some v) (named : v.context.jobId = jobId) (within : Lists taskId rolloutTasks)
  | waiting (t : Task) (member : t ∈ m.waiting) (named : t.jobId = jobId) (same : t.taskId = taskId)
  | running (w : Worker) (member : w ∈ m.workers) (going : w.pc.finishes = false) (named : w.task.jobId = jobId)
      (same : w.task.taskId = taskId)
  | reported (msg : TaskChangeMsg) (here : m.change = .update msg) (ends : isTaskTerminal msg.status = true)
      (named : msg.task.jobId = jobId) (same : msg.task.taskId = taskId)

/-- Workers have results that end their tasks. -/
def Results (m : Memory) : Prop :=
  ∀ w ∈ m.workers, ∀ status, w.pc = .sendResult status → isTaskTerminal status = true

/-- An item of the job that is cleared has no tasks, unless the job was ended by force. -/
def Emptied (forced : Prop) (jobId : String) (m : Memory) : Prop :=
  ∀ i l v, m.rollout = .finish i l ∨ m.rollout = .clear i l → m.pendingJobs[i]? = some v →
    v.context.jobId = jobId → v.tasks = [] ∨ forced

section

variable {now : Int} {m m' : Memory} {reply : Reply} {a : Action} {jobId : String} {taskId : Int}

/-- A message that deletes other tasks leaves the task where it waits. -/
theorem waiting_deleteTask {owner : Int → String} {msg : DeleteTaskMsg} {t : Task} (indexed : Indexed m.curQ)
    (owned : InRunner (fun t => owner t.taskId = t.jobId) m) (member : t ∈ m.waiting)
    (spared : ¬(RunnerEvent.delete msg).explains t) : t ∈ (m.deleteTask msg).waiting := by
  obtain ⟨ids, keep, same, dropped, taken⟩ := deleteTask_removes msg m
  obtain ⟨gone, perm, removed⟩ := removeIds_perm ids indexed
  rw [same]
  refine (List.mem_append.mp member).elim (fun earlier => List.mem_append_left _ ?_) (List.mem_append_right _)
  refine (List.mem_append.mp earlier).elim (fun queued => List.mem_append_left _ ?_)
    fun parked => List.mem_append_right _ ?_
  · refine (List.mem_append.mp (perm.mem_iff.mp queued)).resolve_right fun lost => spared ?_
    rcases taken t.taskId (removed t lost) with all | ⟨u, present, here, about⟩
    · exact all t rfl
    · have queued' : t ∈ getTasks m.curQ := queued
      have own : t.jobId = u.jobId := by
        rw [← owned.queue t queued', ← here, owned.queue u present]
      rwa [RunnerEvent.explains, DeleteTaskMsg.Names, own, ← here]
  · obtain ⟨entry, present, within⟩ := mem_parked_iff.mp parked
    refine mem_parked_iff.mpr ⟨_, List.mem_map_of_mem present, List.mem_filter.mpr ⟨within, ?_⟩⟩
    by_contra out
    exact spared (dropped t (by simpa using out))

theorem waiting_connected {thingId : String} {t : Task} (parked : (Assoc.keys m.offlineThingTasks).Nodup)
    (member : t ∈ m.waiting) : t ∈ (m.connected thingId).waiting := by
  rw [Memory.connected]
  split
  · rename_i tasks found
    have moved := (Assoc.flatMap_erase parked found).mem_iff (a := t)
    have hand : m.hand = ({ m with
      curQ := tasks.foldl (fun q t => push t q) m.curQ
      offlineThingTasks := Assoc.erase thingId m.offlineThingTasks } : Memory).hand := rfl
    simp only [Memory.waiting, List.mem_append, Memory.parked, ← hand, mem_pushAll, moved] at member ⊢
    tauto
  · exact member

/-- A turn of the loop keeps a task of a system operation, unless its job is over. -/
theorem waiting_sysOpNext {online : Option Bool} {accepted : Bool} {t : Task}
    (taken : m.sysOpNext online accepted = some m') (member : t ∈ m.waiting) (going : m.barred t.jobId = false)
    (system : isSysOp t.operation = true) : t ∈ m'.waiting ∨ ⟨t, .running⟩ ∈ m'.workers := by
  have kept : ∀ {u : Task} {rest : TaskQueue} {c : Nat} (pc : SysOpPc), m.sysOp = .pop c →
      pop m.curQ = some (u, rest) → t ≠ u → t ∈ ({ m with curQ := rest, sysOp := pc } : Memory).waiting := by
    intro u rest c pc here popped apart
    simp only [Memory.waiting, Memory.hand, here, List.append_nil, List.mem_append] at member
    refine List.mem_append_left _ (List.mem_append.mpr (member.imp_left fun queued => ?_))
    exact (List.mem_cons.mp ((pop_perm popped).1.mem_iff.mp queued)).resolve_left apart
  cases Memory.operates_of_sysOpNext taken with
  | rests c here =>
    simp only [Memory.waiting, Memory.hand, here, List.append_nil] at member
    exact .inl (List.mem_append_left _ member)
  | drops c u rest here popped barred =>
    refine .inl (kept _ here popped ?_)
    rintro rfl
    rw [Memory.barred] at going
    cases held : Assoc.get t.jobId m.contexts with
    | none => simp [held] at going
    | some context => simp [held, barred context held] at going
  | takes c u rest context here popped held going' =>
    by_cases same : t = u
    · exact .inl (List.mem_append_right _ (by simp [Memory.hand, same]))
    · exact .inl (kept _ here popped same)
  | parks c u here offline =>
    have moved := (Assoc.flatMap_set_append u.thingId u m.offlineThingTasks).mem_iff (a := t)
    left
    simp only [Memory.waiting, Memory.hand, here, List.mem_append, Memory.parked, moved, List.mem_cons,
      List.not_mem_nil, or_false] at member ⊢
    tauto
  | returns c u here _ full =>
    left
    simp only [Memory.waiting, Memory.hand, here, List.mem_append, mem_push, List.mem_singleton] at member ⊢
    tauto
  | submits c u here =>
    simp only [Memory.waiting, Memory.hand, here, List.mem_append, List.mem_singleton] at member
    rcases member with old | rfl
    · exact .inl (List.mem_append_left _ (List.mem_append.mpr old))
    · right
      simp [system]

/-- A task that waits in the runner goes on waiting or is submitted, unless it is deleted
or its job is over. -/
theorem waiting_step {owner : Int → String} {t : Task} (taken : resume now m reply a = some m')
    (indexed : Indexed m.curQ) (parked : (Assoc.keys m.offlineThingTasks).Nodup)
    (owned : InRunner (fun t => owner t.taskId = t.jobId) m) (member : t ∈ m.waiting)
    (going : m.barred t.jobId = false) (system : isSysOp t.operation = true)
    (spared : ∀ msg, a.event m = some (.delete msg) → ¬(RunnerEvent.delete msg).explains t) :
    t ∈ m'.waiting ∨ ⟨t, .running⟩ ∈ m'.workers := by
  have alike : ∀ {own : Memory}, Memory.SamePlaces own m' → t ∈ own.waiting → t ∈ m'.waiting := by
    intro own same within
    rwa [Memory.waiting, Memory.parked, Memory.hand, same.curQ, same.offlineThingTasks, same.sysOp]
  have idle : m.sysOp = .select → ∀ own : Memory, own.curQ = m.curQ → own.offlineThingTasks = m.offlineThingTasks →
      t ∈ own.waiting := by
    intro idle own queue offline
    have member : t ∈ getTasks m.curQ ++ m.parked := by simpa [Memory.waiting, Memory.hand, idle] using member
    rw [Memory.waiting, Memory.parked, queue, offline]
    exact List.mem_append_left _ member
  have event := resume_event taken
  cases happens : a.event m with
  | none =>
    rw [happens] at event
    exact .inl (alike event member)
  | some e =>
    rw [happens] at event
    obtain ⟨own, moved, same⟩ := event
    cases e with
    | turn contexts online accepted =>
      cases a with
      | sysOp online' accepted' => exact waiting_sysOpNext taken member going system
      | recvEndDelete =>
        obtain ⟨v, -, other⟩ := Option.map_eq_some_iff.mp happens
        cases other
      | recvPut | recvDelete =>
        simp only [Action.event] at happens
        split at happens <;> cases happens
      | _ => cases happens
    | put tasks =>
      left
      simp only [runnerStep] at moved
      split at moved
      · cases moved
        refine alike same ?_
        simp only [Memory.waiting, List.mem_append, mem_pushAll] at member ⊢
        exact member.imp_left (Or.imp_left .inr)
      · cases moved
    | delete msg =>
      left
      simp only [runnerStep] at moved
      split at moved
      · cases moved
        exact alike same (waiting_deleteTask indexed owned member (spared msg happens))
      · cases moved
    | connect thingId up =>
      left
      simp only [runnerStep] at moved
      split at moved
      · rename_i stop
        cases moved
        refine alike same ?_
        cases up with
        | true =>
          have back := @waiting_connected m thingId t parked member
          have hand : (m.connected thingId).hand = [] := by
            rw [Memory.connected]
            split <;> simp [Memory.hand, stop]
          rw [Memory.waiting, hand, List.append_nil] at back
          exact List.mem_append_left _ back
        | false => exact idle stop _ rfl rfl
      · cases moved
    | tick =>
      left
      simp only [runnerStep] at moved
      split at moved
      · rename_i stop
        cases moved
        exact alike same (idle stop _ rfl rfl)
      · cases moved
    | sent =>
      left
      simp only [runnerStep] at moved
      split at moved
      · rename_i c u stop
        cases moved
        refine alike same ?_
        have member : t ∈ getTasks m.curQ ++ m.parked := by simpa [Memory.waiting, Memory.hand, stop] using member
        exact List.mem_append_left _ member
      · cases moved

/-- What is in a list stays there when another one is replaced. -/
theorem mem_set_or {α : Type} {xs : List α} {i : Nat} {old x : α} (found : xs[i]? = some old) (y : α)
    (member : x ∈ xs) : x = old ∨ x ∈ xs.set i y := by
  obtain ⟨k, here⟩ := List.getElem?_of_mem member
  by_cases same : i = k
  · subst same
    exact .inl (Option.some.inj (here.symm.trans found))
  · exact .inr (List.mem_of_getElem? ((List.getElem?_set_ne same).trans here))

theorem mem_set_found {α : Type} {xs : List α} {i : Nat} {old : α} (found : xs[i]? = some old) (y : α) :
    y ∈ xs.set i y :=
  List.mem_of_getElem? (List.getElem?_set_self (List.getElem?_eq_some_iff.mp found).1)

/-- A worker goes on, or its result is to be reported. -/
theorem running_step {w : Worker} (taken : resume now m reply a = some m') (member : w ∈ m.workers)
    (going : w.pc.finishes = false) :
    (∃ w' ∈ m'.workers, w'.pc.finishes = false ∧ w'.task = w.task) ∨
      ∃ status, w.pc = .sendResult status ∧ m'.change = .update ⟨w.task, status⟩ := by
  have frame := resume_frame taken
  cases a with
  | sysOp online accepted =>
    simp only [resume, Memory.sysOpNext] at taken
    left
    refine ⟨w, ?_, going, rfl⟩
    split at taken <;> grind
  | recvResult i =>
    simp only [resume] at taken
    split at taken
    · rename_i t status idle sender
      cases taken
      rcases mem_set_or sender ⟨t, .finished⟩ member with rfl | still
      · exact .inr ⟨status, rfl, rfl⟩
      · exact .inl ⟨w, still, going, rfl⟩
    · cases taken
  | work i succeeded =>
    simp only [resume] at taken
    split at taken
    · rename_i t found
      cases taken
      left
      rcases mem_set_or found ⟨t, .sendResult (if succeeded then .succeeded else .failed)⟩ member with rfl | still
      · exact ⟨_, mem_set_found found _, rfl, rfl⟩
      · exact ⟨w, still, going, rfl⟩
    · cases taken
  | _ => exact .inl ⟨w, frame.workers rfl ▸ member, going, rfl⟩

theorem results_step (results : Results m) (taken : resume now m reply a = some m') : Results m' := by
  have frame := resume_frame taken
  cases a with
  | sysOp online accepted =>
    simp only [resume, Memory.sysOpNext] at taken
    intro w member status result
    split at taken <;> grind [Results]
  | recvResult i =>
    simp only [resume] at taken
    split at taken
    · cases taken
      intro w member status result
      rcases List.mem_or_eq_of_mem_set member with old | rfl
      · exact results w old status result
      · cases result
    · cases taken
  | work i succeeded =>
    simp only [resume] at taken
    split at taken
    · cases taken
      intro w member status result
      rcases List.mem_or_eq_of_mem_set member with old | rfl
      · exact results w old status result
      · cases result
        cases succeeded <;> rfl
    · cases taken
  | _ => rwa [Results, frame.workers rfl]

/-- A report waits for its write. -/
theorem reported_stays {msg : TaskChangeMsg} (taken : resume now m reply a = some m') (here : m.change = .update msg) :
    (∃ ok, a = .change ok) ∨ m'.change = .update msg := by
  have frame := resume_frame taken
  cases a with
  | change ok => exact .inl ⟨ok, rfl⟩
  | recvSent | recvResult _ | recvChange => simp [resume, here] at taken
  | _ => exact .inr (frame.change rfl ▸ here)

/-- A closure stays, goes on, or meets a loop. -/
theorem closure_step {closure : Closure} (taken : resume now m reply a = some m') (member : closure ∈ m.closures) :
    closure ∈ m'.closures ∨
      (∃ k ok next, a = .run k ok ∧ m.closures[k]? = some closure ∧
        Memory.closureNext reply closure = some next ∧ next ∈ m'.closures) ∨
      (∃ k item, a = .recvPending k ∧ m.closures[k]? = some (.addPendingJob item) ∧ closure = .addPendingJob item) ∨
      ∃ operation msg, closure = .submitted (.delete operation msg) := by
  have frame := resume_frame taken
  cases a with
  | recvPending k =>
    obtain ⟨item, idle, sender, rfl⟩ := resume_recvPending taken
    rcases mem_set_or sender .finished member with same | still
    · exact .inr (.inr (.inl ⟨k, item, rfl, sender, same⟩))
    · exact .inl still
  | recvDelete k =>
    obtain ⟨operation, msg, idle, sender, system, rfl⟩ := resume_recvDelete taken
    have same := (Memory.deleteTask_frame msg m).2.2.1.closures
    rcases mem_set_or sender (.deleted msg) member with same | still
    · exact .inr (.inr (.inr ⟨operation, msg, same⟩))
    · left
      rwa [Memory.setClosure, same]
  | serve k ok =>
    obtain ⟨call, pc, found, serves, rfl⟩ := resume_serve taken
    exact .inl (List.mem_append_left _ member)
  | run k ok =>
    obtain ⟨old, next, found, continues, rfl⟩ := resume_run taken
    rcases mem_set_or found next member with rfl | still
    · exact .inr (.inl ⟨k, ok, next, rfl, found, continues, mem_set_found found next⟩)
    · exact .inl still
  | _ => exact .inl (frame.closures rfl ▸ member)

theorem Tracked.of_item {v : PendingJobItem} (member : v ∈ m.pendingJobs) (named : v.context.jobId = jobId)
    (within : Lists taskId v.tasks) (free : ∀ i l tasks remain, m.rollout ≠ .timeout i l tasks remain) :
    Tracked jobId taskId m := by
  obtain ⟨k, found⟩ := List.getElem?_of_mem member
  exact .pending k v found named (by rwa [left_of_free free])

/-- The removal of one job leaves the items of the others. -/
theorem mem_swept {other : String} {force moved : Bool} {pending left : List PendingJobItem}
    (ran : swept other force moved pending = some left) {v : PendingJobItem} (member : v ∈ pending)
    (apart : v.context.jobId ≠ other) : v ∈ left := by
  have stays : ¬Doomed other force v := fun doomed => apart doomed.1
  have same : thinned other v = v := thinned_of_other apart
  fun_induction swept other force moved pending generalizing left with
  | case1 moved => cases member
  | case2 u doomed => cases ran
  | case3 moved u doomed =>
    cases List.mem_singleton.mp member
    exact absurd doomed stays
  | case4 moved u _ =>
    cases ran
    cases List.mem_singleton.mp member
    exact List.mem_singleton.mpr same.symm
  | case5 moved u w doomed ih =>
    refine ih ran ((List.mem_cons.mp member).resolve_left ?_)
    rintro rfl
    exact stays doomed
  | case6 moved u w doomed x more ih =>
    obtain ⟨rest, later, rfl⟩ := Option.map_eq_some_iff.mp ran
    rcases List.mem_cons.mp member with rfl | behind
    · exact absurd doomed stays
    · rcases List.mem_cons.mp behind with rfl | behind
      · exact List.mem_cons_self
      · exact List.mem_cons_of_mem _ (ih later behind)
  | case7 moved u w rest _ ih =>
    obtain ⟨left, later, rfl⟩ := Option.map_eq_some_iff.mp ran
    rcases List.mem_cons.mp member with rfl | behind
    · rw [same]
      exact List.mem_cons_self
    · exact List.mem_cons_of_mem _ (ih later behind)

theorem mem_of_removed {other : String} {force : Bool} {received : Memory}
    (removed : m.receiveRemove other force = some received) {v : PendingJobItem} (member : v ∈ m.pendingJobs)
    (apart : v.context.jobId ≠ other) : v ∈ received.pendingJobs := by
  obtain ⟨rest, forget, ran, rfl⟩ := receiveRemove_cases removed
  refine @mem_swept other force false m.pendingJobs rest ?_ v member apart
  rw [← removePendingJob_eq, ran]
  rfl

/-- The ways in which a task leaves its item, other than in a batch for a loop of the runner. -/
inductive Loses (now : Int) (reply : Reply) (m : Memory) (k : Nat) (v : PendingJobItem) (taskId : Int) : Prop
  | drained (l : Nat) (t : Task) (here : m.rollout = .drain k l) (ends : isJobToTerminal v.context.status = true)
      (member : t ∈ v.tasks) (same : t.taskId = taskId) (waits : isTaskOngoing t.status = false)
  | stopped (l : Nat) (t : Task) (config : SchedulingConfig) (here : m.rollout = .outOfTime k l)
      (late : isJobScheduleBeforeStartTime now v.context = false) (scheduled : v.context.scheduling = some config)
      (stops : config.endBehavior = .stopRollout) (member : t ∈ v.tasks) (same : t.taskId = taskId)
      (waits : isTaskOngoing t.status = false)
  | reloaded (l : Nat) (rows : List (Int × TaskEntity)) (here : m.rollout = .reload k l)
      (replied : reply = .tasks rows) (gone : ¬Lists taskId (toTasks rows))
  | timedOut (l : Nat) (t : Task) (rest remain : List Task) (minutes : Int)
      (here : m.rollout = .timeout k l (t :: rest) remain) (limit : timeoutMinutes v.context = some minutes)
      (late : isTimeout now minutes t = true) (same : t.taskId = taskId)
  | cleared (l : Nat) (here : m.rollout = .clear k l) (within : Lists taskId v.tasks)
  | custom (l : Nat) (here : m.rollout = .publish k l) (operation : isSysOp v.context.operation = false)
      (within : Lists taskId (v.tasks.take (rolloutCount now v)))

section

variable {k i l : Nat} {v u : PendingJobItem} (found : m.pendingJobs[k]? = some v) (named : v.context.jobId = jobId)

include found named

/-- An item is replaced. -/
theorem Tracked.of_set (within : Lists taskId v.tasks) (list : m'.pendingJobs = m.pendingJobs.set i u)
    (free : ∀ i l tasks remain, m'.rollout ≠ .timeout i l tasks remain)
    (own : k = i → u.context.jobId = jobId ∧ Lists taskId u.tasks) : Tracked jobId taskId m' := by
  by_cases here : k = i
  · subst here
    obtain ⟨named', within'⟩ := own rfl
    exact .of_item (list ▸ mem_set_found found u) named' within' free
  · refine .of_item (v := v) ?_ named within free
    rw [list]
    exact List.mem_of_getElem? ((List.getElem?_set_ne (Ne.symm here)).trans found)

/-- Another item is deleted. -/
theorem Tracked.of_erase (within : Lists taskId v.tasks) (list : m'.pendingJobs = m.pendingJobs.eraseIdx i)
    (free : ∀ i l tasks remain, m'.rollout ≠ .timeout i l tasks remain) (apart : k ≠ i) :
    Tracked jobId taskId m' := by
  refine .of_item (v := v) ?_ named within free
  rw [list]
  exact List.mem_eraseIdx_iff_getElem?.mpr ⟨k, apart, found⟩

/-- The timeout filter begins with an item. -/
theorem Tracked.of_filter {tasks : List Task} (within : Lists taskId v.tasks) (place : m.pendingJobs[i]? = some u)
    (own : k = i → Lists taskId tasks) :
    Tracked jobId taskId ((m.setItem i (u.withTasks tasks)).goto (.timeout i l tasks [])) := by
  by_cases here : k = i
  · subst here
    cases found.symm.trans place
    refine .pending k (v.withTasks tasks) (getElem?_set_found found _) named ?_
    simpa [Memory.left, Memory.goto] using own rfl
  · refine .pending k v ((List.getElem?_set_ne (Ne.symm here)).trans found) named ?_
    simpa [Memory.left, Memory.goto, Ne.symm here] using within

/-- The timeout filter goes on. -/
theorem Tracked.of_filtering {tasks remain tasks' remain' : List Task} (here : m.rollout = .timeout i l tasks remain)
    (within : Lists taskId (m.left k v))
    (keeps : i = k → Lists taskId (tasks ++ remain) → Lists taskId (tasks' ++ remain')) :
    Tracked jobId taskId (m.goto (.timeout i l tasks' remain')) := by
  refine .pending k v found named ?_
  rw [Memory.left, here] at within
  simp only [Memory.left, Memory.goto]
  dsimp only at within
  by_cases same : i = k
  · rw [if_pos same] at within ⊢
    exact keeps same within
  · rwa [if_neg same] at within ⊢

/-- The timeout filter leaves what it kept. -/
theorem Tracked.of_filtered {remain : List Task} {pc : RolloutPc} (here : m.rollout = .timeout i l [] remain)
    (place : m.pendingJobs[i]? = some u) (within : Lists taskId (m.left k v))
    (free : ∀ i l tasks remain, pc ≠ .timeout i l tasks remain) :
    Tracked jobId taskId ((m.setItem i (u.withTasks remain)).goto pc) := by
  rw [Memory.left, here] at within
  dsimp only at within
  by_cases same : i = k
  · subst same
    cases found.symm.trans place
    rw [if_pos rfl] at within
    exact .of_item (mem_set_found found (v.withTasks remain)) named within free
  · rw [if_neg same] at within
    exact .of_item (List.mem_of_getElem? ((List.getElem?_set_ne same).trans found)) named within free

/-- A batch of the item goes to the runner, the rest of its tasks stays. -/
theorem Tracked.of_published {count : Nat} (place : m.pendingJobs[i]? = some u) (within : Lists taskId v.tasks)
    (system : k = i → Lists taskId (v.tasks.take count) → isSysOp v.context.operation = true) :
    Tracked jobId taskId (((m.setJobContext u.context).setItem i (u.withTasks (u.tasks.drop count))).goto
      (if isSysOp u.context.operation then .put i l (u.tasks.take count) else .rolled i l count)) := by
  have free : ∀ i' l' tasks' remain', (if isSysOp u.context.operation then
      RolloutPc.put i l (u.tasks.take count) else .rolled i l count) ≠ .timeout i' l' tasks' remain' := by
    intro i' l' tasks' remain'
    split <;> simp
  by_cases same : k = i
  · subst same
    cases found.symm.trans place
    obtain ⟨t, member, alike⟩ := within
    rw [← List.take_append_drop count v.tasks] at member
    rcases List.mem_append.mp member with batch | later
    · refine .put k l (v.tasks.take count) (v.withTasks (v.tasks.drop count)) ?_ (getElem?_set_found found _) named
        ⟨t, batch, alike⟩
      simp [Memory.goto, system rfl ⟨t, batch, alike⟩]
    · exact .of_item (mem_set_found found (v.withTasks (v.tasks.drop count))) named ⟨t, later, alike⟩ free
  · exact .of_item (List.mem_of_getElem? ((List.getElem?_set_ne (Ne.symm same)).trans found)) named within free

end

section

variable {k l : Nat} {v : PendingJobItem}

theorem lists_of_left {pc : RolloutPc} (within : Lists taskId (m.left k v)) (here : m.rollout = pc)
    (free : ∀ i l tasks remain, pc ≠ .timeout i l tasks remain) : Lists taskId v.tasks := by
  rwa [left_of_free fun i l tasks remain stop => free i l tasks remain (here ▸ stop)] at within

/-- Where nothing has a time limit the filter has not begun. -/
theorem lists_of_unlimited {i l : Nat} {tasks remain : List Task} {u : PendingJobItem} (unlimited : Unlimited m)
    (here : m.rollout = .timeout i l tasks remain) (found : m.pendingJobs[k]? = some v)
    (place : m.pendingJobs[i]? = some u) (limit : timeoutMinutes u.context = none)
    (within : Lists taskId (m.left k v)) : Lists taskId v.tasks := by
  rw [Memory.left, here] at within
  dsimp only at within
  by_cases same : i = k
  · subst same
    cases found.symm.trans place
    rwa [if_pos rfl, unlimited i l tasks remain v here found limit] at within
  · rwa [if_neg same] at within

theorem lists_ongoing {t : Task} (member : t ∈ v.tasks) (same : t.taskId = taskId)
    (waits : isTaskOngoing t.status ≠ false) : Lists taskId (ongoingTasks v.tasks) :=
  ⟨t, List.mem_filter.mpr ⟨member, by simpa using waits⟩, same⟩

/-- What the loop does not drain stays. -/
theorem lists_drained (here : m.rollout = .drain k l) (within : Lists taskId v.tasks)
    (keeps : ¬Loses now reply m k v taskId) : Lists taskId (drained v) := by
  rw [drained]
  split
  · rename_i ends
    obtain ⟨t, member, same⟩ := within
    exact lists_ongoing member same fun waits => keeps (.drained l t here ends member same waits)
  · exact within

open Memory in
/-- The loop keeps the task of an item or hands it on, unless it loses it. -/
theorem pending_rolls (rolls : Rolls now reply m m') (unlimited : Unlimited m) (found : m.pendingJobs[k]? = some v)
    (named : v.context.jobId = jobId) (within : Lists taskId (m.left k v)) (keeps : ¬Loses now reply m k v taskId) :
    Tracked jobId taskId m' := by
  cases rolls with
  | jobsLoaded _ here | tasksLoaded _ _ here | started here | terminated _ _ _ here | passed _ _ here
  | runs _ _ _ here | outside _ _ _ here | finished _ _ here | early _ _ _ here | tasksEnded _ _ here
  | endFailed _ _ _ here | endForced _ _ _ here | endKept _ _ _ here | reloadFailed _ _ here =>
    exact .of_item (List.mem_of_getElem? found) named (lists_of_left within here (by simp)) (by simp [goto])
  | preloaded id j tasks rest here filled =>
    exact .of_item (List.mem_append_left _ (List.mem_of_getElem? found)) named (lists_of_left within here (by simp))
      (by simp)
  | starts i l u here _ place | rolled i l count u here place =>
    have held := lists_of_left within here (by simp)
    refine .of_set found named held rfl (by simp [goto]) ?_
    rintro rfl
    cases found.symm.trans place
    exact ⟨named, held⟩
  | empty i l u here place nothing =>
    have held := lists_of_left within here (by simp)
    refine .of_set found named held rfl (by simp [goto]) ?_
    rintro rfl
    cases found.symm.trans place
    exact ⟨named, nothing ▸ lists_drained here held keeps⟩
  | filled i l u here place something =>
    have held := lists_of_left within here (by simp)
    refine .of_filter found named held place ?_
    rintro rfl
    cases found.symm.trans place
    exact lists_drained here held keeps
  | kept i l u here | cleared i l u here =>
    have held := lists_of_left within here (by simp)
    refine .of_erase found named held rfl (by simp [goto]) ?_
    rintro rfl
    exact keeps (.cleared l here held)
  | stopped i l u config here place late scheduled stops =>
    have held := lists_of_left within here (by simp)
    refine .of_filter found named held place ?_
    rintro rfl
    cases found.symm.trans place
    obtain ⟨t, member, same⟩ := held
    exact lists_ongoing member same fun waits =>
      keeps (.stopped l t config here late scheduled stops member same waits)
  | ended i l u config here place =>
    have held := lists_of_left within here (by simp)
    have free : ∀ i' l' tasks remain, (if isSysOp u.context.operation then RolloutPc.endSend i l else .endTasks i l) ≠
        .timeout i' l' tasks remain := by
      intro i' l' tasks remain
      split <;> simp
    refine .of_set found named held rfl free ?_
    rintro rfl
    cases found.symm.trans place
    exact ⟨named, held⟩
  | reloaded i l u rows here place replied =>
    refine .of_filter found named (lists_of_left within here (by simp)) place ?_
    rintro rfl
    by_contra gone
    exact keeps (.reloaded l rows here replied gone)
  | unlimited i l tasks remain u here place limit =>
    exact .of_item (List.mem_of_getElem? found) named (lists_of_unlimited unlimited here found place limit within)
      (by simp [goto])
  | timedOut i l t rest remain u minutes here place limit late =>
    refine .of_filtering found named here within ?_
    rintro rfl ⟨t', member, same⟩
    cases found.symm.trans place
    refine ⟨t', (List.mem_cons.mp member).resolve_left ?_, same⟩
    rintro rfl
    exact keeps (.timedOut l t' rest remain minutes here limit late same)
  | remains i l t rest remain u minutes here =>
    refine .of_filtering found named here within ?_
    rintro - ⟨t', member, same⟩
    refine ⟨t', ?_, same⟩
    simp only [List.mem_append, List.mem_cons, List.not_mem_nil, or_false] at member ⊢
    tauto
  | checked i l remain u minutes here place limit =>
    refine .of_filtered found named here place within fun i' l' tasks' remain' => ?_
    split <;> simp
  | published i l u here place =>
    refine .of_published found named place (lists_of_left within here (by simp)) ?_
    rintro rfl batch
    cases found.symm.trans place
    by_contra custom
    exact keeps (.custom l here (by simpa using custom) batch)
  | rolledOut i l count u here place nothing =>
    have held := lists_of_left within here (by simp)
    refine .of_erase found named held rfl (by simp [goto]) ?_
    rintro rfl
    cases found.symm.trans place
    obtain ⟨t, member, -⟩ := held
    rw [nothing] at member
    cases member

end

/-- The list keeps the task of an item. -/
theorem pending_step {k : Nat} {v : PendingJobItem} (taken : resume now m reply a = some m')
    (unlimited : Unlimited m) (found : m.pendingJobs[k]? = some v) (named : v.context.jobId = jobId)
    (within : Lists taskId (m.left k v)) (keeps : ∀ ok, a = .rollout ok → ¬Loses now reply m k v taskId)
    (removal : ∀ i r operation force, a = .recvRemove i → m.calls[i]? = some ⟨r, .sendRemove operation⟩ →
      r.removal ≠ some (jobId, force))
    (finished : ∀ todo, a = .recvFinished → m.watch ≠ .sendRemove jobId todo) : Tracked jobId taskId m' := by
  have frame := resume_frame taken
  have idle : m.rollout = .select → Lists taskId v.tasks := by
    intro here
    rwa [left_of_free (by simp [here])] at within
  have quiet : m'.rollout = m.rollout → m'.pendingJobs = m.pendingJobs → Tracked jobId taskId m' := by
    intro still list
    refine .pending k v (list ▸ found) named ?_
    rwa [Memory.left, still]
  cases a with
  | rollout ok => exact pending_rolls (Memory.rolls_of_rolloutNext taken) unlimited found named within (keeps ok rfl)
  | rolloutTick =>
    simp only [resume] at taken
    split at taken
    · rename_i here
      cases taken
      exact .of_item (List.mem_of_getElem? found) named (idle here) (by simp [Memory.startPass, Memory.goto])
    · cases taken
  | recvPending i =>
    obtain ⟨item, here, sender, rfl⟩ := resume_recvPending taken
    exact .of_item (List.mem_append_left _ (List.mem_of_getElem? found)) named (idle here)
      (by simp [Memory.startPass, Memory.goto])
  | recvUpdate i =>
    obtain ⟨other, timeout, here, sender, rfl⟩ := resume_recvUpdate taken
    have stop : ∀ i' l' tasks' remain', ((m.updateContext other timeout).setCall i
        ⟨.updateJob other (.configs timeout), .returned true⟩).startPass.rollout ≠ .timeout i' l' tasks' remain' := by
      simp [Memory.startPass, Memory.goto]
    rcases updateContext_cases other timeout m with same | ⟨j, u, timeout', place, about, same⟩
    · refine .of_item (v := v) ?_ named (idle here) stop
      rw [same]
      exact List.mem_of_getElem? found
    · have list : ((m.updateContext other timeout).setCall i
          ⟨.updateJob other (.configs timeout), .returned true⟩).startPass.pendingJobs =
          m.pendingJobs.set j (u.withTimeout timeout') := by rw [same]; rfl
      rcases mem_set_or place (u.withTimeout timeout') (List.mem_of_getElem? found) with rfl | still
      · refine .of_item (v := v.withTimeout timeout') ?_ named (idle here) stop
        rw [list]
        exact mem_set_found place _
      · exact .of_item (list ▸ still) named (idle here) stop
  | recvRemove i =>
    obtain ⟨r, operation, other, force, received, here, sender, removes, removed, rfl⟩ := resume_recvRemove taken
    have apart : v.context.jobId ≠ other := by
      rintro rfl
      exact removal i r operation force rfl sender (named ▸ removes)
    refine .of_item (mem_of_removed removed (List.mem_of_getElem? found) apart) named (idle here) ?_
    obtain ⟨rest, forget, -, rfl⟩ := receiveRemove_cases removed
    simp [Memory.setCall, here]
  | recvFinished =>
    obtain ⟨other, todo, received, here, sender, removed, rfl⟩ := resume_recvFinished taken
    have apart : v.context.jobId ≠ other := by
      rintro rfl
      exact finished todo rfl (named ▸ sender)
    refine .of_item (mem_of_removed removed (List.mem_of_getElem? found) apart) named (idle here) ?_
    obtain ⟨rest, forget, -, rfl⟩ := receiveRemove_cases removed
    simp [here]
  | recvPut =>
    obtain ⟨i, l, rolloutTasks, -, here, rfl⟩ := resume_recvPut taken
    rw [left_of_free (by simp [here])] at within
    exact .of_item (List.mem_of_getElem? found) named within (by simp)
  | recvEndDelete =>
    obtain ⟨i, l, u, -, here, place, rfl⟩ := resume_recvEndDelete taken
    have same := (Memory.deleteTask_frame (.job u.context.jobId) m).1.pendingJobs
    rw [left_of_free (by simp [here])] at within
    refine .of_item (v := v) ?_ named within (by simp [Memory.goto])
    simp only [Memory.goto, same]
    exact List.mem_of_getElem? found
  | _ => exact quiet (frame.rollout rfl) (frame.pendingJobs rfl)

/-- The preload goes through its entries. -/
theorem preload_tracked {jobs : List (String × JobEntity × List Task)} {j : JobEntity} {tasks : List Task}
    (taken : resume now m reply a = some m') (here : m.rollout = .preload jobs) (listed : (jobId, j, tasks) ∈ jobs)
    (within : Lists taskId tasks) : Tracked jobId taskId m' := by
  rcases alone_still (by rw [here]; rfl) taken with ⟨ok, rfl⟩ | ⟨still, -⟩
  · cases Memory.rolls_of_rolloutNext taken with
    | started stop =>
      rw [here] at stop
      cases stop
      cases listed
    | terminated id j' rest stop =>
      rw [here] at stop
      cases stop
      rcases List.mem_cons.mp listed with same | later
      · cases same
        obtain ⟨t, member, -⟩ := within
        cases member
      · exact .preload rest j tasks rfl later within
    | preloaded id j' tasks' rest stop =>
      rw [here] at stop
      cases stop
      rcases List.mem_cons.mp listed with same | later
      · cases same
        exact .of_item (List.mem_append_right _ List.mem_cons_self) rfl within (by simp)
      · exact .preload rest j tasks rfl later within
    | _ => simp_all
  · exact .preload jobs j tasks (still.trans here) listed within

/-- A batch waits for the runner. -/
theorem put_tracked {i l : Nat} {rolloutTasks : List Task} {v : PendingJobItem} (taken : resume now m reply a = some m')
    (home : Held (fun other t => t.jobId = other) m) (here : m.rollout = .put i l rolloutTasks)
    (found : m.pendingJobs[i]? = some v) (named : v.context.jobId = jobId) (within : Lists taskId rolloutTasks) :
    Tracked jobId taskId m' := by
  have frame := resume_frame taken
  cases a with
  | recvPut =>
    obtain ⟨i', l', batch, idle, stop, rfl⟩ := resume_recvPut taken
    rw [here] at stop
    cases stop
    obtain ⟨t, member, same⟩ := within
    obtain ⟨u, place, own⟩ := home.put i l rolloutTasks here
    cases found.symm.trans place
    refine .waiting t ?_ ((own t member).trans named) same
    exact List.mem_append_left _ (List.mem_append_left _ (mem_pushAll.mpr (.inl member)))
  | rollout ok => simp [resume, Memory.rolloutNext, here] at taken
  | rolloutTick => simp [resume, here] at taken
  | recvPending k =>
    obtain ⟨item, stop, -⟩ := resume_recvPending taken
    simp [here] at stop
  | recvUpdate k =>
    obtain ⟨other, timeout, stop, -⟩ := resume_recvUpdate taken
    simp [here] at stop
  | recvRemove k =>
    obtain ⟨r, operation, other, force, received, stop, -⟩ := resume_recvRemove taken
    simp [here] at stop
  | recvFinished =>
    obtain ⟨other, todo, received, stop, -⟩ := resume_recvFinished taken
    simp [here] at stop
  | recvEndDelete =>
    obtain ⟨k, n, u, idle, stop, -⟩ := resume_recvEndDelete taken
    simp [here] at stop
  | _ => exact .put i l rolloutTasks v (frame.rollout rfl ▸ here) (frame.pendingJobs rfl ▸ found) named within

/-- An item is cleared when it has no tasks, or at the end of a schedule that ends it by force. -/
theorem emptied_step {forced : Prop} (taken : resume now m reply a = some m')
    (forces : ∀ i l v, m.rollout = .endJob i l true → m.pendingJobs[i]? = some v → v.context.jobId = jobId →
      endForce v.context = true → forced)
    (emptied : Emptied forced jobId m) : Emptied forced jobId m' := by
  intro i l v stop found named
  have frame := resume_frame taken
  have still : m'.rollout = m.rollout → m'.pendingJobs = m.pendingJobs → v.tasks = [] ∨ forced :=
    fun same list => emptied i l v (same ▸ stop) (list ▸ found) named
  cases a with
  | rollout ok =>
    cases Memory.rolls_of_rolloutNext taken with
    | empty i' l' u here place nothing =>
      rcases stop with stop | stop <;> cases stop
      have found : (m.pendingJobs.set i (u.withTasks []))[i]? = some v := found
      rw [getElem?_set_found place] at found
      cases found
      exact .inl rfl
    | finished i' l' here =>
      rcases stop with stop | stop <;> cases stop
      exact emptied i l v (.inl here) found named
    | checked i' l' remain u minutes here place =>
      have stop : (if remain = [] then RolloutPc.clear i' l' else .publish i' l') = .finish i l ∨
        (if remain = [] then RolloutPc.clear i' l' else .publish i' l') = .clear i l := stop
      split at stop
      · rename_i nothing
        rcases stop with stop | stop <;> cases stop
        have found : (m.pendingJobs.set i (u.withTasks remain))[i]? = some v := found
        rw [getElem?_set_found place] at found
        cases found
        exact .inl nothing
      · rcases stop with stop | stop <;> cases stop
    | endForced i' l' u here place replied force =>
      rcases stop with stop | stop <;> cases stop
      cases found.symm.trans place
      exact .inr (forces i l v here place named force)
    | ended | published =>
      simp only [Memory.goto] at stop
      split at stop <;> rcases stop with stop | stop <;> cases stop
    | _ => rcases stop with stop | stop <;> cases stop
  | rolloutTick =>
    simp only [resume] at taken
    split at taken <;> cases taken
    rcases stop with stop | stop <;> cases stop
  | recvPending k =>
    obtain ⟨item, here, sender, rfl⟩ := resume_recvPending taken
    rcases stop with stop | stop <;> cases stop
  | recvUpdate k =>
    obtain ⟨other, timeout, here, sender, rfl⟩ := resume_recvUpdate taken
    rcases stop with stop | stop <;> cases stop
  | recvRemove k =>
    obtain ⟨r, operation, other, force, received, here, -, -, removed, rfl⟩ := resume_recvRemove taken
    obtain ⟨rest, forget, -, rfl⟩ := receiveRemove_cases removed
    simp [Memory.setCall, here] at stop
  | recvFinished =>
    obtain ⟨other, todo, received, here, -, removed, rfl⟩ := resume_recvFinished taken
    obtain ⟨rest, forget, -, rfl⟩ := receiveRemove_cases removed
    simp [here] at stop
  | recvPut =>
    obtain ⟨k, n, rolloutTasks, idle, here, rfl⟩ := resume_recvPut taken
    rcases stop with stop | stop <;> cases stop
  | recvEndDelete =>
    obtain ⟨k, n, u, idle, here, place, rfl⟩ := resume_recvEndDelete taken
    rcases stop with stop | stop <;> cases stop
  | _ => exact still (frame.rollout rfl) (frame.pendingJobs rfl)

end

end Tio.Job
