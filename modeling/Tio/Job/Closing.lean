import Tio.Job.Unfinished

/-! The end of the window of a job. Its item is `CANCELED` from then on, and keeps only tasks
that were sent: the others were canceled in the database before. -/

namespace Tio.Job

open Tio.Core TaskQueue

/-- No stored task of the job waits to be sent. -/
def Unqueued (jobId : String) (db : Db) : Prop :=
  ∀ row ∈ db.tasks, row.2.jobId = jobId → row.2.status ≠ .queued

/-- The index of the item whose end is being handled, until it is cleared. -/
def RolloutPc.closing : RolloutPc → Option Nat
  | .endSend i _ | .endTasks i _ | .endJob i _ _ | .reload i _ | .clear i _ => some i
  | _ => none

/-- An item of the job that ended has only tasks that were sent. -/
def PendingJobItem.Thin (jobId : String) (v : PendingJobItem) : Prop :=
  v.context.jobId = jobId → isJobToTerminal v.context.status = true → ∀ t ∈ v.tasks, isTaskOngoing t.status = true

/-- All items but the one whose end is being handled are thin. -/
def Thinned (jobId : String) (m : Memory) : Prop :=
  ∀ k v, m.pendingJobs[k]? = some v → m.rollout.closing ≠ some k → v.Thin jobId

/-- The rows of the job after its tasks were canceled at the end of its window. -/
structure Canceled (jobId : String) (s : State) : Prop where
  endJob : ∀ i l ok v, s.memory.rollout = .endJob i l ok → s.memory.pendingJobs[i]? = some v →
    v.context.jobId = jobId → ok = true ∧ Unqueued jobId s.db ∧ (endForce v.context = true → AllOver jobId s.db)
  reload : ∀ i l v, s.memory.rollout = .reload i l → s.memory.pendingJobs[i]? = some v →
    v.context.jobId = jobId → Unqueued jobId s.db

section

variable {now : Int} {m m' : Memory} {reply : Reply} {a : Action} {s s' : State} {jobId : String} {taskId : Int}

/-- A change that is reported is one away from the queue. -/
theorem changes_step (results : Results m) (changes : ∀ msg, m.change = .update msg → msg.status ≠ .queued)
    (taken : resume now m reply a = some m') : ∀ msg, m'.change = .update msg → msg.status ≠ .queued := by
  intro msg here
  have frame := resume_frame taken
  cases a with
  | recvSent =>
    simp only [resume] at taken
    split at taken <;> cases taken
    cases here
    simp
  | recvResult i =>
    simp only [resume] at taken
    split at taken
    · rename_i t status idle sender
      cases taken
      cases here
      have ends := results _ (List.mem_of_getElem? sender) status rfl
      rintro rfl
      cases ends
    · cases taken
  | change ok =>
    simp only [resume, Memory.changeNext] at taken
    split at taken <;> cases taken
    cases here
  | recvChange =>
    simp only [resume] at taken
    split at taken <;> cases taken
    cases here
  | _ => exact changes msg (frame.change rfl ▸ here)

/-- No task goes back to the queue. -/
theorem unqueued_step (keyed : Keyed s.db) (changes : ∀ msg, s.memory.change = .update msg → msg.status ≠ .queued)
    (taken : step s a = some s') (unqueued : Unqueued jobId s.db)
    (others : ∀ (k : Nat) (context : JobContext) (things : List String),
      s.memory.closures[k]? = some (.submitted (.createJob context things)) → context.jobId ≠ jobId) :
    Unqueued jobId s'.db := by
  rcases step_db taken with ⟨same, -⟩ | ⟨op, requested, -, same⟩
  · rwa [same]
  · intro row member named
    rw [same] at member
    cases tasksAfter_exec keyed s.clock op with
    | same _ tasks => exact unqueued row (tasks ▸ member) named
    | canceled _ force chosen _ tasks =>
      rw [tasks] at member
      obtain ⟨old, present, rfl⟩ := List.mem_map.mp member
      by_cases picked : chosen old = true
      · simp [picked, canceledTask]
      · simp only [picked] at named ⊢
        exact unqueued old present named
    | timedOut _ tasks =>
      rw [tasks] at member
      obtain ⟨old, present, rfl⟩ := List.mem_map.mp member
      by_cases picked : old.1 = ‹Int›
      · simp [picked]
      · simp only [picked] at named ⊢
        exact unqueued old present named
    | reported id status _ tasks =>
      obtain ⟨-, msg, here, -, rfl⟩ := request_reportTask.mp requested
      rw [tasks] at member
      obtain ⟨old, present, rfl⟩ := List.mem_map.mp member
      by_cases picked : old.1 = id
      · simpa [picked] using changes msg here
      · simp only [picked] at named ⊢
        exact unqueued old present named
    | deleted _ keep tasks =>
      rw [tasks] at member
      exact unqueued row (List.mem_filter.mp member).1 named
    | created fresh tasks =>
      rw [tasks] at member
      rcases List.mem_append.mp member with old | new
      · exact unqueued row old named
      · obtain ⟨ok, k, context, things, rfl, here, rfl⟩ := request_createTasks requested
        obtain ⟨thing, -, made⟩ := List.mem_map.mp (mem_of_numbered new)
        exact absurd ((congrArg TaskEntity.jobId made).trans named) (others k context things here)

theorem Thinned.same (thinned : Thinned jobId m) (list : m'.pendingJobs = m.pendingJobs)
    (closing : m.rollout.closing = none ∨ m.rollout.closing = m'.rollout.closing) : Thinned jobId m' := by
  intro k v found apart
  refine thinned k v (list ▸ found) ?_
  rcases closing with free | same
  · simp [free]
  · rwa [same]

/-- An item is replaced. -/
theorem Thinned.set {i : Nat} {u w : PendingJobItem} (thinned : Thinned jobId m) (place : m.pendingJobs[i]? = some w)
    (list : m'.pendingJobs = m.pendingJobs.set i u) (closing : ∀ k, m.rollout.closing = some k → k = i)
    (own : m'.rollout.closing ≠ some i → u.Thin jobId) : Thinned jobId m' := by
  intro k v found apart
  rw [list] at found
  by_cases here : i = k
  · subst here
    rw [getElem?_set_found place] at found
    cases found
    exact own apart
  · rw [List.getElem?_set_ne here] at found
    exact thinned k v found fun same => here (closing k same).symm

/-- An item is deleted. -/
theorem Thinned.erase {i : Nat} (thinned : Thinned jobId m) (list : m'.pendingJobs = m.pendingJobs.eraseIdx i)
    (closing : ∀ k, m.rollout.closing = some k → k = i) : Thinned jobId m' := by
  intro k v found apart
  obtain ⟨j, other, present⟩ := List.mem_eraseIdx_iff_getElem?.mp (list ▸ List.mem_of_getElem? found)
  exact thinned j v present fun same => other (closing j same)

theorem Thinned.here (thinned : Thinned jobId m) {i : Nat} {v : PendingJobItem} (found : m.pendingJobs[i]? = some v)
    (free : m.rollout.closing = none) : v.Thin jobId :=
  thinned i v found (by simp [free])

theorem thin_fewer {v : PendingJobItem} (thin : v.Thin jobId) {tasks : List Task} (fewer : ∀ t ∈ tasks, t ∈ v.tasks) :
    (v.withTasks tasks).Thin jobId :=
  fun named ends t member => thin named ends t (fewer t member)

theorem thin_ongoing {v : PendingJobItem} {tasks : List Task} (ongoing : ∀ t ∈ tasks, isTaskOngoing t.status = true) :
    (v.withTasks tasks).Thin jobId :=
  fun _ _ => ongoing

theorem ongoing_of_mem {tasks : List Task} {t : Task} (member : t ∈ ongoingTasks tasks) :
    isTaskOngoing t.status = true :=
  (List.mem_filter.mp member).2

open Memory in
theorem thinned_rolls (rolls : Rolls now reply m m') (thinned : Thinned jobId m) (staged : Staged m)
    (going : ∀ jobs, m.rollout = .preload jobs → ∀ j tasks, (jobId, j, tasks) ∈ jobs →
      isJobToTerminal (toContext jobId j).status = false)
    (written : ∀ i l ok v, m.rollout = .endJob i l ok → m.pendingJobs[i]? = some v → v.context.jobId = jobId →
      ok = true ∧ reply = .done)
    (read : ∀ i l v, m.rollout = .reload i l → m.pendingJobs[i]? = some v → v.context.jobId = jobId →
      ∃ rows, reply = .tasks rows ∧ ∀ t ∈ toTasks rows, isTaskOngoing t.status = true) : Thinned jobId m' := by
  cases rolls with
  | jobsLoaded _ here | tasksLoaded _ _ here | started here | terminated _ _ _ here | passed _ _ here
  | runs _ _ _ here | outside _ _ _ here | finished _ _ here | early _ _ _ here | unlimited _ _ _ _ _ here
  | timedOut _ _ _ _ _ _ _ here | remains _ _ _ _ _ _ _ here =>
    exact thinned.same rfl (.inl (by rw [here]; rfl))
  | tasksEnded _ _ here | endForced _ _ _ here | endKept _ _ _ here =>
    exact thinned.same rfl (.inr (by rw [here]; rfl))
  | preloaded id j tasks rest here filled =>
    intro k v found _
    rcases List.mem_append.mp (List.mem_of_getElem? found) with old | fresh
    · obtain ⟨i, place⟩ := List.getElem?_of_mem old
      exact thinned.here place (by rw [here]; rfl)
    · cases List.mem_singleton.mp fresh
      rintro rfl ends
      cases (going _ here j tasks List.mem_cons_self).symm.trans ends
  | starts i l u here _ place =>
    exact thinned.set place rfl (by simp [here, RolloutPc.closing]) fun _ _ ends => by cases ends
  | empty i l u here place =>
    exact thinned.set place rfl (by simp [here, RolloutPc.closing]) fun _ => thin_ongoing (by simp)
  | filled i l u here place =>
    refine thinned.set place rfl (by simp [here, RolloutPc.closing]) fun _ => ?_
    exact thin_fewer (thinned.here place (by rw [here]; rfl)) fun t => mem_drained
  | kept i l u here | cleared i l u here =>
    exact thinned.erase rfl (by simp [here, RolloutPc.closing])
  | rolledOut i l count u here =>
    exact thinned.erase rfl (by simp [here, RolloutPc.closing])
  | stopped i l u config here place =>
    exact thinned.set place rfl (by simp [here, RolloutPc.closing]) fun _ => thin_ongoing fun t => ongoing_of_mem
  | ended i l u config here place =>
    refine thinned.set place rfl (by simp [here, RolloutPc.closing]) fun other => absurd ?_ other
    simp only [goto]
    split <;> rfl
  | endFailed i l ok here failed =>
    intro k v found _
    by_cases same : k = i
    · subst same
      intro named
      obtain ⟨rfl, replied⟩ := written k l ok v here found named
      exact absurd replied (failed rfl)
    · exact thinned k v found (by simpa [here, RolloutPc.closing] using Ne.symm same)
  | reloaded i l u rows here place replied =>
    refine thinned.set place rfl (by simp [here, RolloutPc.closing]) fun _ named => ?_
    obtain ⟨rows', replied', ongoing⟩ := read i l u here place named
    cases replied.symm.trans replied'
    exact fun _ => ongoing
  | reloadFailed i l here failed =>
    intro k v found _
    by_cases same : k = i
    · subst same
      intro named
      obtain ⟨rows, replied, -⟩ := read k l v here found named
      exact absurd replied (failed rows)
    · exact thinned k v found (by simpa [here, RolloutPc.closing] using Ne.symm same)
  | checked i l remain u minutes here place limit =>
    refine thinned.set place rfl (by simp [here, RolloutPc.closing]) fun _ named ends t member => ?_
    have fewer := staged.checking i l [] remain u here place fun t => if isTaskOngoing t.status then 0 else 1
    have sent : tally (fun t : Task => if isTaskOngoing t.status then 0 else 1) u.tasks = 0 :=
      tally_eq_zero_iff.mpr fun t within => if_pos (thinned.here place (by rw [here]; rfl) named ends t within)
    have all := tally_eq_zero_iff.mp (Nat.le_zero.mp (sent ▸ fewer)) t member
    by_contra waits
    simp [waits] at all
  | published i l u here place =>
    refine thinned.set place rfl (by simp [here, RolloutPc.closing]) fun _ => ?_
    exact thin_fewer (thinned.here place (by rw [here]; rfl)) fun t => List.mem_of_mem_drop
  | rolled i l count u here place =>
    refine thinned.set place rfl (by simp [here, RolloutPc.closing]) fun _ named ends t member => ?_
    exact thinned.here place (by rw [here]; rfl) named ends t member

/-- At the start of a pass every item is thin. -/
theorem thinned_idle (taken : resume now m reply a = some m') (here : m.rollout = .select) (thinned : Thinned jobId m)
    (going : ∀ closure ∈ m.closures, ∀ context ∈ closure.context, context.jobId = jobId →
      isJobToTerminal context.status = false) : Thinned jobId m' := by
  intro k u place _ named ends
  have thin : ∀ v ∈ m.pendingJobs, v.Thin jobId := by
    intro v member
    obtain ⟨i, found⟩ := List.getElem?_of_mem member
    exact thinned.here found (by rw [here]; rfl)
  cases resume_items taken (List.mem_of_getElem? place) with
  | kept _ v _ member same fewer =>
    exact fun t within => thin v member (same ▸ named) (same ▸ ends) t (fewer t within)
  | updated _ v timeout member => exact thin v member named ends
  | received i item sender =>
    rw [going _ (List.mem_of_getElem? sender) _ rfl named] at ends
    cases ends
  | checked _ _ _ _ _ stop | starts _ _ _ _ stop | ended _ _ _ _ _ stop | reloaded _ _ _ _ _ stop
  | preloaded _ _ _ _ _ stop =>
    rw [here] at stop
    cases stop

theorem thinned_step (taken : resume now m reply a = some m') (thinned : Thinned jobId m) (staged : Staged m)
    (going : Making (fun context => isJobToTerminal context.status = false) jobId m)
    (written : ∀ i l ok v, m.rollout = .endJob i l ok → m.pendingJobs[i]? = some v → v.context.jobId = jobId →
      ok = true ∧ ((∃ ok, a = .rollout ok) → reply = .done))
    (read : (∃ ok, a = .rollout ok) → ∀ i l v, m.rollout = .reload i l → m.pendingJobs[i]? = some v →
      v.context.jobId = jobId → ∃ rows, reply = .tasks rows ∧ ∀ t ∈ toTasks rows, isTaskOngoing t.status = true) :
    Thinned jobId m' := by
  have frame := resume_frame taken
  have idle : m.rollout = .select → Thinned jobId m' := fun here => thinned_idle taken here thinned going.closures
  cases a with
  | rollout ok =>
    refine thinned_rolls (Memory.rolls_of_rolloutNext taken) thinned staged going.preload (fun i l ok' v here found named => ?_)
      (read ⟨ok, rfl⟩)
    obtain ⟨fine, replied⟩ := written i l ok' v here found named
    exact ⟨fine, replied ⟨ok, rfl⟩⟩
  | rolloutTick =>
    simp only [resume] at taken
    split at taken
    · exact idle ‹_›
    · cases taken
  | recvPending i =>
    obtain ⟨item, here, -⟩ := resume_recvPending taken
    exact idle here
  | recvUpdate i =>
    obtain ⟨other, timeout, here, -⟩ := resume_recvUpdate taken
    exact idle here
  | recvRemove i =>
    obtain ⟨r, operation, other, force, received, here, -⟩ := resume_recvRemove taken
    exact idle here
  | recvFinished =>
    obtain ⟨other, todo, received, here, -⟩ := resume_recvFinished taken
    exact idle here
  | recvPut =>
    obtain ⟨i, l, rolloutTasks, -, here, rfl⟩ := resume_recvPut taken
    exact thinned.same rfl (.inl (by rw [here]; rfl))
  | recvEndDelete =>
    obtain ⟨i, l, u, -, here, place, rfl⟩ := resume_recvEndDelete taken
    exact thinned.same (Memory.deleteTask_frame (.job u.context.jobId) m).1.pendingJobs (.inr (by rw [here]; rfl))
  | _ => exact thinned.same (frame.pendingJobs rfl) (.inr (by rw [frame.rollout rfl]))

/-- At such a stop the loop was before, or it came there by itself. -/
theorem came_or_stood {pc : RolloutPc} (taken : resume now m reply a = some m') (here : m'.rollout = pc)
    (closes : (∃ i l ok, pc = .endJob i l ok) ∨ ∃ i l, pc = .reload i l) :
    (∃ ok, a = .rollout ok) ∨ (m.rollout = pc ∧ m'.pendingJobs = m.pendingJobs) := by
  rcases rollout_still taken with moved | same | ⟨_, _, stop⟩ | ⟨_, _, _, stop⟩ | ⟨_, _, -, stop⟩
  · exact .inl moved
  · have here : m.rollout = pc := same ▸ here
    refine (alone_still ?_ taken).imp_right fun still => ⟨here, still.2⟩
    rw [here]
    rcases closes with ⟨_, _, _, rfl⟩ | ⟨_, _, rfl⟩ <;> rfl
  all_goals
    rw [stop] at here
    subst here
    rcases closes with ⟨_, _, _, other⟩ | ⟨_, _, other⟩ <;> cases other

end

section

variable {s s' : State} {a : Action} {jobId : String}

/-- The tasks of the job are canceled at the end of its window. -/
theorem unqueued_cancelTasks (now : Int) (db : Db) (force : Bool) : Unqueued jobId (db.cancelTasks now jobId force) := by
  intro row member named
  obtain ⟨old, -, rfl⟩ := List.mem_map.mp member
  dsimp only at named ⊢
  split at named
  case isTrue picked => simp [picked]
  case isFalse kept =>
    rw [if_neg kept]
    exact fun waits => kept ⟨named, .inl waits⟩

theorem allOver_cancelTasks (now : Int) (db : Db) : AllOver jobId (db.cancelTasks now jobId true) := by
  intro row member named
  obtain ⟨old, -, rfl⟩ := List.mem_map.mp member
  dsimp only at named ⊢
  split at named
  case isTrue picked =>
    rw [if_pos picked]
    rfl
  case isFalse kept =>
    rw [if_neg kept]
    by_contra going
    refine kept ⟨named, ?_⟩
    cases status : old.2.status <;> simp_all [isTaskTerminal, isTaskOngoing]

/-- The end of the window cancels the tasks before it writes the status of the job. -/
theorem canceled_step (keyed : Keyed s.db) (changes : ∀ msg, s.memory.change = .update msg → msg.status ≠ .queued)
    (answered : a.ok = true) (taken : step s a = some s') (canceled : Canceled jobId s)
    (alone : ∀ v ∈ s.memory.pendingJobs, v.context.jobId = jobId → ¬Creating jobId s.memory) : Canceled jobId s' := by
  have resumed := step_resume taken
  have others : ∀ {i : Nat} {v : PendingJobItem}, s.memory.pendingJobs[i]? = some v → v.context.jobId = jobId →
      ∀ (k : Nat) (context : JobContext) (things : List String),
        s.memory.closures[k]? = some (.submitted (.createJob context things)) → context.jobId ≠ jobId := by
    intro i v found named k context things creating same
    exact alone v (List.mem_of_getElem? found) named ⟨k, context, things, creating, same⟩
  refine ⟨fun i l ok v here found named => ?_, fun i l v here found named => ?_⟩
  · rcases came_or_stood resumed here (.inl ⟨i, l, ok, rfl⟩) with ⟨moved, rfl⟩ | ⟨stood, list⟩
    · generalize after : s'.memory = m' at resumed here found
      cases Memory.rolls_of_rolloutNext resumed with
      | tasksEnded i' l' stop =>
        cases here
        have found : s.memory.pendingJobs[i]? = some v := found
        have sent : request s.clock s.memory (.rollout moved) =
            some (.cancelTasks v.context.jobId (endForce v.context)) :=
          request_of_requests (.endTasks moved i l v stop found)
        have written := db_answered taken sent answered
        rw [access_answered sent answered]
        rw [named] at written
        refine ⟨rfl, written ▸ unqueued_cancelTasks _ _ _, fun force => ?_⟩
        rw [force] at written
        exact written ▸ allOver_cancelTasks _ _
      | ended | checked | published =>
        simp only [Memory.goto] at here
        split at here <;> cases here
      | _ => cases here
    · rw [list] at found
      obtain ⟨fine, unqueued, forced⟩ := canceled.endJob i l ok v stood found named
      have creates := others found named
      exact ⟨fine, unqueued_step keyed changes taken unqueued creates,
        fun force => allOver_step keyed taken (forced force) creates⟩
  · rcases came_or_stood resumed here (.inr ⟨i, l, rfl⟩) with ⟨moved, rfl⟩ | ⟨stood, list⟩
    · generalize after : s'.memory = m' at resumed here found
      cases Memory.rolls_of_rolloutNext resumed with
      | endKept i' l' v' stop place =>
        cases here
        cases place.symm.trans found
        exact unqueued_step keyed changes taken (canceled.endJob i l true v stop place named).2.1 (others place named)
      | ended | checked | published =>
        simp only [Memory.goto] at here
        split at here <;> cases here
      | _ => cases here
    · rw [list] at found
      exact unqueued_step keyed changes taken (canceled.reload i l v stood found named) (others found named)

end

end Tio.Job
