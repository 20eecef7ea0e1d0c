import Tio.Job.Conservation
import Tio.Job.Items

namespace Tio.Job

open Tio.Core

/-- The runner drops the tasks of the job: it has no context or one that ends. -/
def Memory.barred (jobId : String) (m : Memory) : Bool :=
  (Assoc.get jobId m.contexts).all fun context => isJobToTerminal context.status

/-- The index of the item whose end of the schedule is being handled. -/
def RolloutPc.ending : RolloutPc → Option Nat
  | .endSend i _ | .endTasks i _ | .endJob i _ _ | .reload i _ => some i
  | _ => none

structure Staged (m : Memory) : Prop where
  checking : ∀ i l tasks remain v, m.rollout = .timeout i l tasks remain → m.pendingJobs[i]? = some v →
    ∀ weight : Task → Nat, tally weight (tasks ++ remain) ≤ tally weight v.tasks
  ending : ∀ i v, m.rollout.ending = some i → m.pendingJobs[i]? = some v → v.context.status = .canceled
  published : ∀ i l tasks v, m.rollout = .put i l tasks → m.pendingJobs[i]? = some v →
    isJobToTerminal v.context.status = true → m.barred v.context.jobId = true
  filed : Filed m
  parked : (Assoc.keys m.offlineThingTasks).Nodup

section

variable {now : Int} {m m' : Memory} {reply : Reply} {a : Action}

/-- A job that is over for the runner stays so, unless an item of it is published or
updated. -/
theorem barred_of_contextAfter {jobId : String} (barred : m.barred jobId = true)
    (after : ContextAfter m m' jobId a)
    (items : ∀ v ∈ m.pendingJobs, v.context.jobId = jobId → isJobToTerminal v.context.status = true) :
    m'.barred jobId = true := by
  cases after with
  | kept _ same => rwa [Memory.barred, same]
  | published ok i l v here found named set =>
    simpa [Memory.barred, set] using items v (List.mem_of_getElem? found) named
  | updated k v timeout member named set =>
    have ended : isJobToTerminal (v.withTimeout timeout).context.status = true := items v member named
    simpa [Memory.barred, set] using ended
  | cleared _ _ _ _ _ _ _ _ gone | removed _ _ _ _ _ _ gone | finished _ _ gone
  | forgotten _ _ _ gone | dropped _ _ _ _ _ gone => simp [Memory.barred, gone]

/-- While the loop is at an item nobody else changes the list. -/
theorem pending_still (moving : m.rollout ≠ .select) (taken : resume now m reply a = some m') :
    (∃ ok, a = .rollout ok) ∨ m'.pendingJobs = m.pendingJobs := by
  have frame := resume_frame taken
  cases a with
  | rollout ok => exact .inl ⟨ok, rfl⟩
  | recvPending i => exact absurd (resume_recvPending taken).choose_spec.1 moving
  | recvUpdate i => exact absurd (resume_recvUpdate taken).choose_spec.choose_spec.1 moving
  | recvRemove i =>
    obtain ⟨r, operation, jobId, force, received, idle, -⟩ := resume_recvRemove taken
    exact absurd idle moving
  | recvFinished =>
    obtain ⟨jobId, todo, received, idle, -⟩ := resume_recvFinished taken
    exact absurd idle moving
  | _ => exact .inr (frame.pendingJobs rfl)

/-- The stops that only the loop itself reaches. -/
theorem rollout_still (taken : resume now m reply a = some m') :
    (∃ ok, a = .rollout ok) ∨ m'.rollout = m.rollout ∨
      (∃ i l, m'.rollout = .schedule i l) ∨ (∃ i l n, m'.rollout = .rolled i l n) ∨
      (∃ i l, m.rollout = .endSend i l ∧ m'.rollout = .endTasks i l) := by
  have frame := resume_frame taken
  cases a with
  | rollout ok => exact .inl ⟨ok, rfl⟩
  | rolloutTick =>
    simp only [resume] at taken
    split at taken <;> cases taken
    exact .inr (.inr (.inl ⟨_, _, rfl⟩))
  | recvPending i =>
    obtain ⟨item, idle, sender, rfl⟩ := resume_recvPending taken
    exact .inr (.inr (.inl ⟨_, _, rfl⟩))
  | recvUpdate i =>
    obtain ⟨jobId, timeout, idle, sender, rfl⟩ := resume_recvUpdate taken
    exact .inr (.inr (.inl ⟨_, _, rfl⟩))
  | recvPut =>
    obtain ⟨i, l, rolloutTasks, idle, sender, rfl⟩ := resume_recvPut taken
    exact .inr (.inr (.inr (.inl ⟨_, _, _, rfl⟩)))
  | recvEndDelete =>
    obtain ⟨i, l, v, idle, sender, found, rfl⟩ := resume_recvEndDelete taken
    exact .inr (.inr (.inr (.inr ⟨i, l, sender, rfl⟩)))
  | _ => exact .inr (.inl (frame.rollout rfl))

theorem tally_drained_le (weight : Task → Nat) (v : PendingJobItem) :
    tally weight (drained v) ≤ tally weight v.tasks := by
  rw [drained]
  split
  · exact tally_sublist List.filter_sublist
  · exact Nat.le_refl _

/-- The loop is at none of the stops where it knows something. -/
def RolloutPc.free : RolloutPc → Bool
  | .timeout .. | .endSend .. | .endTasks .. | .endJob .. | .reload .. | .put .. => false
  | _ => true

theorem Staged.of_free (filed : Filed m) (parked : (Assoc.keys m.offlineThingTasks).Nodup)
    (free : m.rollout.free = true) : Staged m := by
  refine ⟨?_, ?_, ?_, filed, parked⟩
  · intro i l tasks remain v here
    rw [here] at free
    cases free
  · intro i v here
    cases stop : m.rollout <;> simp_all [RolloutPc.ending, RolloutPc.free]
  · intro i l tasks v here
    rw [here] at free
    cases free

theorem Staged.of_timeout (filed : Filed m) (parked : (Assoc.keys m.offlineThingTasks).Nodup)
    {i l : Nat} {tasks remain : List Task} {v : PendingJobItem}
    (here : m.rollout = .timeout i l tasks remain) (found : m.pendingJobs[i]? = some v)
    (fewer : ∀ weight : Task → Nat, tally weight (tasks ++ remain) ≤ tally weight v.tasks) : Staged m := by
  refine ⟨?_, ?_, ?_, filed, parked⟩
  · intro i' l' tasks' remain' v' same found'
    rw [here] at same
    cases same
    rw [found] at found'
    cases found'
    exact fewer
  · intro i' v' ending
    rw [here] at ending
    cases ending
  · intro i' l' tasks' v' other
    rw [here] at other
    cases other

theorem Staged.of_ending (filed : Filed m) (parked : (Assoc.keys m.offlineThingTasks).Nodup) {i : Nat}
    (here : m.rollout.ending = some i)
    (canceled : ∀ v, m.pendingJobs[i]? = some v → v.context.status = .canceled) : Staged m := by
  refine ⟨?_, ?_, ?_, filed, parked⟩
  · intro i' l' tasks' remain' v' other
    rw [other] at here
    cases here
  · intro i' v' same
    rw [here] at same
    cases same
    exact canceled v'
  · intro i' l' tasks' v' other
    rw [other] at here
    cases here

open Memory in
theorem staged_rolls (staged : Staged m) (rolls : Rolls now reply m m') : Staged m' := by
  have runner : m'.offlineThingTasks = m.offlineThingTasks := by cases rolls <;> rfl
  have filed : Filed m' := by simpa [Filed, runner] using staged.filed
  have parked : (Assoc.keys m'.offlineThingTasks).Nodup := runner ▸ staged.parked
  clear runner
  cases rolls with
  | filled i l v here found =>
    refine .of_timeout filed parked rfl (getElem?_set_found found _) fun weight => ?_
    simp [PendingJobItem.withTasks]
  | stopped i l v config here found =>
    refine .of_timeout filed parked rfl (getElem?_set_found found _) fun weight => ?_
    simp [PendingJobItem.withTasks]
  | reloaded i l v rows here found =>
    refine .of_timeout filed parked rfl (getElem?_set_found found _) fun weight => ?_
    simp [PendingJobItem.withTasks]
  | timedOut i l t rest remain v minutes here found =>
    refine .of_timeout filed parked rfl found fun weight => ?_
    have before := staged.checking i l _ _ v here found weight
    simp only [List.cons_append, tally_cons] at before
    omega
  | remains i l t rest remain v minutes here found =>
    refine .of_timeout filed parked rfl found fun weight => ?_
    have before := staged.checking i l _ _ v here found weight
    simp only [List.cons_append, tally_cons, tally_append, tally_nil] at before ⊢
    omega
  | ended i l v config here found =>
    refine .of_ending (i := i) filed parked ?_ fun v' found' => ?_
    · simp only [goto]
      split <;> rfl
    · have found' : (m.pendingJobs.set i (v.withStatus .canceled))[i]? = some v' := found'
      rw [getElem?_set_found found] at found'
      cases found'
      rfl
  | tasksEnded i l here => exact .of_ending (i := i) filed parked rfl fun v => staged.ending i v (by rw [here]; rfl)
  | endKept i l v here => exact .of_ending (i := i) filed parked rfl fun v => staged.ending i v (by rw [here]; rfl)
  | published i l v here found =>
    by_cases system : isSysOp v.context.operation
    · simp only [system, if_true] at filed parked ⊢
      refine ⟨?_, ?_, ?_, filed, parked⟩
      · intro i' l' tasks' remain' v' other
        cases other
      · intro i' v' other
        cases other
      · intro i' l' tasks' v' same found' ended
        cases same
        have found' : (m.pendingJobs.set i (v.withTasks (v.tasks.drop (rolloutCount now v))))[i]? =
          some v' := found'
        rw [getElem?_set_found found] at found'
        cases found'
        have ended : isJobToTerminal v.context.status = true := ended
        simp [barred, goto, setItem, setJobContext, PendingJobItem.withTasks, ended]
    · simp only [system, Bool.false_eq_true, if_false] at filed parked ⊢
      exact .of_free filed parked rfl
  | checked i l remain v minutes here found =>
    refine .of_free filed parked ?_
    simp only [goto]
    split <;> rfl
  | _ => exact .of_free filed parked rfl

theorem staged_step (staged : Staged m) (taken : resume now m reply a = some m') : Staged m' := by
  have kept : Filed m' ∧ (Assoc.keys m'.offlineThingTasks).Nodup := by
    have moved := resume_event taken
    split at moved
    · obtain ⟨own, event, same⟩ := moved
      have kept := runnerStep_filed staged.filed staged.parked event
      simpa [Filed, same.offlineThingTasks] using kept
    · simpa [Filed, moved.offlineThingTasks] using And.intro staged.filed staged.parked
  obtain ⟨filed, parked⟩ := kept
  rcases rollout_still taken with ⟨ok, rfl⟩ | same | ⟨i, l, stop⟩ | ⟨i, l, n, stop⟩ | ⟨i, l, here, stop⟩
  · exact staged_rolls staged (Memory.rolls_of_rolloutNext taken)
  · by_cases free : m'.rollout.free
    · exact .of_free filed parked free
    · have moving : m.rollout ≠ .select := by
        intro idle
        rw [same, idle] at free
        exact free rfl
      rcases pending_still moving taken with ⟨ok, rfl⟩ | pending
      · exact staged_rolls staged (Memory.rolls_of_rolloutNext taken)
      · refine ⟨?_, ?_, ?_, filed, parked⟩
        · rw [same, pending]
          exact staged.checking
        · rw [same, pending]
          exact staged.ending
        · rw [same, pending]
          intro i l tasks v here found ended
          have barred := staged.published i l tasks v here found ended
          cases resume_contexts v.context.jobId taken with
          | kept _ same => rwa [Memory.barred, same]
          | published _ _ _ _ other => simp [here] at other
          | updated k =>
            have idle := (resume_recvUpdate taken).choose_spec.choose_spec.1
            exact absurd idle moving
          | cleared _ _ _ _ other => simp [here] at other
          | removed _ _ _ _ _ _ gone | finished _ _ gone | forgotten _ _ _ gone
          | dropped _ _ _ _ _ gone => simp [Memory.barred, gone]
  · exact .of_free filed parked (by rw [stop]; rfl)
  · exact .of_free filed parked (by rw [stop]; rfl)
  · refine .of_ending (i := i) filed parked (by rw [stop]; rfl) fun v found => ?_
    rcases pending_still (by simp [here]) taken with ⟨ok, rfl⟩ | pending
    · cases Memory.rolls_of_rolloutNext taken <;> simp_all
    · exact staged.ending i v (by rw [here]; rfl) (pending ▸ found)

end

end Tio.Job
