import Tio.Job.Jobs
import Tio.Job.TaskEnd

namespace Tio.Job

open Tio.Core

def RolloutPc.loading : RolloutPc → Bool
  | .loadJobs | .loadTasks _ => true
  | _ => false

/-- Before the preload has its rows nobody holds a task or works on a job. -/
structure Unstarted (m : Memory) : Prop where
  calls : m.calls = []
  closures : m.closures = []
  runner : InRunner (fun _ => False) m
  workers : ∀ w ∈ m.workers, False
  pending : m.rollout.loading = true → m.pendingJobs = []

structure Grounded (s : State) : Prop where
  known : Known s
  jobs : (Assoc.keys s.db.jobs).Nodup
  unstarted : s.memory.rollout.started = false → Unstarted s.memory
  home : Held (fun jobId t => t.jobId = jobId) s.memory
  reading : ∀ context taskIds, .readTasks context taskIds ∈ s.memory.closures →
    taskIds.Nodup ∧ (∀ taskId ∈ taskIds, taskId < s.db.nextTaskId) ∧
      ∀ row ∈ s.db.tasks, row.1 ∈ taskIds → row.2.jobId = context.jobId

section

variable {s s' : State} {a : Action}

theorem started_of_step {now : Int} {m m' : Memory} {reply : Reply} (started : m.rollout.started = true)
    (taken : resume now m reply a = some m') : m'.rollout.started = true := by
  have frame := resume_frame taken
  cases a with
  | rollout ok =>
    cases Memory.rolls_of_rolloutNext taken with
    | jobsLoaded _ here | tasksLoaded _ _ here | started here | terminated _ _ _ here
    | preloaded _ _ _ _ here =>
      rw [here] at started
      cases started
    | ended | checked | published =>
      simp only [Memory.goto]
      split <;> rfl
    | _ => rfl
  | rolloutTick =>
    simp only [resume] at taken
    split at taken <;> cases taken
    rfl
  | recvPending i =>
    obtain ⟨item, idle, sender, rfl⟩ := resume_recvPending taken
    rfl
  | recvUpdate i =>
    obtain ⟨jobId, timeout, idle, sender, rfl⟩ := resume_recvUpdate taken
    rfl
  | recvPut =>
    obtain ⟨i, l, rolloutTasks, idle, sender, rfl⟩ := resume_recvPut taken
    rfl
  | recvEndDelete =>
    obtain ⟨i, l, v, idle, sender, found, rfl⟩ := resume_recvEndDelete taken
    rfl
  | _ => rw [frame.rollout rfl, started]

/-- At this stop the loop waits for nobody. -/
def RolloutPc.alone : RolloutPc → Bool
  | .select | .endSend .. | .put .. => false
  | _ => true

/-- At such a stop only the loop itself moves on, and nobody else changes the list. -/
theorem alone_still {now : Int} {m m' : Memory} {reply : Reply} (alone : m.rollout.alone = true)
    (taken : resume now m reply a = some m') :
    (∃ ok, a = .rollout ok) ∨ (m'.rollout = m.rollout ∧ m'.pendingJobs = m.pendingJobs) := by
  have frame := resume_frame taken
  cases a with
  | rollout ok => exact .inl ⟨ok, rfl⟩
  | rolloutTick =>
    simp only [resume] at taken
    split at taken
    · rename_i here
      rw [here] at alone
      cases alone
    · cases taken
  | recvPending i =>
    obtain ⟨item, here, -⟩ := resume_recvPending taken
    rw [here] at alone
    cases alone
  | recvUpdate i =>
    obtain ⟨jobId, timeout, here, -⟩ := resume_recvUpdate taken
    rw [here] at alone
    cases alone
  | recvRemove i =>
    obtain ⟨r, operation, jobId, force, received, here, -⟩ := resume_recvRemove taken
    rw [here] at alone
    cases alone
  | recvFinished =>
    obtain ⟨jobId, todo, received, here, -⟩ := resume_recvFinished taken
    rw [here] at alone
    cases alone
  | recvPut =>
    obtain ⟨i, l, rolloutTasks, idle, here, -⟩ := resume_recvPut taken
    rw [here] at alone
    cases alone
  | recvEndDelete =>
    obtain ⟨i, l, v, idle, here, -⟩ := resume_recvEndDelete taken
    rw [here] at alone
    cases alone
  | _ => exact .inr ⟨frame.rollout rfl, frame.pendingJobs rfl⟩

/-- Before the start only the preload itself moves the loop and the list. -/
theorem still_unstarted {now : Int} {m m' : Memory} {reply : Reply} (waits : m.rollout.started = false)
    (taken : resume now m reply a = some m') :
    (∃ ok, a = .rollout ok) ∨ (m'.rollout = m.rollout ∧ m'.pendingJobs = m.pendingJobs) := by
  refine alone_still ?_ taken
  cases stop : m.rollout <;> rw [stop] at waits <;> first | rfl | cases waits

theorem unstarted_step (indexed : TaskQueue.Indexed s.memory.curQ)
    (unstarted : s.memory.rollout.started = false → Unstarted s.memory) (taken : step s a = some s')
    (before : s'.memory.rollout.started = false) : Unstarted s'.memory := by
  have resumed := step_resume taken
  have waits : s.memory.rollout.started = false := by
    by_contra started
    rw [started_of_step (by simpa using started) resumed] at before
    cases before
  have idle := unstarted waits
  have none_put : ∀ i l rolloutTasks, s.memory.rollout = .put i l rolloutTasks →
      ∀ t ∈ rolloutTasks, False := by
    intro i l rolloutTasks here
    rw [here] at waits
    cases waits
  refine ⟨?_, ?_, inRunner_step indexed idle.runner none_put resumed,
    workers_step (fun _ => False) idle.workers idle.runner.hand resumed, ?_⟩
  · refine List.eq_nil_iff_forall_not_mem.mpr fun call member => ?_
    obtain ⟨k, found⟩ := List.getElem?_of_mem member
    have no_call : ∀ k : Nat, s.memory.calls[k]? = none := by simp [idle.calls]
    cases resume_calls resumed found with
    | started r => simp [resume, waits] at resumed
    | before _ _ _ here | updated _ _ _ here | removed _ _ _ _ _ here | served _ _ _ _ here =>
      rw [no_call] at here
      cases here
  · refine List.eq_nil_iff_forall_not_mem.mpr fun closure member => ?_
    have no_closure : ∀ k : Nat, s.memory.closures[k]? = none := by simp [idle.closures]
    have no_call : ∀ k : Nat, s.memory.calls[k]? = none := by simp [idle.calls]
    cases resume_closures resumed member with
    | before _ _ old => simp [idle.closures] at old
    | sent i =>
      obtain ⟨item, here, sender, -⟩ := resume_recvPending resumed
      rw [no_closure] at sender
      cases sender
    | deleted _ _ _ here | next _ _ _ _ here =>
      rw [no_closure] at here
      cases here
    | submitted _ _ _ _ here =>
      rw [no_call] at here
      cases here
  · intro loading
    rcases still_unstarted waits resumed with ⟨ok, rfl⟩ | ⟨rollout, pending⟩
    · generalize s'.memory = m' at resumed before loading ⊢
      cases Memory.rolls_of_rolloutNext resumed with
      | jobsLoaded jobs here => exact idle.pending (by rw [here]; rfl)
      | tasksLoaded | terminated | preloaded | started => cases loading
      | _ => simp_all [RolloutPc.started]
    · rw [pending]
      exact idle.pending (rollout ▸ loading)

/-- The preload is over when the program starts, and nobody else has begun. -/
theorem makers_of_start (jobId : String) (grounded : Grounded s) (waits : s.memory.rollout.started = false)
    (taken : step s a = some s') (started : s'.memory.rollout.started = true) : s'.memory.makers jobId = 0 := by
  have idle := grounded.unstarted waits
  rcases still_unstarted waits (step_resume taken) with ⟨ok, rfl⟩ | ⟨still, -⟩
  · have loads : s'.memory.rollout.makes jobId = 0 := by
      cases stop : s'.memory.rollout <;> rw [stop] at started <;> first | rfl | cases started
    rw [Memory.makers, loads, (step_frame taken).calls rfl, (step_frame taken).closures rfl, idle.calls,
      idle.closures]
    rfl
  · rw [still, waits] at started
    cases started

/-- The rows that a creation reads back are those it wrote. -/
theorem grounded_reading (grounded : Grounded s) (taken : step s a = some s') (context : JobContext)
    (taskIds : List Int) (member : .readTasks context taskIds ∈ s'.memory.closures) :
    taskIds.Nodup ∧ (∀ taskId ∈ taskIds, taskId < s'.db.nextTaskId) ∧
      ∀ row ∈ s'.db.tasks, row.1 ∈ taskIds → row.2.jobId = context.jobId := by
  have rows := step_rows taken
  have old : .readTasks context taskIds ∈ s.memory.closures → taskIds.Nodup ∧
      (∀ taskId ∈ taskIds, taskId < s'.db.nextTaskId) ∧
      ∀ row ∈ s'.db.tasks, row.1 ∈ taskIds → row.2.jobId = context.jobId := by
    intro before
    obtain ⟨distinct, given, named⟩ := grounded.reading context taskIds before
    refine ⟨distinct, fun taskId listed => Int.lt_of_lt_of_le (given taskId listed) rows.given, ?_⟩
    intro row stored listed
    obtain ⟨first, present, same, jobId⟩ := rows.rows row stored (given row.1 listed)
    rw [← jobId]
    exact named first present (same ▸ listed)
  cases resume_closures (step_resume taken) member with
  | before _ _ before => exact old before
  | next i ok closure _ here continues =>
    obtain ⟨things, rfl, replied⟩ := created_of_reads continues
    obtain ⟨op, sent, answered, exec⟩ :=
      replied_of_ne_failed (s := s) (a := .run i ok) (by simp [replied])
    rw [replied] at exec
    obtain ⟨tasks, rfl, rfl, db⟩ := exec_taskIds_reply exec
    obtain ⟨ok', i', context', things', same, here', rfl⟩ :=
      request_createTasks (request_of_requests sent)
    cases same
    rw [here] at here'
    cases here'
    have stored : s'.db = s.db.insertTasks
        (toTaskEntities s.clock context.jobId context.operation things) := by
      rcases step_db taken with ⟨-, silent⟩ | ⟨op, requested, -, after⟩
      · rw [silent _ (request_of_requests sent)] at answered
        cases answered
      · rw [request_of_requests sent] at requested
        cases requested
        rw [after, db]
    rw [stored]
    refine ⟨nodup_numbered _ _, fun taskId listed => ?_, fun row member listed => ?_⟩
    · obtain ⟨row, fresh, rfl⟩ := List.mem_map.mp listed
      exact (numbered_bounds fresh).2
    · obtain ⟨other, created, same⟩ := List.mem_map.mp listed
      have bounds := numbered_bounds created
      rcases List.mem_append.mp member with before | fresh
      · have given := s.db.given row before
        omega
      · obtain ⟨thing, -, made⟩ := List.mem_map.mp (mem_of_numbered fresh)
        rw [← made]

theorem grounded_step (grounded : Grounded s) (taken : step s a = some s') : Grounded s' := by
  refine ⟨known_step grounded.known taken, nodup_jobs_step grounded.jobs taken,
    unstarted_step grounded.known.indexed grounded.unstarted taken, ?_, grounded_reading grounded taken⟩
  refine held_step grounded.home (step_resume taken) fun jobId row arrives => ?_
  obtain ⟨stored, ⟨named, -⟩ | ⟨i, context, taskIds, here, rfl, listed⟩⟩ := arrives_stored arrives
  · exact named
  · exact (grounded.reading context taskIds (List.mem_of_getElem? here)).2.2 row stored listed

theorem grounded_boot {db : Db} (keyed : Keyed db) (distinct : (Assoc.keys db.jobs).Nodup) (clock : Int) :
    Grounded (boot db clock) := by
  refine ⟨known_boot keyed clock, distinct, fun _ => ⟨rfl, rfl, ⟨?_, ?_, ?_⟩, ?_, fun _ => rfl⟩,
    ⟨?_, ?_, ?_, ?_, ?_⟩, ?_⟩
  all_goals simp [boot, TaskQueue.getTasks]

end

end Tio.Job
