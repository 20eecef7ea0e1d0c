import Tio.Job.Home

namespace Tio.Job

open Tio.Core

/-- Every id belongs to one job, wherever it is found. -/
structure Owned (owner : Int → String) (s : State) : Prop where
  rows : ∀ row ∈ s.db.tasks, owner row.1 = row.2.jobId
  center : Held (fun jobId t => owner t.taskId = jobId) s.memory
  reading : ∀ context taskIds, .readTasks context taskIds ∈ s.memory.closures →
    ∀ taskId ∈ taskIds, owner taskId = context.jobId
  runner : InRunner (fun t => owner t.taskId = t.jobId) s.memory
  underway : Underway (fun t => owner t.taskId = t.jobId) s.memory

section

variable {s s' : State} {a : Action} {owner : Int → String}

/-- Only the ids that were given matter. -/
theorem Owned.congr {owner' : Int → String} (grounded : Grounded s) (owned : Owned owner s)
    (same : ∀ taskId, taskId < s.db.nextTaskId → owner' taskId = owner taskId) : Owned owner' s := by
  have known := grounded.known
  refine ⟨fun row member => ?_, ?_, fun context taskIds member taskId listed => ?_, ?_, ?_⟩
  · rw [same row.1 (s.db.given row member).2]
    exact owned.rows row member
  · exact (known.center.and owned.center).mono fun jobId t both => by rw [same t.taskId both.1, both.2]
  · rw [same taskId ((grounded.reading context taskIds member).2.1 taskId listed)]
    exact owned.reading context taskIds member taskId listed
  · exact (known.runner.and owned.runner).mono fun t both => by rw [same t.taskId both.1, both.2]
  · exact (known.underway.and owned.underway).mono fun t both => by rw [same t.taskId both.1, both.2]

/-- The job that a step stores tasks for. -/
def StoresFor (s : State) (a : Action) (jobId : String) : Prop :=
  ∃ (k : Nat) (ok : Bool) (context : JobContext) (things : List String), a = .run k ok ∧
    s.memory.closures[k]? = some (.submitted (.createJob context things)) ∧ context.jobId = jobId

/-- A row with a new id is one of a job that is created. -/
theorem stored_of_new (grounded : Grounded s) (taken : step s a = some s') {row : Int × TaskEntity}
    (member : row ∈ s'.db.tasks) (fresh : s.db.nextTaskId ≤ row.1) : StoresFor s a row.2.jobId := by
  have old : ∀ row' ∈ s.db.tasks, row'.1 ≠ row.1 := by
    intro row' present same
    have given := s.db.given row' present
    omega
  rcases step_db taken with ⟨same, -⟩ | ⟨op, requested, -, same⟩
  · exact absurd rfl (old row (same ▸ member))
  · rw [same] at member
    cases tasksAfter_exec grounded.known.keyed s.clock op with
    | same _ tasks => exact absurd rfl (old row (tasks ▸ member))
    | canceled _ _ _ _ tasks | timedOut _ tasks | reported _ _ _ tasks =>
      rw [tasks] at member
      obtain ⟨row', present, rfl⟩ := List.mem_map.mp member
      exact absurd rfl (old row' present)
    | deleted _ keep tasks =>
      rw [tasks] at member
      exact absurd rfl (old row (List.mem_filter.mp member).1)
    | created created tasks =>
      rw [tasks] at member
      rcases List.mem_append.mp member with before | new
      · exact absurd rfl (old row before)
      · obtain ⟨ok, k, context, things, rfl, here, rfl⟩ := request_createTasks requested
        obtain ⟨thing, -, made⟩ := List.mem_map.mp (mem_of_numbered new)
        exact ⟨k, ok, context, things, rfl, here, by rw [← made]⟩

/-- A step says for the new ids which job they belong to. -/
theorem owned_step (grounded : Grounded s) (owned : ∃ owner, Owned owner s) (taken : step s a = some s') :
    ∃ owner, Owned owner s' := by
  obtain ⟨before, owned⟩ := owned
  obtain ⟨jobId, stored⟩ : ∃ jobId, ∀ other, StoresFor s a other → other = jobId := by
    by_cases stores : ∃ jobId, StoresFor s a jobId
    · obtain ⟨jobId, k, ok, context, things, rfl, here, named⟩ := stores
      refine ⟨jobId, ?_⟩
      rintro other ⟨k', ok', context', things', same, here', rfl⟩
      cases same
      rw [here] at here'
      cases here'
      exact named
    · exact ⟨"", fun other stored => absurd ⟨other, stored⟩ stores⟩
  let owner : Int → String := fun taskId => if taskId < s.db.nextTaskId then before taskId else jobId
  have owned : Owned owner s := owned.congr grounded fun taskId given => if_pos given
  have resumed := step_resume taken
  have known := grounded.known
  have rows := step_rows taken
  have put : ∀ i l rolloutTasks, s.memory.rollout = .put i l rolloutTasks →
      ∀ t ∈ rolloutTasks, owner t.taskId = t.jobId := by
    intro i l rolloutTasks sender
    obtain ⟨v, -, batch⟩ := (grounded.home.and owned.center).put i l rolloutTasks sender
    exact fun t member => (batch t member).2.trans (batch t member).1.symm
  refine ⟨owner, fun row member => ?_, ?_, fun context taskIds member taskId listed => ?_,
    inRunner_step known.indexed owned.runner put resumed, underway_step owned.underway owned.runner.hand resumed⟩
  · by_cases given : row.1 < s.db.nextTaskId
    · obtain ⟨old, present, same, alike⟩ := rows.rows row member given
      rw [← alike, ← same, owned.rows old present]
    · exact (if_neg given).trans (stored _ (stored_of_new grounded taken member (by omega))).symm
  · refine held_step owned.center resumed fun jobId row arrives => ?_
    obtain ⟨present, ⟨named, -⟩ | ⟨i, context, taskIds, here, rfl, listed⟩⟩ := arrives_stored arrives
    · exact named ▸ owned.rows row present
    · exact owned.reading context taskIds (List.mem_of_getElem? here) row.1 listed
  · cases resume_closures resumed member with
    | before _ _ old => exact owned.reading context taskIds old taskId listed
    | next i ok closure _ here continues =>
      obtain ⟨things, rfl, replied⟩ := created_of_reads continues
      obtain ⟨op, sent, -, exec⟩ := replied_of_ne_failed (s := s) (a := .run i ok) (by simp [replied])
      obtain ⟨tasks, rfl, rfl, -⟩ := exec_taskIds_reply (exec.trans replied)
      obtain ⟨row, created, rfl⟩ := List.mem_map.mp listed
      have bounds := numbered_bounds created
      exact (if_neg (by omega)).trans (stored _ ⟨i, ok, context, things, rfl, here, rfl⟩).symm

theorem owned_boot {db : Db} (keyed : Keyed db) (clock : Int) : ∃ owner, Owned owner (boot db clock) := by
  refine ⟨fun taskId => ((db.tasks.find? fun row => row.1 = taskId).map fun row => row.2.jobId).getD "", ?_,
    ⟨?_, ?_, ?_, ?_, ?_⟩, ?_, ⟨?_, ?_, ?_⟩, ⟨?_, ?_, ?_, ?_⟩⟩
  · intro row member
    have found : (db.tasks.find? fun other => other.1 = row.1).isSome = true :=
      List.find?_isSome.mpr ⟨row, member, by simp⟩
    obtain ⟨other, here⟩ := Option.isSome_iff_exists.mp found
    have same := List.find?_some here
    cases keyed.unique member (List.mem_of_find?_eq_some here) (of_decide_eq_true same)
    simp [here]
  all_goals simp [boot, TaskQueue.getTasks]

end

end Tio.Job
