import Tio.Job.Rows

namespace Tio.Job

open Tio.Core

/-- The id of a task is the primary key of its table. -/
def Keyed (db : Db) : Prop := (db.tasks.map Prod.fst).Nodup

instance (db : Db) : Decidable (Keyed db) := inferInstanceAs (Decidable (db.tasks.map Prod.fst).Nodup)

theorem emptyDb_given : ∀ row ∈ ([] : List (Int × TaskEntity)), 0 < row.1 ∧ row.1 < 1 := by simp

def emptyDb : Db where
  jobs := []
  tasks := []
  nextTaskId := 1
  returning := true
  positive := Int.one_pos
  given := emptyDb_given

section

variable {now : Int} {db : Db} {op : DbOp}

theorem Keyed.unique (keyed : Keyed db) {row row' : Int × TaskEntity} (member : row ∈ db.tasks)
    (member' : row' ∈ db.tasks) (same : row'.1 = row.1) : row' = row :=
  List.inj_on_of_nodup_map keyed member' member same

theorem mem_of_numbered {first : Int} {tasks : List TaskEntity} {row : Int × TaskEntity}
    (member : row ∈ numbered first tasks) : row.2 ∈ tasks := by
  induction tasks generalizing first with
  | nil => cases member
  | cons t rest ih =>
    rcases List.mem_cons.mp member with rfl | later
    · exact List.mem_cons_self
    · exact List.mem_cons_of_mem _ (ih later)

theorem nodup_numbered (first : Int) (tasks : List TaskEntity) :
    ((numbered first tasks).map Prod.fst).Nodup := by
  induction tasks generalizing first with
  | nil => exact List.nodup_nil
  | cons t rest ih =>
    refine List.nodup_cons.mpr ⟨fun again => ?_, ih (first + 1)⟩
    obtain ⟨row, later, same⟩ := List.mem_map.mp again
    have bounds := numbered_bounds later
    omega

theorem keyed_insertTasks (keyed : Keyed db) (tasks : List TaskEntity) :
    Keyed (db.insertTasks tasks) := by
  rw [Keyed, Db.insertTasks, List.map_append]
  refine List.Nodup.append keyed (nodup_numbered _ tasks) fun id old fresh => ?_
  obtain ⟨row, member, rfl⟩ := List.mem_map.mp old
  obtain ⟨row', member', same⟩ := List.mem_map.mp fresh
  have given := (db.given row member).2
  have bounds := numbered_bounds member'
  omega

theorem keyed_mapTasks (keyed : Keyed db) (change : Int × TaskEntity → TaskEntity) :
    Keyed (db.mapTasks change) := by
  rw [Keyed, Db.mapTasks, List.map_map]
  exact keyed

theorem keyed_filterTasks (keyed : Keyed db) (keep : Int × TaskEntity → Bool) :
    Keyed (db.filterTasks keep) :=
  keyed.sublist (List.filter_sublist.map Prod.fst)

/-- The row of a task that is canceled. -/
def canceledTask (now : Int) (force : Bool) (t : TaskEntity) : TaskEntity := { t with
  status := .canceled
  forceCanceled := force
  completedAt := some now }

/-- What an operation does to the rows of the tasks. -/
inductive TasksAfter (now : Int) (db db' : Db) : DbOp → Prop
  | same (op : DbOp) (tasks : db'.tasks = db.tasks) : TasksAfter now db db' op
  | canceled (op : DbOp) (force : Bool) (chosen : Int × TaskEntity → Bool)
      (going : ∀ row ∈ db.tasks, chosen row = true → isTaskTerminal row.2.status = false)
      (tasks : db'.tasks = (db.mapTasks fun row =>
        if chosen row then canceledTask now force row.2 else row.2).tasks) : TasksAfter now db db' op
  | timedOut (taskId : Int) (tasks : db'.tasks = (db.updateTask taskId fun t => { t with
      status := .timedOut
      completedAt := some now }).tasks) : TasksAfter now db db' (.timeOutTask taskId)
  | reported (taskId : Int) (status : TaskStatus)
      (going : ∀ row ∈ db.tasks, row.1 = taskId → isTaskTerminal row.2.status = false)
      (tasks : db'.tasks = (db.updateTask taskId fun t => { t with
        status := status
        completedAt := if isTaskTerminal t.status then some now else t.completedAt }).tasks) :
      TasksAfter now db db' (.reportTask taskId status)
  | deleted (op : DbOp) (keep : Int × TaskEntity → Bool)
      (tasks : db'.tasks = db.tasks.filter keep) : TasksAfter now db db' op
  | created (fresh : List TaskEntity)
      (tasks : db'.tasks = db.tasks ++ numbered db.nextTaskId fresh) :
      TasksAfter now db db' (.createTasks fresh)

theorem tasksAfter_cancelTasks (jobId : String) (force : Bool) {db' : Db}
    (tasks : db'.tasks = (db.cancelTasks now jobId force).tasks) : TasksAfter now db db' op := by
  refine .canceled op force (fun row => row.2.jobId = jobId ∧
    (row.2.status = .queued ∨ (force = true ∧ isTaskOngoing row.2.status))) ?_ ?_
  · intro row member chosen
    have selected := of_decide_eq_true chosen
    rcases selected.2 with queued | ongoing
    · rw [queued]
      rfl
    · exact not_terminal_of_ongoing ongoing.2
  · simpa [Db.cancelTasks, canceledTask] using tasks

/-- The row that a transaction found stands for all rows with its id. -/
theorem Keyed.going_of_found (keyed : Keyed db) {row : Int × TaskEntity} (member : row ∈ db.tasks)
    (going : isTaskTerminal row.2.status = false) :
    ∀ row' ∈ db.tasks, row'.1 = row.1 → isTaskTerminal row'.2.status = false :=
  fun _ listed here => keyed.unique member listed here ▸ going

theorem tasksAfter_exec (keyed : Keyed db) (now : Int) (op : DbOp) :
    TasksAfter now db (op.exec now db).1 op := by
  cases op with
  | createTasks tasks =>
    rw [DbOp.exec, Db.createTasks]
    split
    · exact .same _ rfl
    · exact .created tasks rfl
  | createJob jobId j =>
    rw [DbOp.exec]
    split <;> exact .same _ rfl
  | updateJob jobId change =>
    rw [DbOp.exec, Db.updateJob]
    split <;> exact .same _ rfl
  | cancelJob jobId force =>
    rw [DbOp.exec, Db.cancelJob]
    split
    · exact .same _ rfl
    · split
      · exact .same _ rfl
      · split
        · exact .same _ rfl
        · refine tasksAfter_cancelTasks jobId force ?_
          rw [Db.updateJob]
          split <;> rfl
  | deleteJob jobId force =>
    rw [DbOp.exec, Db.deleteJob]
    split
    · exact .deleted _ _ rfl
    · split
      · exact .same _ rfl
      · split
        · exact .same _ rfl
        · exact .deleted _ _ rfl
  | cancelTasks jobId force => exact tasksAfter_cancelTasks jobId force rfl
  | timeOutTask taskId => exact .timedOut taskId rfl
  | reportTask taskId status =>
    rw [DbOp.exec, Db.reportTask]
    split
    · exact .same _ rfl
    · rename_i id t found
      obtain ⟨member, here⟩ := mem_getTask found
      split
      · exact .same _ rfl
      · rename_i going
        refine .reported taskId status (fun row listed same => ?_) rfl
        rcases here with rfl | here
        · have given := (db.given row listed).1
          omega
        · exact keyed.going_of_found member (by simpa using going) row listed (same.trans here.symm)
  | cancelTask thingId jobId version force =>
    rw [DbOp.exec, Db.cancelTask]
    split
    · exact .same _ rfl
    · rename_i id t found
      have member := (List.mem_filter.mp (mem_firstCreated found)).1
      split
      · exact .same _ rfl
      · rename_i going
        split
        · exact .same _ rfl
        · split
          · exact .same _ rfl
          · refine .canceled _ force (fun row => row.1 = id) (fun row listed chosen => ?_) ?_
            · exact keyed.going_of_found member (by simpa using going) row listed
                (of_decide_eq_true chosen)
            · simp [Db.updateTask, canceledTask]
  | deleteTask thingId jobId taskId force =>
    rw [DbOp.exec, Db.deleteTask]
    split
    · exact .same _ rfl
    · repeat' split
      all_goals first | exact .same _ rfl | exact .deleted _ _ rfl
  | _ => exact .same _ rfl

theorem firstNumbered_eq_none {rows : List (Int × TaskEntity)} (first : firstNumbered rows = none) :
    rows = [] := by
  cases rows with
  | nil => rfl
  | cons row rest =>
    rw [firstNumbered] at first
    split at first
    · split at first <;> cases first
    · cases first

/-- The report of a task writes its row exactly when the row is there and not over. -/
theorem reportTask_cases (keyed : Keyed db) (now taskId : Int) (status : TaskStatus) :
    ((∀ row ∈ db.tasks, row.1 = taskId → isTaskTerminal row.2.status = true) ∧
      (db.reportTask now taskId status).1.tasks = db.tasks) ∨
    ((∃ row ∈ db.tasks, row.1 = taskId ∧ isTaskTerminal row.2.status = false) ∧
      (db.reportTask now taskId status).1.tasks = (db.updateTask taskId fun t => { t with
        status := status
        completedAt := if isTaskTerminal t.status then some now else t.completedAt }).tasks) := by
  rw [Db.reportTask]
  split
  · rename_i missing
    refine .inl ⟨fun row member here => ?_, rfl⟩
    have none_left := firstNumbered_eq_none missing
    rw [List.filter_eq_nil_iff] at none_left
    exact absurd (by simp [here]) (none_left row member)
  · rename_i id t found
    obtain ⟨member, here⟩ := mem_getTask found
    rcases here with rfl | rfl
    · -- no row has the id zero, so the update finds none
      have positive : ∀ row ∈ db.tasks, row.1 ≠ 0 := fun row listed => by
        have given := db.given row listed
        omega
      refine .inl ⟨fun row listed here => absurd here (positive row listed), ?_⟩
      split
      · rfl
      · refine (List.map_congr_left fun row listed => ?_).trans (List.map_id db.tasks)
        simp [positive row listed]
    · split
      · rename_i ended
        refine .inl ⟨fun row listed here => ?_, rfl⟩
        rw [keyed.unique member listed here]
        exact ended
      · rename_i going
        exact .inr ⟨⟨_, member, rfl, by simpa using going⟩, rfl⟩

theorem Keyed.after {db' : Db} (keyed : Keyed db) (after : TasksAfter now db db' op) : Keyed db' := by
  rw [Keyed]
  cases after with
  | same _ tasks => rwa [tasks]
  | canceled _ force chosen going tasks => rw [tasks]; exact keyed_mapTasks keyed _
  | timedOut taskId tasks => rw [tasks]; exact keyed_mapTasks keyed _
  | reported taskId status going tasks => rw [tasks]; exact keyed_mapTasks keyed _
  | deleted _ keep tasks => rw [tasks]; exact keyed_filterTasks keyed keep
  | created fresh tasks => rw [tasks]; exact keyed_insertTasks keyed fresh

end

/-- The database answers what it is asked. -/
theorem access_answered {s : State} {a : Action} {op : DbOp} (requested : request s.clock s.memory a = some op)
    (answered : a.ok = true) : access s a = op.exec s.clock s.db := by
  rw [access, requested]
  exact if_pos answered

theorem db_answered {s s' : State} {a : Action} {op : DbOp} (taken : step s a = some s')
    (requested : request s.clock s.memory a = some op) (answered : a.ok = true) :
    s'.db = (op.exec s.clock s.db).1 := by
  rw [(step_eq_some_iff.mp taken).2.1, access_answered requested answered]

/-- The database after a step: an operation that is sent and answered has its effect. -/
theorem step_db {s s' : State} {a : Action} (taken : step s a = some s') :
    (s'.db = s.db ∧ ∀ op, request s.clock s.memory a = some op → a.ok = false) ∨
      ∃ op, request s.clock s.memory a = some op ∧ a.ok = true ∧ s'.db = (op.exec s.clock s.db).1 := by
  rw [(step_eq_some_iff.mp taken).2.1, access]
  split
  · rename_i op requested
    split
    · rename_i answered
      exact .inr ⟨op, requested, answered, rfl⟩
    · rename_i silent
      exact .inl ⟨rfl, fun _ _ => by simpa using silent⟩
  · rename_i idle
    refine .inl ⟨rfl, fun op requested => ?_⟩
    rw [idle] at requested
    cases requested

theorem keyed_step {s s' : State} {a : Action} (keyed : Keyed s.db) (taken : step s a = some s') :
    Keyed s'.db := by
  rcases step_db taken with ⟨same, -⟩ | ⟨op, -, -, same⟩
  · rwa [same]
  · rw [same]
    exact keyed.after (tasksAfter_exec keyed s.clock op)

end Tio.Job
