import Tio.Job.Holders

namespace Tio.Job

open Tio.Core

/-- The task is not in the table any more, or it came to its end there. -/
structure Gone (taskId : Int) (db : Db) : Prop where
  given : taskId < db.nextTaskId
  finished : ∀ row ∈ db.tasks, row.1 = taskId → isTaskTerminal row.2.status = true

section

variable {now : Int} {db : Db} {op : DbOp} {taskId : Int}

theorem mem_firstNumbered {rows : List (Int × TaskEntity)} {row : Int × TaskEntity}
    (first : firstNumbered rows = some row) : row ∈ rows := by
  induction rows generalizing row with
  | nil => cases first
  | cons head rest ih =>
    rw [firstNumbered] at first
    split at first
    · rename_i other found
      split at first <;> cases first
      · exact List.mem_cons_of_mem _ (ih found)
      · exact List.mem_cons_self
    · cases first
      exact List.mem_cons_self

theorem mem_firstCreated {rows : List (Int × TaskEntity)} {row : Int × TaskEntity}
    (first : firstCreated rows = some row) : row ∈ rows := by
  induction rows generalizing row with
  | nil => cases first
  | cons head rest ih =>
    rw [firstCreated] at first
    split at first
    · rename_i other found
      split at first <;> cases first
      · exact List.mem_cons_of_mem _ (ih found)
      · exact List.mem_cons_self
    · cases first
      exact List.mem_cons_self

theorem mem_getTask {row : Int × TaskEntity} (found : db.getTask taskId = some row) :
    row ∈ db.tasks ∧ (taskId = 0 ∨ row.1 = taskId) := by
  have member := List.mem_filter.mp (mem_firstNumbered found)
  exact ⟨member.1, by simpa using member.2⟩

/-- What an operation keeps of the rows that are there. -/
structure RowsFrom (db db' : Db) : Prop where
  given : db.nextTaskId ≤ db'.nextTaskId
  rows : ∀ row ∈ db'.tasks, row.1 < db.nextTaskId →
    ∃ old ∈ db.tasks, old.1 = row.1 ∧ old.2.jobId = row.2.jobId
  finished : ∀ taskId, Gone taskId db → Gone taskId db'

theorem RowsFrom.of_tasks {db' : Db} (tasks : db'.tasks = db.tasks)
    (next : db'.nextTaskId = db.nextTaskId) : RowsFrom db db' := by
  refine ⟨Int.le_of_eq next.symm, fun row member _ => ⟨row, tasks ▸ member, rfl, rfl⟩, ?_⟩
  exact fun taskId gone => ⟨next ▸ gone.given, tasks ▸ gone.finished⟩

theorem RowsFrom.trans {db' db'' : Db} (first : RowsFrom db db') (second : RowsFrom db' db'') :
    RowsFrom db db'' := by
  refine ⟨Int.le_trans first.given second.given, fun row member known => ?_, fun taskId gone =>
    second.finished taskId (first.finished taskId gone)⟩
  obtain ⟨middle, between, here, jobId⟩ := second.rows row member (Int.lt_of_lt_of_le known first.given)
  obtain ⟨old, present, here', jobId'⟩ := first.rows middle between (here ▸ known)
  exact ⟨old, present, here'.trans here, jobId'.trans jobId⟩

theorem rowsFrom_mapTasks {change : Int × TaskEntity → TaskEntity}
    (keeps : ∀ row, (change row).jobId = row.2.jobId)
    (finished : ∀ row ∈ db.tasks, (∀ same ∈ db.tasks, same.1 = row.1 → isTaskTerminal same.2.status = true) →
      isTaskTerminal (change row).status = true) : RowsFrom db (db.mapTasks change) := by
  refine ⟨Int.le_refl _, fun row member _ => ?_, fun taskId gone => ⟨gone.given, fun row member here => ?_⟩⟩
  · obtain ⟨old, present, rfl⟩ := List.mem_map.mp member
    exact ⟨old, present, rfl, (keeps old).symm⟩
  · obtain ⟨old, present, rfl⟩ := List.mem_map.mp member
    exact finished old present fun same listed also => gone.finished same listed (also.trans here)

theorem rowsFrom_filterTasks (keep : Int × TaskEntity → Bool) : RowsFrom db (db.filterTasks keep) := by
  refine ⟨Int.le_refl _, fun row member _ => ⟨row, (List.mem_filter.mp member).1, rfl, rfl⟩, ?_⟩
  exact fun taskId gone =>
    ⟨gone.given, fun row member => gone.finished row (List.mem_filter.mp member).1⟩

theorem rowsFrom_insertTasks (tasks : List TaskEntity) : RowsFrom db (db.insertTasks tasks) := by
  refine ⟨?_, fun row member known => ?_, fun taskId gone => ⟨?_, fun row member here => ?_⟩⟩
  · simp only [Db.insertTasks]
    omega
  · rcases List.mem_append.mp member with old | fresh
    · exact ⟨row, old, rfl, rfl⟩
    · have bounds := numbered_bounds fresh
      omega
  · have given := gone.given
    simp only [Db.insertTasks]
    omega
  · rcases List.mem_append.mp member with old | fresh
    · exact gone.finished row old here
    · have bounds := numbered_bounds fresh
      have given := gone.given
      omega

theorem rowsFrom_updateTask {change : TaskEntity → TaskEntity}
    (keeps : ∀ t, (change t).jobId = t.jobId)
    (finished : ∀ row ∈ db.tasks, row.1 = taskId →
      (∀ same ∈ db.tasks, same.1 = taskId → isTaskTerminal same.2.status = true) →
      isTaskTerminal (change row.2).status = true) : RowsFrom db (db.updateTask taskId change) := by
  refine rowsFrom_mapTasks (fun row => ?_) fun row member ended => ?_
  · split
    · exact keeps row.2
    · rfl
  · split
    · rename_i here
      exact finished row member here (here ▸ ended)
    · exact ended row member rfl

theorem rowsFrom_cancelTasks (now : Int) (jobId : String) (force : Bool) :
    RowsFrom db (db.cancelTasks now jobId force) := by
  refine rowsFrom_mapTasks (fun row => ?_) fun row member ended => ?_
  · split <;> rfl
  · split
    · rfl
    · exact ended row member rfl

/-- The transaction asks whether the row is over; no row has the id zero. -/
theorem rowsFrom_reportTask (now : Int) (status : TaskStatus) :
    RowsFrom db (db.reportTask now taskId status).1 := by
  rw [Db.reportTask]
  split
  · exact .of_tasks rfl rfl
  · rename_i id t found
    split
    · exact .of_tasks rfl rfl
    · rename_i going
      obtain ⟨member, here⟩ := mem_getTask found
      dsimp only
      apply rowsFrom_updateTask
      · exact fun _ => rfl
      · intro row listed same ended
        rcases here with rfl | here
        · have bounds := db.given row listed
          omega
        · exact absurd (ended _ member here) going

theorem exec_rows (now : Int) (db : Db) (op : DbOp) : RowsFrom db (op.exec now db).1 := by
  cases op with
  | createTasks tasks =>
    rw [DbOp.exec, Db.createTasks]
    split
    · exact .of_tasks rfl rfl
    · exact rowsFrom_insertTasks tasks
  | createJob jobId j =>
    rw [DbOp.exec]
    split <;> exact .of_tasks rfl rfl
  | updateJob jobId change =>
    rw [DbOp.exec, Db.updateJob]
    split <;> exact .of_tasks rfl rfl
  | cancelJob jobId force =>
    rw [DbOp.exec, Db.cancelJob]
    split
    · exact .of_tasks rfl rfl
    · split
      · exact .of_tasks rfl rfl
      · split
        · exact .of_tasks rfl rfl
        · have updated : RowsFrom db (db.updateJob jobId ⟨some .canceling, none, none, some force, none⟩) := by
            rw [Db.updateJob]
            split <;> exact .of_tasks rfl rfl
          exact updated.trans (rowsFrom_cancelTasks now jobId force)
  | deleteJob jobId force =>
    have deleted : RowsFrom db (db.filterTasks fun row => row.2.jobId ≠ jobId) :=
      rowsFrom_filterTasks _
    rw [DbOp.exec, Db.deleteJob]
    split
    · exact deleted.trans (.of_tasks rfl rfl)
    · split
      · exact .of_tasks rfl rfl
      · split
        · exact .of_tasks rfl rfl
        · exact deleted.trans (.of_tasks rfl rfl)
  | cancelTasks jobId force => exact rowsFrom_cancelTasks now jobId force
  | timeOutTask taskId =>
    dsimp only [DbOp.exec]
    apply rowsFrom_updateTask
    · exact fun _ => rfl
    · exact fun _ _ _ _ => rfl
  | reportTask taskId status => exact rowsFrom_reportTask now status
  | cancelTask thingId jobId version force =>
    rw [DbOp.exec, Db.cancelTask]
    split
    · exact .of_tasks rfl rfl
    · rename_i id t found
      have same : RowsFrom db db := .of_tasks rfl rfl
      repeat' split
      all_goals first | exact same | dsimp only
      apply rowsFrom_updateTask
      · exact fun _ => rfl
      · exact fun _ _ _ _ => rfl
  | deleteTask thingId jobId taskId force =>
    rw [DbOp.exec, Db.deleteTask]
    split
    · exact .of_tasks rfl rfl
    · rename_i id t found
      have deleted : RowsFrom db (db.filterTasks fun row => row.1 ≠ id) := rowsFrom_filterTasks _
      have same : RowsFrom db db := .of_tasks rfl rfl
      repeat' split
      all_goals first | exact same | exact deleted
  | _ => exact .of_tasks rfl rfl

theorem gone_updateTask {row : Int × TaskEntity} (member : row ∈ db.tasks)
    {change : TaskEntity → TaskEntity} (finished : ∀ t, isTaskTerminal (change t).status = true) :
    Gone row.1 (db.updateTask row.1 change) := by
  refine ⟨(db.given row member).2, fun other listed here => ?_⟩
  obtain ⟨old, -, rfl⟩ := List.mem_map.mp listed
  dsimp only at here ⊢
  rw [if_pos here]
  exact finished old.2

theorem gone_filterTasks {row : Int × TaskEntity} (member : row ∈ db.tasks) :
    Gone row.1 (db.filterTasks fun other => other.1 ≠ row.1) := by
  refine ⟨(db.given row member).2, fun other listed here => ?_⟩
  have kept := (List.mem_filter.mp listed).2
  simp [here] at kept

/-- The transactions that end a task leave it over. -/
theorem exec_task_gone {row : Int × TaskEntity} (replied : (op.exec now db).2 = .task row) :
    Gone row.1 (op.exec now db).1 := by
  cases op with
  | cancelTask thingId jobId version force =>
    rw [DbOp.exec, Db.cancelTask] at replied ⊢
    split at replied
    · cases replied
    · rename_i id t found
      have listed := (List.mem_filter.mp (mem_firstCreated found)).1
      have canceled : Gone id (db.updateTask id fun t =>
          { t with status := .canceled, forceCanceled := force, completedAt := some now }) :=
        gone_updateTask listed fun _ => rfl
      grind
  | deleteTask thingId jobId taskId force =>
    rw [DbOp.exec, Db.deleteTask] at replied ⊢
    split at replied
    · cases replied
    · rename_i id t found
      have deleted := gone_filterTasks (mem_getTask found).1
      grind
  | _ =>
    simp only [DbOp.exec, Db.cancelJob, Db.deleteJob, Db.createTasks, Db.reportTask] at replied
    grind

theorem not_terminal_of_pending {status : TaskStatus} (pending : isTaskPending status = true) :
    isTaskTerminal status = false := by
  cases status <;> first | rfl | cases pending

theorem not_terminal_of_ongoing {status : TaskStatus} (ongoing : isTaskOngoing status = true) :
    isTaskTerminal status = false := by
  cases status <;> first | rfl | cases ongoing

/-- The rows of a reply are rows of the table. Those that are asked for by their
status are not over. -/
theorem exec_tasks_reply {rows : List (Int × TaskEntity)} (replied : (op.exec now db).2 = .tasks rows) :
    ∀ row ∈ rows, row ∈ db.tasks ∧
      ((∃ jobIds, op = .pendingTasks jobIds ∧ isTaskTerminal row.2.status = false) ∨
        (∃ jobId, op = .tasksOfJob jobId ∧ row.2.jobId = jobId ∧ isTaskTerminal row.2.status = false) ∨
        ∃ taskIds, op = .tasksById taskIds ∧ row.1 ∈ taskIds) := by
  cases op with
  | pendingTasks jobIds =>
    cases replied
    intro row member
    obtain ⟨listed, asked⟩ := List.mem_filter.mp member
    refine ⟨listed, .inl ⟨jobIds, rfl, ?_⟩⟩
    exact not_terminal_of_pending (Bool.and_eq_true_iff.mp asked).2
  | tasksOfJob jobId =>
    cases replied
    intro row member
    obtain ⟨selected, asked⟩ := List.mem_filter.mp member
    obtain ⟨listed, here⟩ := List.mem_filter.mp selected
    refine ⟨listed, .inr (.inl ⟨jobId, rfl, by simpa using here, ?_⟩)⟩
    exact not_terminal_of_ongoing (by simpa using asked)
  | tasksById taskIds =>
    cases replied
    intro row member
    obtain ⟨listed, asked⟩ := List.mem_filter.mp member
    exact ⟨listed, .inr (.inr ⟨taskIds, rfl, by simpa using asked⟩)⟩
  | _ =>
    simp only [DbOp.exec, Db.cancelJob, Db.deleteJob, Db.createTasks, Db.reportTask, Db.cancelTask,
      Db.deleteTask] at replied
    grind

theorem exec_taskIds_reply {ids : List Int} (replied : (op.exec now db).2 = .taskIds ids) :
    ∃ tasks, op = .createTasks tasks ∧ ids = (numbered db.nextTaskId tasks).map Prod.fst ∧
      (op.exec now db).1 = db.insertTasks tasks := by
  cases op with
  | createTasks tasks =>
    rw [DbOp.exec, Db.createTasks] at replied ⊢
    split at replied
    · cases replied
    · rename_i filled
      cases replied
      exact ⟨tasks, rfl, rfl, by rw [if_neg filled]⟩
  | _ =>
    simp only [DbOp.exec, Db.cancelJob, Db.deleteJob, Db.reportTask, Db.cancelTask, Db.deleteTask]
      at replied
    grind

end

/-- The database after a step and its reply. -/
theorem access_cases (s : State) (a : Action) :
    ((access s a).1 = s.db ∧ (access s a).2 = .failed) ∨
      ∃ op, request s.clock s.memory a = some op ∧ access s a = op.exec s.clock s.db := by
  rw [access]
  split
  · rename_i op requested
    split
    · exact .inr ⟨op, requested, rfl⟩
    · exact .inl ⟨rfl, rfl⟩
  · exact .inl ⟨rfl, rfl⟩

theorem step_rows {s s' : State} {a : Action} (taken : step s a = some s') : RowsFrom s.db s'.db := by
  rw [(step_eq_some_iff.mp taken).2.1]
  rcases access_cases s a with ⟨same, -⟩ | ⟨op, -, same⟩
  · rw [same]
    exact .of_tasks rfl rfl
  · rw [same]
    exact exec_rows s.clock s.db op

/-- A row that arrives is in the table: it is not over there, or its id is one that
the creation of a job reads back. -/
theorem arrives_stored {s : State} {a : Action} {jobId : String} {row : Int × TaskEntity}
    (arrives : Arrives s.memory (access s a).2 a jobId row) :
    row ∈ s.db.tasks ∧ ((row.2.jobId = jobId ∧ isTaskTerminal row.2.status = false) ∨
      ∃ (i : Nat) (context : JobContext) (taskIds : List Int),
        s.memory.closures[i]? = some (.readTasks context taskIds) ∧ context.jobId = jobId ∧
          row.1 ∈ taskIds) := by
  have replied : ∀ rows, (access s a).2 = .tasks rows → ∃ op,
      request s.clock s.memory a = some op ∧ (op.exec s.clock s.db).2 = .tasks rows := by
    intro rows reply
    rcases access_cases s a with ⟨-, failed⟩ | ⟨op, requested, same⟩
    · rw [failed] at reply
      cases reply
    · exact ⟨op, requested, same ▸ reply⟩
  cases arrives with
  | preload ok jobs rows _ here reply member =>
    obtain ⟨op, requested, reply'⟩ := replied rows reply
    obtain ⟨listed, kinds⟩ := exec_tasks_reply reply' row member
    simp only [request, Memory.rolloutOp, here] at requested
    cases requested
    grind
  | reload ok i l v rows _ here found reply member =>
    obtain ⟨op, requested, reply'⟩ := replied rows reply
    obtain ⟨listed, kinds⟩ := exec_tasks_reply reply' row member
    simp only [request, Memory.rolloutOp, Memory.current, here, found, bind, Option.bind_some] at requested
    cases requested
    grind
  | created ok i context taskIds rows _ here reply member =>
    obtain ⟨op, requested, reply'⟩ := replied rows reply
    obtain ⟨listed, kinds⟩ := exec_tasks_reply reply' row member
    simp only [request, here, bind, Option.bind_some, Memory.closureOp] at requested
    cases requested
    refine ⟨listed, .inr ⟨i, context, taskIds, here, rfl, ?_⟩⟩
    grind

end Tio.Job
