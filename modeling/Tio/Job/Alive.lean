import Tio.Job.Owner

namespace Tio.Job

open Tio.Core

/-- The task is stored for the job, and it is not over. -/
def Alive (jobId : String) (db : Db) (taskId : Int) : Prop :=
  ∃ row ∈ db.tasks, row.1 = taskId ∧ row.2.jobId = jobId ∧ isTaskTerminal row.2.status = false

/-- The operation may end the task. -/
inductive DbOp.Ending (now : Int) (db : Db) (jobId : String) (taskId : Int) : DbOp → Prop
  | cancelJob (force : Bool) : Ending now db jobId taskId (.cancelJob jobId force)
  | deleteJob (force : Bool) : Ending now db jobId taskId (.deleteJob jobId force)
  | cancelTasks (force : Bool) : Ending now db jobId taskId (.cancelTasks jobId force)
  | timeOutTask : Ending now db jobId taskId (.timeOutTask taskId)
  | reportTask (status : TaskStatus) (ends : isTaskTerminal status = true) :
      Ending now db jobId taskId (.reportTask taskId status)
  | answered (op : DbOp) (row : Int × TaskEntity) (member : row ∈ db.tasks)
      (replied : (op.exec now db).2 = .task row) (named : row.1 = taskId) : Ending now db jobId taskId op

section

variable {now : Int} {db : Db} {op : DbOp} {jobId : String} {taskId : Int}

theorem Alive.congr {db' : Db} (alive : Alive jobId db taskId) (same : db'.tasks = db.tasks) :
    Alive jobId db' taskId := by
  rwa [Alive, same]

theorem Alive.mapTasks {change : Int × TaskEntity → TaskEntity} (alive : Alive jobId db taskId)
    (spares : ∀ row ∈ db.tasks, row.1 = taskId → row.2.jobId = jobId → isTaskTerminal row.2.status = false →
      (change row).jobId = jobId ∧ isTaskTerminal (change row).status = false) :
    Alive jobId (db.mapTasks change) taskId := by
  obtain ⟨row, member, here, named, going⟩ := alive
  exact ⟨_, List.mem_map_of_mem member, here, spares row member here named going⟩

theorem Alive.updateTask {other : Int} {change : TaskEntity → TaskEntity} (alive : Alive jobId db taskId)
    (spares : other = taskId → ∀ t, isTaskTerminal t.status = false →
      (change t).jobId = t.jobId ∧ isTaskTerminal (change t).status = false) :
    Alive jobId (db.updateTask other change) taskId := by
  refine alive.mapTasks fun row member here named going => ?_
  split
  · rename_i same
    obtain ⟨kept, going'⟩ := spares (same.symm.trans here) row.2 going
    exact ⟨kept.trans named, going'⟩
  · exact ⟨named, going⟩

theorem Alive.filterTasks {keep : Int × TaskEntity → Bool} (alive : Alive jobId db taskId)
    (kept : ∀ row ∈ db.tasks, row.1 = taskId → row.2.jobId = jobId → keep row = true) :
    Alive jobId (db.filterTasks keep) taskId := by
  obtain ⟨row, member, here, named, going⟩ := alive
  exact ⟨row, List.mem_filter.mpr ⟨member, kept row member here named⟩, here, named, going⟩

theorem Alive.cancelTasks {other : String} {force : Bool} (alive : Alive jobId db taskId)
    (apart : other ≠ jobId) : Alive jobId (db.cancelTasks now other force) taskId := by
  refine alive.mapTasks fun row member here named going => ?_
  rw [if_neg fun selected => apart (selected.1.symm.trans named)]
  exact ⟨named, going⟩

/-- The transaction on a task is refused, or it answers with the row that it changes. -/
theorem cancelTask_cases (db : Db) (now : Int) (thingId other : String) (version : Int) (force : Bool) :
    db.cancelTask now thingId other version force = (db, .failed) ∨ ∃ row ∈ db.tasks,
      db.cancelTask now thingId other version force = (db.updateTask row.1 fun t => { t with
        status := .canceled
        forceCanceled := force
        completedAt := some now }, .task row) := by
  rw [Db.cancelTask]
  split
  · exact .inl rfl
  · rename_i id t found
    have member := (List.mem_filter.mp (mem_firstCreated found)).1
    repeat' split
    all_goals first | exact .inl rfl | exact .inr ⟨(id, t), member, rfl⟩

theorem deleteTask_cases (db : Db) (thingId other : String) (id : Int) (force : Bool) :
    db.deleteTask thingId other id force = (db, .failed) ∨ ∃ row ∈ db.tasks,
      db.deleteTask thingId other id force = (db.filterTasks fun kept => kept.1 ≠ row.1, .task row) := by
  rw [Db.deleteTask]
  split
  · exact .inl rfl
  · rename_i id t found
    have member := (mem_getTask found).1
    repeat' split
    all_goals first | exact .inl rfl | exact .inr ⟨(id, t), member, rfl⟩

theorem alive_exec (keyed : Keyed db) (now : Int) (alive : Alive jobId db taskId) :
    Alive jobId (op.exec now db).1 taskId ∨ op.Ending now db jobId taskId := by
  cases op with
  | createTasks tasks =>
    left
    rw [DbOp.exec, Db.createTasks]
    split
    · exact alive
    · obtain ⟨row, member, here⟩ := alive
      exact ⟨row, List.mem_append_left _ member, here⟩
  | createJob other j =>
    left
    rw [DbOp.exec]
    split <;> exact alive
  | updateJob other change =>
    left
    rw [DbOp.exec, Db.updateJob]
    split <;> exact alive
  | cancelJob other force =>
    by_cases named : other = jobId
    · exact .inr (named ▸ .cancelJob force)
    · left
      rw [DbOp.exec, Db.cancelJob]
      have still : ∀ change, Alive jobId (db.updateJob other change) taskId := by
        intro change
        rw [Db.updateJob]
        split <;> exact alive
      repeat' split
      all_goals first | exact alive | exact (still _).cancelTasks named
  | deleteJob other force =>
    by_cases named : other = jobId
    · exact .inr (named ▸ .deleteJob force)
    · left
      rw [DbOp.exec, Db.deleteJob]
      have still : Alive jobId (db.filterTasks fun row => row.2.jobId ≠ other) taskId :=
        alive.filterTasks fun row _ _ about => by simpa [about] using Ne.symm named
      repeat' split
      all_goals first | exact alive | exact still
  | cancelTasks other force =>
    by_cases named : other = jobId
    · exact .inr (named ▸ .cancelTasks force)
    · exact .inl (alive.cancelTasks named)
  | timeOutTask other =>
    by_cases named : other = taskId
    · exact .inr (named ▸ .timeOutTask)
    · exact .inl (alive.updateTask fun same => absurd same named)
  | reportTask other status =>
    by_cases ends : other = taskId ∧ isTaskTerminal status = true
    · obtain ⟨rfl, ends⟩ := ends
      exact .inr (.reportTask status ends)
    · left
      rcases reportTask_cases keyed now other status with ⟨-, same⟩ | ⟨-, same⟩
      · exact alive.congr same
      · refine Alive.congr ?_ same
        exact alive.updateTask fun named t going => ⟨rfl, eq_false_of_ne_true fun finished => ends ⟨named, finished⟩⟩
  | cancelTask thingId other version force =>
    rcases cancelTask_cases db now thingId other version force with same | ⟨row, member, same⟩
    · exact .inl (alive.congr (by rw [DbOp.exec, same]))
    · by_cases named : row.1 = taskId
      · exact .inr (.answered _ row member (by rw [DbOp.exec, same]) named)
      · rw [DbOp.exec, same]
        exact .inl (alive.updateTask fun here => absurd here named)
  | deleteTask thingId other id force =>
    rcases deleteTask_cases db thingId other id force with same | ⟨row, member, same⟩
    · exact .inl (alive.congr (by rw [DbOp.exec, same]))
    · by_cases named : row.1 = taskId
      · exact .inr (.answered _ row member (by rw [DbOp.exec, same]) named)
      · rw [DbOp.exec, same]
        exact .inl (alive.filterTasks fun kept _ here _ => by simpa [here] using Ne.symm named)
  | _ => exact .inl alive

end

end Tio.Job
