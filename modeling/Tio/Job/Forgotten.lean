import Tio.Job.Rows
import Tio.Job.Runner

namespace Tio.Job

open Tio.Core

/-- The runner took the message that a cancellation or a deletion of the task sent. -/
def Handled (taskId : Int) (m : Memory) : Prop := .deleted (.task taskId) ∈ m.closures

/-- The action of the task went to the pool of the runner. -/
def Submitted (taskId : Int) (m : Memory) : Prop := ∃ w ∈ m.workers, w.task.taskId = taskId

/-- Nobody but the queue holds the task, and the queue holds it once at most. -/
structure OnlyQueued (taskId : Int) (m : Memory) : Prop where
  center : Held (fun _ t => t.taskId ≠ taskId) m
  reading : ∀ context taskIds, .readTasks context taskIds ∈ m.closures → taskId ∉ taskIds
  offline : ∀ entry ∈ m.offlineThingTasks, ∀ t ∈ entry.2, t.taskId ≠ taskId
  queue : (TaskQueue.getTasks m.curQ).countP (fun t => t.taskId = taskId) ≤ 1

/-- The runner takes the message for a task that somebody else still holds. -/
def Missed (s : State) (a : Action) : Prop :=
  ∃ i operation taskId, a = .recvDelete i ∧
    s.memory.closures[i]? = some (.submitted (.delete operation (.task taskId))) ∧
    ¬Submitted taskId s.memory ∧ ¬OnlyQueued taskId s.memory

/-- Nobody in the center or in the runner holds the task. -/
structure Forgotten (taskId : Int) (m : Memory) : Prop where
  center : Held (fun _ t => t.taskId ≠ taskId) m
  reading : ∀ context taskIds, .readTasks context taskIds ∈ m.closures → taskId ∉ taskIds
  runner : InRunner (fun t => t.taskId ≠ taskId) m

open TaskQueue

/-- What is known about every message that deletes a task, from the call that sends
it to the runner that handled it. -/
structure Settled (s : State) : Prop where
  indexed : Indexed s.memory.curQ
  calling : ∀ (k : Nat) (r : Request) (operation : String) (taskId : Int),
    s.memory.calls[k]? = some ⟨r, .submit (.delete operation (.task taskId))⟩ → Gone taskId s.db
  sending : ∀ (operation : String) (taskId : Int),
    .submitted (.delete operation (.task taskId)) ∈ s.memory.closures → Gone taskId s.db
  handled : ∀ taskId, Handled taskId s.memory → Gone taskId s.db
  forgotten : ∀ taskId, Handled taskId s.memory → ¬Submitted taskId s.memory →
    Forgotten taskId s.memory

section

variable {s s' : State} {a : Action} {taskId : Int}

/-- The ids that the creation of a job reads back are new ones. -/
theorem reading_step (taken : step s a = some s') (given : taskId < s.db.nextTaskId)
    (reading : ∀ context taskIds, .readTasks context taskIds ∈ s.memory.closures → taskId ∉ taskIds) :
    ∀ context taskIds, .readTasks context taskIds ∈ s'.memory.closures → taskId ∉ taskIds := by
  intro context taskIds member
  cases resume_closures (step_resume taken) member with
  | before _ _ old => exact reading context taskIds old
  | next i ok closure _ here continues =>
    cases Memory.runs_of_closureNext continues with
    | created context things ids replied =>
      rcases access_cases s (.run i ok) with ⟨-, failed⟩ | ⟨op, requested, same⟩
      · rw [failed] at replied
        cases replied
      · rw [same] at replied
        obtain ⟨tasks, rfl, rfl, -⟩ := exec_taskIds_reply replied
        intro listed
        obtain ⟨row, fresh, rfl⟩ := List.mem_map.mp listed
        have bounds := numbered_bounds fresh
        omega

/-- A task that is over in the table does not come back to anybody. -/
theorem forgotten_step (indexed : Indexed s.memory.curQ) (gone : Gone taskId s.db)
    (forgotten : Forgotten taskId s.memory) (taken : step s a = some s') :
    Forgotten taskId s'.memory := by
  have resumed := step_resume taken
  have put : ∀ i l rolloutTasks, s.memory.rollout = .put i l rolloutTasks →
      ∀ t ∈ rolloutTasks, t.taskId ≠ taskId := by
    intro i l rolloutTasks sender
    obtain ⟨v, -, apart⟩ := forgotten.center.put i l rolloutTasks sender
    exact apart
  refine ⟨held_step forgotten.center resumed ?_, reading_step taken gone.given forgotten.reading,
    inRunner_step indexed forgotten.runner put resumed⟩
  intro jobId row arrives here
  obtain ⟨listed, going | ⟨i, context, taskIds, reading, -, asked⟩⟩ := arrives_stored arrives
  · rw [gone.finished row listed here] at going
    cases going.2
  · exact forgotten.reading context taskIds (List.mem_of_getElem? reading) (here ▸ asked)

/-- What the message leaves behind when only the queue held the task. -/
theorem forgotten_of_onlyQueued {m : Memory} (i : Nat) (indexed : Indexed m.curQ)
    (only : OnlyQueued taskId m) (idle : m.sysOp = .select) :
    Forgotten taskId ((m.deleteTask (.task taskId)).setClosure i (.deleted (.task taskId))) := by
  have old : ∀ closure, (∀ msg, closure ≠ .deleted msg) →
      closure ∈ ((m.deleteTask (.task taskId)).setClosure i (.deleted (.task taskId))).closures →
      closure ∈ m.closures := by
    rw [deleteTask_task]
    intro closure apart member
    rcases List.mem_or_eq_of_mem_set member with before | same
    · exact before
    · exact absurd same (apart _)
  rw [deleteTask_task] at old ⊢
  refine ⟨only.center.congr rfl rfl fun item => old _ nofun, fun context taskIds member => ?_, ?_⟩
  · exact only.reading context taskIds (old _ nofun member)
  · refine ⟨fun t member => removeById_gone indexed only.queue member, only.offline, fun c t here => ?_⟩
    rw [Memory.setClosure, idle] at here
    cases here

/-- The message about one task is the answer to a transaction that ended the task. -/
theorem serveNext_submit_task {reply : Reply} {call : Call} {operation : String}
    (continues : Memory.serveNext reply call = some (.submit (.delete operation (.task taskId)))) :
    ∃ row, reply = .task row ∧ row.1 = taskId := by
  unfold Memory.serveNext at continues
  split at continues <;> grind

theorem access_task_gone {row : Int × TaskEntity} (replied : (access s a).2 = .task row) :
    Gone row.1 (access s a).1 := by
  rcases access_cases s a with ⟨-, failed⟩ | ⟨op, -, same⟩
  · rw [failed] at replied
    cases replied
  · rw [same] at replied ⊢
    exact exec_task_gone replied

/-- The task of a message is over when the message is on its way. -/
theorem settled_messages (settled : Settled s) (taken : step s a = some s') :
    (∀ (k : Nat) (r : Request) (operation : String) (taskId : Int),
      s'.memory.calls[k]? = some ⟨r, .submit (.delete operation (.task taskId))⟩ → Gone taskId s'.db) ∧
    (∀ (operation : String) (taskId : Int),
      .submitted (.delete operation (.task taskId)) ∈ s'.memory.closures → Gone taskId s'.db) ∧
    ∀ taskId, Handled taskId s'.memory → Gone taskId s'.db := by
  have resumed := step_resume taken
  have finished := (step_rows taken).finished
  have continued : ∀ {closure next : Closure} {reply : Reply},
      Memory.closureNext reply closure = some next →
      (∀ work, next ≠ .submitted work) ∧ ∀ msg, next ≠ .deleted msg := by
    intro closure next reply continues
    cases Memory.runs_of_closureNext continues <;> simp
  refine ⟨fun k r operation taskId found => ?_, fun operation taskId member => ?_, fun taskId member => ?_⟩
  · generalize after : (⟨r, .submit (.delete operation (.task taskId))⟩ : Call) = call at found
    cases resume_calls resumed found with
    | before _ _ _ here =>
      exact finished taskId (settled.calling k r operation taskId (after ▸ here))
    | served _ ok old pc here continues =>
      cases after
      obtain ⟨row, replied, rfl⟩ := serveNext_submit_task continues
      rw [(step_eq_some_iff.mp taken).2.1]
      exact access_task_gone replied
    | _ => cases after
  · cases resume_closures resumed member with
    | before _ _ old => exact finished taskId (settled.sending operation taskId old)
    | submitted i ok r _ here => exact finished taskId (settled.calling i r operation taskId here)
    | next i ok closure _ here continues => exact absurd rfl ((continued continues).1 _)
  · cases resume_closures resumed member with
    | before _ _ old => exact finished taskId (settled.handled taskId old)
    | deleted i operation _ here =>
      exact finished taskId (settled.sending operation taskId (List.mem_of_getElem? here))
    | next i ok closure _ here continues => exact absurd rfl ((continued continues).2 _)

/-- A message that the runner took before the step, or takes now. -/
theorem handled_cases (taken : step s a = some s') (handled : Handled taskId s'.memory) :
    Handled taskId s.memory ∨ ∃ i operation, a = .recvDelete i ∧
      s.memory.closures[i]? = some (.submitted (.delete operation (.task taskId))) := by
  cases resume_closures (step_resume taken) handled with
  | before _ _ old => exact .inl old
  | deleted i operation _ here => exact .inr ⟨i, operation, rfl, here⟩
  | next i ok closure _ here continues =>
    cases Memory.runs_of_closureNext continues

/-- What was submitted stays submitted. -/
theorem submitted_step (taken : step s a = some s') (submitted : Submitted taskId s.memory) :
    Submitted taskId s'.memory := by
  have frame := step_frame taken
  have resumed := step_resume taken
  obtain ⟨w, member, here⟩ := submitted
  obtain ⟨k, found⟩ := List.getElem?_of_mem member
  suffices same : ∃ w', s'.memory.workers[k]? = some w' ∧ w'.task = w.task by
    obtain ⟨w', found', same⟩ := same
    exact ⟨w', List.mem_of_getElem? found', by rw [same, here]⟩
  cases a with
  | sysOp online accepted =>
    simp only [resume, Memory.sysOpNext] at resumed
    split at resumed <;> grind
  | recvResult i | work i _ =>
    simp only [resume] at resumed
    grind
  | _ => exact ⟨w, by rw [frame.workers rfl, found], rfl⟩

/-- One step of the system keeps what is known about the messages. -/
theorem settled_step (settled : Settled s) (heard : ¬Missed s a) (taken : step s a = some s') :
    Settled s' := by
  obtain ⟨calling, sending, handled⟩ := settled_messages settled taken
  have resumed := step_resume taken
  refine ⟨indexed_step settled.indexed resumed, calling, sending, handled, ?_⟩
  intro taskId done fresh
  have fresh : ¬Submitted taskId s.memory := fun before => fresh (submitted_step taken before)
  rcases handled_cases taken done with before | ⟨i, operation, rfl, here⟩
  · exact forgotten_step settled.indexed (settled.handled taskId before)
      (settled.forgotten taskId before fresh) taken
  · have only : OnlyQueued taskId s.memory := by
      by_contra elsewhere
      exact heard ⟨i, operation, taskId, rfl, here, fresh, elsewhere⟩
    obtain ⟨operation', msg, idle, sender, system, after⟩ := resume_recvDelete resumed
    rw [here] at sender
    cases sender
    rw [after]
    exact forgotten_of_onlyQueued i settled.indexed only idle

/-- Only the task in the hand of the loop is submitted. -/
theorem unsubmitted_step (held : InRunner (fun t => t.taskId ≠ taskId) s.memory)
    (fresh : ¬Submitted taskId s.memory) (taken : step s a = some s') :
    ¬Submitted taskId s'.memory := by
  have workers : ∀ w ∈ s.memory.workers, w.task.taskId ≠ taskId :=
    fun w member here => fresh ⟨w, member, here⟩
  rintro ⟨w, member, here⟩
  exact workers_step (fun t => t.taskId ≠ taskId) workers held.hand (step_resume taken) w member here

/-- A task that the runner was told to forget is not submitted later. -/
theorem settled_unsubmitted (settled : Settled s) (taken : step s a = some s')
    (handled : Handled taskId s.memory) (fresh : ¬Submitted taskId s.memory) :
    ¬Submitted taskId s'.memory :=
  unsubmitted_step (settled.forgotten taskId handled fresh).runner fresh taken

end

/-- No step submits a task whose deletion was handled before it was submitted. -/
def StaysUnsubmitted (s : State) (s' : State) : Prop :=
  ∀ taskId, Handled taskId s.memory → ¬Submitted taskId s.memory → ¬Submitted taskId s'.memory

/-- In a run that misses no holder, a task whose cancellation or deletion the runner
handled before it was submitted is never submitted. -/
theorem unsubmitted_of_heard (db : Db) (clock : Int) (actions : List Action)
    (heard : Meets step (fun s a => ¬Missed s a) (boot db clock) actions) :
    Always step (fun s _ s' => StaysUnsubmitted s s') (boot db clock) actions := by
  refine Meets.always Settled ?_ heard ?_
  · intro s a s' settled heard taken
    exact ⟨fun taskId handled fresh => settled_unsubmitted settled taken handled fresh,
      settled_step settled heard taken⟩
  · exact ⟨fun i item found => by simp [boot] at found, by simp [boot], by simp [boot],
      by simp [boot, Handled], by simp [boot, Handled]⟩

/-- One job in progress that calls a method of one thing. -/
def methodDb : Db where
  jobs := [("a", { toEntity "$directMethod/x" ["thing"] none none none with status := .inProgress })]
  tasks := numbered 1 (toTaskEntities 0 "a" "$directMethod/x" ["thing"])
  nextTaskId := 2
  returning := true
  positive := second_positive
  given := numbered_given (by decide)

/-- The runner gets the task, which is canceled while the queue has it. -/
def queuedRun : List Action :=
  List.replicate 4 (.rollout true) ++ [.rolloutTick] ++ List.replicate 4 (.rollout true) ++
  [.recvPut, .rollout true, .rollout true] ++
  [.call (.cancelTask "thing" "a" 0 false), .serve 0 true, .serve 0 true]

theorem queuedRun_onlyQueued {s : State} (reached : execute step (boot methodDb 0) queuedRun = some s) :
    OnlyQueued 1 s.memory := by
  have center : (execute step (boot methodDb 0) queuedRun).map (fun s =>
      (s.memory.pendingJobs, s.memory.rollout, s.memory.closures)) =
      some ([], .select, [.submitted (.delete "$directMethod/x" (.task 1))]) := rfl
  have runner : (execute step (boot methodDb 0) queuedRun).map (fun s =>
      (s.memory.offlineThingTasks, (TaskQueue.getTasks s.memory.curQ).length)) = some ([], 1) := rfl
  simp only [reached, Option.map_some, Option.some.injEq, Prod.mk.injEq] at center runner
  obtain ⟨pending, idle, closures⟩ := center
  obtain ⟨offline, queue⟩ := runner
  refine ⟨⟨?_, ?_, ?_, ?_, ?_⟩, ?_, ?_, queue ▸ List.countP_le_length⟩
  all_goals simp [pending, idle, closures, offline]

/-- The runner handles the message, and the next turn finds nothing to submit. -/
theorem queued_task_unsubmitted : Always step (fun s _ s' => StaysUnsubmitted s s') (boot methodDb 0)
    (queuedRun ++ [.recvDelete 0, .sysOpTick, .sysOp (some true) true]) := by
  refine unsubmitted_of_heard methodDb 0 _ ?_
  have quiet : ∀ actions : List Action, (∀ a ∈ actions, ∀ i, a ≠ .recvDelete i) →
      ∀ s, Meets step (fun s a => ¬Missed s a) s actions := by
    refine fun actions others => meets_of_labels fun a member s => ?_
    rintro ⟨i, -, -, here, -⟩
    exact others a member i here
  refine Always.append (quiet _ (by simp [queuedRun]) _) fun s reached => ?_
  have only := queuedRun_onlyQueued reached
  have message : (execute step (boot methodDb 0) queuedRun).map (fun s => s.memory.closures[0]?) =
      some (some (.submitted (.delete "$directMethod/x" (.task 1)))) := rfl
  simp only [reached, Option.map_some, Option.some.injEq] at message
  refine fun next _ => ⟨?_, quiet _ (by simp) next⟩
  rintro ⟨i, operation, taskId, here, sender, -, elsewhere⟩
  cases here
  rw [message] at sender
  cases sender
  exact elsewhere only

/-- The task waits for its thing when it is canceled, and the thing comes online later. -/
def parkedRun : List Action :=
  List.replicate 4 (.rollout true) ++ [.rolloutTick] ++ List.replicate 4 (.rollout true) ++
  [.recvPut, .rollout true, .rollout true] ++
  [.sysOpTick, .sysOp none true, .sysOp (some false) true, .sysOp none true] ++
  [.call (.cancelTask "thing" "a" 0 false), .serve 0 true, .serve 0 true, .recvDelete 0] ++
  [.connect "thing" true, .sysOp none true]

theorem parked_task_submitted :
    (execute step (boot methodDb 0) parkedRun).map (fun s =>
      (s.memory.calls.map Call.pc, s.memory.closures, s.memory.workers)) =
      some ([.returned true], [.deleted (.task 1)], []) ∧
    ¬Always step (fun s _ s' => StaysUnsubmitted s s') (boot methodDb 0)
      (parkedRun ++ [.sysOp (some true) true]) := by
  have parked : (execute step (boot methodDb 0) parkedRun).map (fun s =>
      (s.memory.calls.map Call.pc, s.memory.closures, s.memory.workers)) =
      some ([.returned true], [.deleted (.task 1)], []) := rfl
  have submitted : (execute step (boot methodDb 0) parkedRun).bind (fun s =>
      (step s (.sysOp (some true) true)).map fun s' =>
        s'.memory.workers.map fun w => w.task.taskId) = some [1] := rfl
  refine ⟨parked, fun every => ?_⟩
  obtain ⟨s, reached, submits⟩ := Option.bind_eq_some_iff.mp submitted
  obtain ⟨s', taken, workers⟩ := Option.map_eq_some_iff.mp submits
  simp only [reached, Option.map_some, Option.some.injEq, Prod.mk.injEq] at parked
  obtain ⟨-, closures, idle⟩ := parked
  have unsubmitted := ((every.after reached) s' taken).1 1 (by simp [Handled, closures])
    (by simp [Submitted, idle])
  have present : 1 ∈ s'.memory.workers.map fun w => w.task.taskId := by simp [workers]
  exact unsubmitted (List.mem_map.mp present)

end Tio.Job
