import Tio.Job.Holders

namespace Tio.Job

open Tio.Core TaskQueue

/-- Every task that waits for its submission satisfies `good`. -/
structure InRunner (good : Task → Prop) (m : Memory) : Prop where
  queue : ∀ t ∈ getTasks m.curQ, good t
  offline : ∀ entry ∈ m.offlineThingTasks, ∀ t ∈ entry.2, good t
  hand : ∀ c t, m.sysOp = .submit c t → good t

/-- Every task that was submitted, and every task of a change, satisfies `good`. -/
structure Underway (good : Task → Prop) (m : Memory) : Prop where
  workers : ∀ w ∈ m.workers, good w.task
  sent : ∀ c t, m.sysOp = .sendSent c t → good t
  update : ∀ msg, m.change = .update msg → good msg.task
  send : ∀ msg, m.change = .send msg → good msg.task

section

variable {now : Int} {m m' : Memory} {reply : Reply} {a : Action} {good : Task → Prop}

theorem InRunner.mono {weak strong : Task → Prop} (held : InRunner strong m)
    (weaker : ∀ t, strong t → weak t) : InRunner weak m :=
  ⟨fun t member => weaker t (held.queue t member),
    fun entry member t within => weaker t (held.offline entry member t within),
    fun c t here => weaker t (held.hand c t here)⟩

theorem Underway.mono {weak strong : Task → Prop} (underway : Underway strong m)
    (weaker : ∀ t, strong t → weak t) : Underway weak m :=
  ⟨fun w member => weaker w.task (underway.workers w member),
    fun c t here => weaker t (underway.sent c t here),
    fun msg here => weaker msg.task (underway.update msg here),
    fun msg here => weaker msg.task (underway.send msg here)⟩

theorem InRunner.and {first second : Task → Prop} (one : InRunner first m) (other : InRunner second m) :
    InRunner (fun t => first t ∧ second t) m :=
  ⟨fun t member => ⟨one.queue t member, other.queue t member⟩,
    fun entry member t within => ⟨one.offline entry member t within, other.offline entry member t within⟩,
    fun c t here => ⟨one.hand c t here, other.hand c t here⟩⟩

theorem Underway.and {first second : Task → Prop} (one : Underway first m) (other : Underway second m) :
    Underway (fun t => first t ∧ second t) m :=
  ⟨fun w member => ⟨one.workers w member, other.workers w member⟩,
    fun c t here => ⟨one.sent c t here, other.sent c t here⟩,
    fun msg here => ⟨one.update msg here, other.update msg here⟩,
    fun msg here => ⟨one.send msg here, other.send msg here⟩⟩

theorem InRunner.congr (held : InRunner good m) (queue : m'.curQ = m.curQ)
    (offline : m'.offlineThingTasks = m.offlineThingTasks)
    (hand : ∀ c t, m'.sysOp = .submit c t → m.sysOp = .submit c t) : InRunner good m' :=
  ⟨queue ▸ held.queue, offline ▸ held.offline, fun c t here => held.hand c t (hand c t here)⟩

/-- Parking a task adds it to the tasks of its thing. -/
theorem mem_parked {t u : Task} {entry : String × List Task}
    (member : entry ∈ Assoc.set t.thingId
      ((Assoc.get t.thingId m.offlineThingTasks).getD [] ++ [t]) m.offlineThingTasks)
    (within : u ∈ entry.2) : u = t ∨ ∃ old ∈ m.offlineThingTasks, u ∈ old.2 := by
  rcases Assoc.mem_set member with rfl | old
  · rcases List.mem_append.mp within with waiting | last
    · cases found : Assoc.get t.thingId m.offlineThingTasks with
      | none => simp [found] at waiting
      | some tasks =>
        rw [found] at waiting
        exact .inr ⟨_, Assoc.mem_of_get found, waiting⟩
    · exact .inl (List.mem_singleton.mp last)
  · exact .inr ⟨entry, old, within⟩

/-- One turn of the loop pops a task, parks it or submits it. -/
theorem sysOpNext_sound (good : Task → Prop) {online : Option Bool} {accepted : Bool}
    (taken : m.sysOpNext online accepted = some m') :
    (Indexed m.curQ → Indexed m'.curQ) ∧ (InRunner good m → InRunner good m') := by
  cases Memory.operates_of_sysOpNext taken with
  | rests c here => exact ⟨id, fun held => held.congr rfl rfl (by intros; contradiction)⟩
  | drops c t rest here popped barred =>
    obtain ⟨perm, kept⟩ := pop_perm popped
    refine ⟨kept, fun held => ⟨fun u member => held.queue u ?_, held.offline, by intros; contradiction⟩⟩
    exact perm.mem_iff.mpr (List.mem_cons_of_mem _ member)
  | takes c t rest context here popped _ going =>
    obtain ⟨perm, kept⟩ := pop_perm popped
    refine ⟨kept, fun held => ⟨fun u member => held.queue u ?_, held.offline, fun c' u same => ?_⟩⟩
    · exact perm.mem_iff.mpr (List.mem_cons_of_mem _ member)
    · cases same
      exact held.queue t (perm.mem_iff.mpr List.mem_cons_self)
  | parks c t here offline =>
    refine ⟨id, fun held => ⟨held.queue, fun entry member u within => ?_, by intros; contradiction⟩⟩
    rcases mem_parked member within with rfl | ⟨old, present, waiting⟩
    · exact held.hand c u here
    · exact held.offline old present u waiting
  | returns c t here system full =>
    refine ⟨indexed_push, fun held => ⟨fun u member => ?_, held.offline, by intros; contradiction⟩⟩
    rcases mem_push.mp member with rfl | old
    · exact held.hand c u here
    · exact held.queue u old
  | submits c t here =>
    refine ⟨id, fun held => ⟨held.queue, held.offline, fun c' u same => ?_⟩⟩
    dsimp only at same
    split at same <;> cases same

theorem connected_sound (good : Task → Prop) (m : Memory) (thingId : String) :
    (Indexed m.curQ → Indexed (m.connected thingId).curQ) ∧
      (InRunner good m → InRunner good (m.connected thingId)) := by
  unfold Memory.connected
  split
  · rename_i tasks found
    refine ⟨indexed_pushAll, fun held => ⟨fun u member => ?_, fun entry member => ?_, held.hand⟩⟩
    · rcases mem_pushAll.mp member with back | old
      · exact held.offline _ (Assoc.mem_of_get found) u back
      · exact held.queue u old
    · exact held.offline entry (Assoc.mem_erase member)
  · exact ⟨id, id⟩

/-- The message takes ids out of the queue, and leaves of the lists of the things that are
offline all but tasks that it names. The ids are its own, or those of the job's tasks. -/
theorem deleteTask_removes (msg : DeleteTaskMsg) (m : Memory) : ∃ ids keep,
    m.deleteTask msg = { m with
      curQ := removeIds ids m.curQ
      offlineThingTasks := m.offlineThingTasks.map fun (thingId, v) => (thingId, v.filter keep) } ∧
    (∀ t, keep t = false → msg.Names t) ∧
    ∀ id ∈ ids, (∀ t : Task, t.taskId = id → msg.Names t) ∨ ∃ t ∈ getTasks m.curQ, t.taskId = id ∧ msg.Names t := by
  have unchanged : m.offlineThingTasks.map (fun (thingId, v) => (thingId, v.filter fun _ => true)) =
      m.offlineThingTasks := by
    simp
  rw [Memory.deleteTask]
  split
  · rename_i given
    refine ⟨msg.tasks, fun _ => true, ?_, by simp, fun id member => .inl fun t same => ?_⟩
    · simp only [rebuilt_eq, List.filter_true]
    · rw [DeleteTaskMsg.Names, if_pos given, same]
      exact member
  · rename_i bare
    split
    · rename_i named
      refine ⟨_, _, rfl, fun t gone => ?_, fun id member => ?_⟩
      · rw [DeleteTaskMsg.Names, if_neg bare]
        exact ⟨named, by simpa using gone⟩
      · obtain ⟨t, present, rfl⟩ := List.mem_map.mp member
        obtain ⟨queued, same⟩ := List.mem_filter.mp present
        refine .inr ⟨t, queued, rfl, ?_⟩
        rw [DeleteTaskMsg.Names, if_neg bare]
        exact ⟨named, of_decide_eq_true same⟩
    · refine ⟨[], fun _ => true, ?_, by simp, by simp⟩
      rw [unchanged]
      rfl

/-- The message about one task takes it out of the queue only. -/
theorem deleteTask_task (taskId : Int) (m : Memory) :
    m.deleteTask (.task taskId) = { m with curQ := removeById taskId m.curQ } := by
  rw [Memory.deleteTask, if_pos (List.cons_ne_nil taskId [])]
  simp [rebuilt_eq, removeIds]

theorem deleteTask_sound (good : Task → Prop) (msg : DeleteTaskMsg) (indexed : Indexed m.curQ) :
    Indexed (m.deleteTask msg).curQ ∧ (InRunner good m → InRunner good (m.deleteTask msg)) := by
  obtain ⟨ids, keep, same, -, -⟩ := deleteTask_removes msg m
  obtain ⟨kept, fewer⟩ := removeIds_sound ids indexed
  rw [same]
  refine ⟨kept, fun held => ⟨fun u member => held.queue u (fewer u member), fun entry member u within => ?_,
    held.hand⟩⟩
  obtain ⟨old, present, rfl⟩ := List.mem_map.mp member
  exact held.offline old present u (List.mem_filter.mp within).1

/-- The queue knows its positions after every step. -/
theorem indexed_step (indexed : Indexed m.curQ) (taken : resume now m reply a = some m') :
    Indexed m'.curQ := by
  have frame := resume_frame taken
  cases a with
  | sysOp online accepted => exact (sysOpNext_sound (fun _ => True) taken).1 indexed
  | connect thingId up =>
    have kept := (connected_sound (fun _ => True) m thingId).1 indexed
    simp only [resume] at taken
    grind
  | recvPut =>
    obtain ⟨i, l, rolloutTasks, idle, sender, rfl⟩ := resume_recvPut taken
    exact indexed_pushAll indexed
  | recvEndDelete =>
    obtain ⟨i, l, v, idle, sender, found, rfl⟩ := resume_recvEndDelete taken
    exact (deleteTask_sound (fun _ => True) (.job v.context.jobId) indexed).1
  | recvDelete i =>
    obtain ⟨operation, msg, idle, sender, system, rfl⟩ := resume_recvDelete taken
    exact (deleteTask_sound (fun _ => True) msg indexed).1
  | _ => exact frame.curQ rfl ▸ indexed

/-- What waits in the runner is what waited there, or the loop receives it. -/
theorem inRunner_received (indexed : Indexed m.curQ) (held : InRunner good m)
    (put : a = .recvPut → ∀ i l rolloutTasks, m.rollout = .put i l rolloutTasks → ∀ t ∈ rolloutTasks, good t)
    (taken : resume now m reply a = some m') : InRunner good m' := by
  have frame := resume_frame taken
  cases a with
  | sysOp online accepted => exact (sysOpNext_sound good taken).2 held
  | sysOpTick | recvSent =>
    refine held.congr (frame.curQ rfl) (frame.offlineThingTasks rfl) fun c t here => ?_
    simp only [resume] at taken
    grind
  | connect thingId up =>
    have back := (connected_sound good m thingId).2 held
    simp only [resume] at taken
    split at taken
    · cases taken
      cases up with
      | true => exact back.congr rfl rfl (by intros; contradiction)
      | false => exact held.congr rfl rfl (by intros; contradiction)
    · cases taken
  | recvPut =>
    obtain ⟨i, l, rolloutTasks, idle, sender, rfl⟩ := resume_recvPut taken
    refine ⟨fun u member => ?_, held.offline, held.hand⟩
    rcases mem_pushAll.mp member with fresh | old
    · exact put rfl i l rolloutTasks sender u fresh
    · exact held.queue u old
  | recvEndDelete =>
    obtain ⟨i, l, v, idle, sender, found, rfl⟩ := resume_recvEndDelete taken
    exact ((deleteTask_sound good _ indexed).2 held).congr rfl rfl fun _ _ => id
  | recvDelete i =>
    obtain ⟨operation, msg, idle, sender, system, rfl⟩ := resume_recvDelete taken
    exact ((deleteTask_sound good _ indexed).2 held).congr rfl rfl fun _ _ => id
  | _ =>
    exact held.congr (frame.curQ rfl) (frame.offlineThingTasks rfl) fun c t here =>
      frame.sysOp rfl ▸ here

/-- What waits in the runner is what waited there, or it was put by the center. -/
theorem inRunner_step (indexed : Indexed m.curQ) (held : InRunner good m)
    (put : ∀ i l rolloutTasks, m.rollout = .put i l rolloutTasks → ∀ t ∈ rolloutTasks, good t)
    (taken : resume now m reply a = some m') : InRunner good m' :=
  inRunner_received indexed held (fun _ => put) taken

/-- A worker keeps its task. -/
theorem worker_set {workers : List Worker} {i : Nat} {w : Worker} (held : ∀ w ∈ workers, good w.task)
    (own : good w.task) : ∀ u ∈ workers.set i w, good u.task := by
  intro u member
  rcases List.mem_or_eq_of_mem_set member with old | rfl
  · exact held u old
  · exact own

/-- What is in the pool was in the pool, or the loop had it in its hand. -/
theorem workers_step (good : Task → Prop) (workers : ∀ w ∈ m.workers, good w.task)
    (hand : ∀ c t, m.sysOp = .submit c t → good t) (taken : resume now m reply a = some m') :
    ∀ w ∈ m'.workers, good w.task := by
  have frame := resume_frame taken
  cases a with
  | sysOp online accepted =>
    simp only [resume, Memory.sysOpNext] at taken
    split at taken <;> grind
  | recvResult i | work i _ =>
    simp only [resume] at taken
    split at taken
    · rename_i found
      have own := workers _ (List.mem_of_getElem? found)
      cases taken
      exact worker_set workers own
    · cases taken
  | _ => exact frame.workers rfl ▸ workers

/-- What is underway was underway, or the loop had it in its hand. -/
theorem underway_step (underway : Underway good m) (hand : ∀ c t, m.sysOp = .submit c t → good t)
    (taken : resume now m reply a = some m') : Underway good m' := by
  have frame := resume_frame taken
  have workers := workers_step good underway.workers hand taken
  have sent := underway.sent
  have update := underway.update
  have send := underway.send
  cases a with
  | sysOp online accepted =>
    have change := frame.change rfl
    refine ⟨workers, fun c t here => ?_, change ▸ update, change ▸ send⟩
    simp only [resume, Memory.sysOpNext] at taken
    split at taken <;> grind
  | sysOpTick | connect _ _ =>
    refine ⟨workers, fun c t here => ?_, frame.change rfl ▸ update, frame.change rfl ▸ send⟩
    simp only [resume] at taken
    grind
  | recvSent | recvChange =>
    simp only [resume] at taken
    exact ⟨workers, by grind, by grind, by grind⟩
  | recvResult i =>
    simp only [resume] at taken
    split at taken
    · rename_i t status idle sender
      have own : good t := underway.workers _ (List.mem_of_getElem? sender)
      cases taken
      refine ⟨workers, sent, fun msg here => ?_, by intros; contradiction⟩
      cases here
      exact own
    · cases taken
  | change ok =>
    have same := frame.sysOp rfl
    simp only [resume, Memory.changeNext] at taken
    exact ⟨workers, same ▸ sent, by grind, by grind⟩
  | _ =>
    exact ⟨workers, frame.sysOp rfl ▸ sent, frame.change rfl ▸ update, frame.change rfl ▸ send⟩

end

end Tio.Job
