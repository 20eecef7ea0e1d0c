import Mathlib.Data.List.Perm.Subperm
import Tio.Job.Runner

/-! The loop of the runner on its own: batches of tasks, messages that delete tasks,
events of connections and ticks in any order, with any answers of what it asks. No
task is lost, doubled or filed under another thing. -/

namespace Tio.Job

open Tio.Core TaskQueue

/-- What the loop meets in its `select`, and its steps between two of them. The
contexts are what `jcGetter` would answer in the turn. -/
inductive RunnerEvent where
  | put (tasks : List Task)
  | delete (msg : DeleteTaskMsg)
  | connect (thingId : String) (connected : Bool)
  | tick
  | turn (contexts : List (String × JobContext)) (online : Option Bool) (accepted : Bool)
  | sent

def runnerStep (m : Memory) : RunnerEvent → Option Memory
  | .put tasks =>
    match m.sysOp with
    | .select => some { m with curQ := tasks.foldl (fun q t => push t q) m.curQ }
    | _ => none
  | .delete msg =>
    match m.sysOp with
    | .select => some (m.deleteTask msg)
    | _ => none
  | .connect thingId connected =>
    match m.sysOp with
    | .select => some { (if connected then m.connected thingId else m) with sysOp := .pop 0 }
    | _ => none
  | .tick =>
    match m.sysOp with
    | .select => some { m with sysOp := .pop 0 }
    | _ => none
  | .turn contexts online accepted => { m with contexts := contexts }.sysOpNext online accepted
  | .sent =>
    match m.sysOp with
    | .sendSent c _ => some { m with sysOp := .pop c }
    | _ => none

/-- The event that a step of the whole system is for the loop. -/
def Action.event (m : Memory) : Action → Option RunnerEvent
  | .sysOp online accepted => some (.turn m.contexts online accepted)
  | .sysOpTick => some .tick
  | .connect thingId connected => some (.connect thingId connected)
  | .recvSent => some .sent
  | .recvPut =>
    match m.rollout with
    | .put _ _ rolloutTasks => some (.put rolloutTasks)
    | _ => none
  | .recvEndDelete => m.current.map fun v => .delete (.job v.context.jobId)
  | .recvDelete i =>
    match m.closures[i]? with
    | some (.submitted (.delete _ msg)) => some (.delete msg)
    | _ => none
  | _ => none

namespace Memory

def parked (m : Memory) : List Task := m.offlineThingTasks.flatMap Prod.snd

/-- The task between its pop and its submission. -/
def hand (m : Memory) : List Task :=
  match m.sysOp with
  | .submit _ t => [t]
  | _ => []

def submitted (m : Memory) : List Task := m.workers.map Worker.task

/-- The places of the tasks that the runner has. -/
def places (m : Memory) : List Task := getTasks m.curQ ++ m.parked ++ m.hand ++ m.submitted

/-- Two memories with the same tasks at the same places of the runner. -/
structure SamePlaces (m m' : Memory) : Prop where
  curQ : m'.curQ = m.curQ
  offlineThingTasks : m'.offlineThingTasks = m.offlineThingTasks
  sysOp : m'.sysOp = m.sysOp
  submitted : m'.submitted = m.submitted

end Memory

def RunnerEvent.batch : RunnerEvent → List Task
  | .put tasks => tasks
  | _ => []

/-- The event is a reason for the runner to let go of the task. -/
def RunnerEvent.explains : RunnerEvent → Task → Prop
  | .delete msg, t => msg.Names t
  | .turn contexts _ _, t => ∀ context, Assoc.get t.jobId contexts = some context →
      isJobToTerminal context.status = true
  | _, _ => False

/-- The runner, what it received, and what it let go of in which event. -/
structure Watched where
  memory : Memory
  received : List Task
  gone : List (Task × RunnerEvent)

def Watched.start : Watched := ⟨(boot ⟨[], [], 1, true, by decide, by decide⟩ 0).memory, [], []⟩

def Watched.step (w : Watched) (e : RunnerEvent) : Option Watched :=
  (runnerStep w.memory e).map fun m => {
    memory := m
    received := w.received ++ e.batch
    gone := w.gone ++ ((w.memory.places ++ e.batch).diff m.places).map fun t => (t, e) }

/-- Every task that was received is at exactly one place, or gone for a reason. -/
structure Conserved (w : Watched) : Prop where
  places : w.received.Perm (w.memory.places ++ w.gone.map Prod.fst)
  once : ((w.memory.places ++ w.gone.map Prod.fst).map Task.taskId).Nodup
  filed : ∀ entry ∈ w.memory.offlineThingTasks, ∀ t ∈ entry.2, t.thingId = entry.1
  explained : ∀ lost ∈ w.gone, lost.2.explains lost.1

section

variable {m m' : Memory} {e : RunnerEvent}

/-- A worker keeps its task while it works. -/
theorem submitted_set {workers : List Worker} {i : Nat} {w w' : Worker}
    (found : workers[i]? = some w) (same : w'.task = w.task) :
    (workers.set i w').map Worker.task = workers.map Worker.task := by
  refine List.ext_getElem? fun k => ?_
  rw [List.getElem?_map, List.getElem?_map, List.getElem?_set]
  split
  · rename_i here
    subst here
    obtain ⟨inside, rfl⟩ := List.getElem?_eq_some_iff.mp found
    simp [same, inside]
  · rfl

/-- The loop of the system takes exactly the steps of the loop on its own. -/
theorem resume_event {now : Int} {reply : Reply} {a : Action} (taken : resume now m reply a = some m') :
    match a.event m with
    | some e => ∃ own, runnerStep m e = some own ∧ Memory.SamePlaces own m'
    | none => Memory.SamePlaces m m' := by
  have frame := resume_frame taken
  cases a with
  | sysOp online accepted => exact ⟨m', taken, rfl, rfl, rfl, rfl⟩
  | sysOpTick | connect _ _ => exact ⟨m', taken, rfl, rfl, rfl, rfl⟩
  | recvSent =>
    simp only [resume] at taken
    split at taken
    · rename_i c t idle sender
      cases taken
      exact ⟨{ m with sysOp := .pop c }, by rw [runnerStep, sender], rfl, rfl, rfl, rfl⟩
    · cases taken
  | recvPut =>
    obtain ⟨i, l, rolloutTasks, idle, sender, rfl⟩ := resume_recvPut taken
    simp only [Action.event, sender]
    exact ⟨{ m with curQ := rolloutTasks.foldl (fun q t => push t q) m.curQ },
      by simp only [runnerStep, idle], rfl, rfl, rfl, rfl⟩
  | recvEndDelete =>
    obtain ⟨i, l, v, idle, sender, found, rfl⟩ := resume_recvEndDelete taken
    simp only [Action.event, Memory.current, sender, found, Option.map_some]
    exact ⟨m.deleteTask (.job v.context.jobId), by simp only [runnerStep, idle], rfl, rfl, rfl, rfl⟩
  | recvDelete i =>
    obtain ⟨operation, msg, idle, sender, system, rfl⟩ := resume_recvDelete taken
    simp only [Action.event, sender]
    exact ⟨m.deleteTask msg, by simp only [runnerStep, idle], rfl, rfl, rfl, rfl⟩
  | recvResult i | work i _ =>
    refine ⟨frame.curQ rfl, frame.offlineThingTasks rfl, frame.sysOp rfl, ?_⟩
    simp only [resume] at taken
    split at taken
    · rename_i found
      cases taken
      exact submitted_set found rfl
    · cases taken
  | _ =>
    exact ⟨frame.curQ rfl, frame.offlineThingTasks rfl, frame.sysOp rfl,
      congrArg (List.map Worker.task) (frame.workers rfl)⟩

/-- What the loop relies on: the queue knows its positions, a thing has one entry,
and the tasks are those of system operations, each with its own id. -/
structure Sound (m : Memory) : Prop where
  indexed : Indexed m.curQ
  distinct : (Assoc.keys m.offlineThingTasks).Nodup
  system : ∀ t ∈ m.places, isSysOp t.operation = true
  ids : (m.places.map Task.taskId).Nodup

theorem sysOpNext_places {online : Option Bool} {accepted : Bool}
    (system : ∀ t ∈ m.places, isSysOp t.operation = true)
    (taken : m.sysOpNext online accepted = some m') :
    ∃ lost, m.places.Perm (m'.places ++ lost) ∧
      ∀ t ∈ lost, (RunnerEvent.turn m.contexts online accepted).explains t := by
  cases Memory.operates_of_sysOpNext taken with
  | rests c here => exact ⟨[], by simp [Memory.places, Memory.hand, Memory.parked, Memory.submitted, here], by simp⟩
  | drops c t rest here popped barred =>
    refine ⟨[t], List.perm_iff_count.mpr fun u => ?_, fun u member => ?_⟩
    · have counted := (pop_perm popped).1.count_eq u
      simp only [Memory.places, Memory.parked, Memory.hand, Memory.submitted, here,
        List.count_append, List.count_cons, List.count_nil] at counted ⊢
      omega
    · cases List.mem_singleton.mp member
      exact barred
  | takes c t rest context here popped held going =>
    refine ⟨[], List.perm_iff_count.mpr fun u => ?_, by simp⟩
    have counted := (pop_perm popped).1.count_eq u
    simp only [Memory.places, Memory.parked, Memory.hand, Memory.submitted, here,
      List.count_append, List.count_cons, List.count_nil] at counted ⊢
    omega
  | parks c t here offline =>
    refine ⟨[], List.perm_iff_count.mpr fun u => ?_, by simp⟩
    have counted := (Assoc.flatMap_set_append t.thingId t m.offlineThingTasks).count_eq u
    simp only [Memory.places, Memory.parked, Memory.hand, Memory.submitted, here,
      List.count_append, List.count_cons, List.count_nil] at counted ⊢
    omega
  | returns c t here own full =>
    refine ⟨[], List.perm_iff_count.mpr fun u => ?_, by simp⟩
    have counted := (push_perm t m.curQ).count_eq u
    simp only [Memory.places, Memory.parked, Memory.hand, Memory.submitted, here,
      List.count_append, List.count_cons, List.count_nil] at counted ⊢
    omega
  | submits c t here =>
    have own : isSysOp t.operation = true := system t (by simp [Memory.places, Memory.hand, here])
    refine ⟨[], List.perm_iff_count.mpr fun u => ?_, by simp⟩
    by_cases queued : t.status = .queued
    all_goals
      simp only [Memory.places, Memory.parked, Memory.hand, Memory.submitted, here, own, queued, if_true, if_false,
        List.map_append, List.map_cons, List.map_nil, List.count_append, List.count_cons, List.count_nil]
      omega

/-- A filter per entry takes the tasks out that it does not keep. -/
theorem flatMap_filter (keep : Task → Bool) (entries : List (String × List Task)) :
    (entries.flatMap Prod.snd).Perm
      ((entries.map fun entry => (entry.1, entry.2.filter keep)).flatMap Prod.snd ++
        (entries.flatMap Prod.snd).filter fun t => !keep t) := by
  refine List.perm_iff_count.mpr fun u => ?_
  induction entries with
  | nil => rfl
  | cons entry rest ih =>
    have divided := (List.filter_append_perm keep entry.2).count_eq u
    simp only [List.flatMap_cons, List.map_cons, List.filter_append, List.count_append] at ih divided ⊢
    omega

theorem deleteTask_places (sound : Sound m) (msg : DeleteTaskMsg) :
    ∃ lost, m.places.Perm ((m.deleteTask msg).places ++ lost) ∧
      ∀ t ∈ lost, (RunnerEvent.delete msg).explains t := by
  obtain ⟨ids, keep, same, dropped, taken⟩ := deleteTask_removes msg m
  obtain ⟨gone, perm, named⟩ := removeIds_perm ids sound.indexed
  have parted := flatMap_filter keep m.offlineThingTasks
  refine ⟨gone ++ m.parked.filter fun t => !keep t, List.perm_iff_count.mpr fun v => ?_, fun v member => ?_⟩
  · have counted := perm.count_eq v
    have counted' := parted.count_eq v
    rw [same]
    simp only [Memory.places, Memory.parked, Memory.hand, Memory.submitted, List.count_append] at counted counted' ⊢
    omega
  · rcases List.mem_append.mp member with queued | parked
    · rcases taken v.taskId (named v queued) with all | ⟨t, present, here, about⟩
      · exact all v rfl
      · have inside : v ∈ getTasks m.curQ := perm.mem_iff.mpr (List.mem_append_right _ queued)
        -- the queue has one task with the id, so it is the task that the message names
        have own : v = t := List.inj_on_of_nodup_map sound.ids (by simp [Memory.places, inside])
          (by simp [Memory.places, present]) here.symm
        rwa [own]
    · exact dropped v (by simpa using (List.mem_filter.mp parked).2)

theorem connected_places (sound : Sound m) (thingId : String) :
    m.places.Perm (m.connected thingId).places := by
  rw [Memory.connected]
  split
  · rename_i tasks found
    refine List.perm_iff_count.mpr fun v => ?_
    have counted := (pushAll_perm tasks m.curQ).count_eq v
    have counted' := (Assoc.flatMap_erase sound.distinct found).count_eq v
    simp only [Memory.places, Memory.parked, Memory.hand, Memory.submitted, List.count_append]
      at counted counted' ⊢
    omega
  · exact .refl _

/-- Every event moves the tasks between the places, but for those it is a reason to
let go of. -/
theorem runnerStep_places (sound : Sound m) (taken : runnerStep m e = some m') :
    ∃ lost, (m.places ++ e.batch).Perm (m'.places ++ lost) ∧ ∀ t ∈ lost, e.explains t := by
  cases e with
  | put tasks =>
    simp only [runnerStep] at taken
    split at taken
    · cases taken
      refine ⟨[], List.perm_iff_count.mpr fun v => ?_, by simp⟩
      have counted := (pushAll_perm tasks m.curQ).count_eq v
      simp only [Memory.places, Memory.parked, Memory.hand, Memory.submitted, RunnerEvent.batch,
        List.count_append, List.count_nil] at counted ⊢
      omega
    · cases taken
  | delete msg =>
    simp only [runnerStep] at taken
    split at taken
    · cases taken
      simpa [RunnerEvent.batch] using deleteTask_places sound msg
    · cases taken
  | connect thingId connected =>
    simp only [runnerStep] at taken
    split at taken
    · rename_i idle
      cases taken
      refine ⟨[], ?_, by simp⟩
      have still : ∀ m : Memory, m.sysOp = .select → ({ m with sysOp := .pop 0 } : Memory).places = m.places :=
        fun m idle => by simp [Memory.places, Memory.parked, Memory.hand, Memory.submitted, idle]
      cases connected with
      | true =>
        have moved := connected_places sound thingId
        have idle' : (m.connected thingId).sysOp = .select := by
          rw [Memory.connected]
          split <;> exact idle
        simpa [RunnerEvent.batch, still _ idle'] using moved
      | false => simp [RunnerEvent.batch, still m idle]
    · cases taken
  | tick =>
    simp only [runnerStep] at taken
    split at taken
    · rename_i idle
      cases taken
      exact ⟨[], by simp [RunnerEvent.batch, Memory.places, Memory.parked, Memory.hand, Memory.submitted,
        idle], by simp⟩
    · cases taken
  | turn contexts online accepted =>
    obtain ⟨lost, perm, reasons⟩ :=
      sysOpNext_places (m := { m with contexts := contexts }) sound.system taken
    exact ⟨lost, (List.append_nil m.places).symm ▸ perm, reasons⟩
  | sent =>
    simp only [runnerStep] at taken
    split at taken
    · rename_i c t here
      cases taken
      exact ⟨[], by simp [RunnerEvent.batch, Memory.places, Memory.parked, Memory.hand, Memory.submitted,
        here], by simp⟩
    · cases taken

/-- Every task of an offline thing is a task of that thing. -/
def Filed (m : Memory) : Prop :=
  ∀ entry ∈ m.offlineThingTasks, ∀ t ∈ entry.2, t.thingId = entry.1

theorem filed_sysOpNext {online : Option Bool} {accepted : Bool} (filed : Filed m)
    (distinct : (Assoc.keys m.offlineThingTasks).Nodup)
    (taken : m.sysOpNext online accepted = some m') :
    Filed m' ∧ (Assoc.keys m'.offlineThingTasks).Nodup := by
  suffices kept : m'.offlineThingTasks = m.offlineThingTasks ∨ ∃ t : Task, m'.offlineThingTasks =
      Assoc.set t.thingId ((Assoc.get t.thingId m.offlineThingTasks).getD [] ++ [t])
        m.offlineThingTasks by
    rcases kept with same | ⟨t, parked⟩
    · exact ⟨by simpa only [Filed, same] using filed, by rwa [same]⟩
    · refine ⟨fun entry member u within => ?_, by rw [parked]; exact Assoc.nodup_keys_set distinct⟩
      rw [parked] at member
      rcases Assoc.mem_set member with rfl | old
      · rcases List.mem_append.mp within with waiting | last
        · cases found : Assoc.get t.thingId m.offlineThingTasks with
          | none => simp [found] at waiting
          | some tasks =>
            rw [found] at waiting
            exact filed _ (Assoc.mem_of_get found) u waiting
        · cases List.mem_singleton.mp last
          rfl
      · exact filed entry old u within
  cases Memory.operates_of_sysOpNext taken with
  | parks c t here offline => exact .inr ⟨t, rfl⟩
  | _ => exact .inl rfl

theorem filed_deleteTask (msg : DeleteTaskMsg) (filed : Filed m)
    (distinct : (Assoc.keys m.offlineThingTasks).Nodup) :
    Filed (m.deleteTask msg) ∧ (Assoc.keys (m.deleteTask msg).offlineThingTasks).Nodup := by
  obtain ⟨ids, keep, same, -, -⟩ := deleteTask_removes msg m
  rw [same]
  refine ⟨fun entry member t within => ?_, ?_⟩
  · obtain ⟨old, present, rfl⟩ := List.mem_map.mp member
    exact filed old present t (List.mem_filter.mp within).1
  · simpa [Assoc.keys, Function.comp_def] using distinct

theorem filed_connected (thingId : String) (filed : Filed m)
    (distinct : (Assoc.keys m.offlineThingTasks).Nodup) :
    Filed (m.connected thingId) ∧ (Assoc.keys (m.connected thingId).offlineThingTasks).Nodup := by
  rw [Memory.connected]
  split
  · exact ⟨fun entry member => filed entry (Assoc.mem_erase member), Assoc.nodup_keys_erase distinct⟩
  · exact ⟨filed, distinct⟩

theorem runnerStep_filed (filed : Filed m) (distinct : (Assoc.keys m.offlineThingTasks).Nodup)
    (taken : runnerStep m e = some m') :
    Filed m' ∧ (Assoc.keys m'.offlineThingTasks).Nodup := by
  cases e with
  | turn contexts online accepted =>
    exact filed_sysOpNext (m := { m with contexts := contexts }) filed distinct taken
  | delete msg =>
    have kept := filed_deleteTask msg filed distinct
    simp only [runnerStep] at taken
    grind
  | connect thingId connected =>
    have kept := filed_connected thingId filed distinct
    simp only [runnerStep] at taken
    split at taken
    · cases taken
      cases connected with
      | true => exact kept
      | false => exact ⟨filed, distinct⟩
    · cases taken
  | put _ | tick | sent =>
    simp only [runnerStep] at taken
    split at taken
    · cases taken
      exact ⟨filed, distinct⟩
    · cases taken

theorem runnerStep_indexed (indexed : Indexed m.curQ) (taken : runnerStep m e = some m') :
    Indexed m'.curQ := by
  cases e with
  | turn contexts online accepted =>
    exact (sysOpNext_sound (m := { m with contexts := contexts }) (fun _ => True) taken).1 indexed
  | delete msg =>
    have kept := (deleteTask_sound (fun _ => True) msg indexed).1
    simp only [runnerStep] at taken
    grind
  | connect thingId connected =>
    have kept := (connected_sound (fun _ => True) m thingId).1 indexed
    simp only [runnerStep] at taken
    grind
  | put tasks =>
    have kept : Indexed (tasks.foldl (fun q t => push t q) _) := indexed_pushAll indexed
    simp only [runnerStep] at taken
    grind
  | tick | sent =>
    simp only [runnerStep] at taken
    grind

end

section

variable {w w' : Watched} {e : RunnerEvent}

/-- What an event makes the runner let go of is what it is a reason for. -/
theorem diff_perm {before after lost : List Task} (perm : before.Perm (after ++ lost)) :
    (before.diff after).Perm lost := by
  have kept : (after ++ before.diff after).Perm before := by
    refine List.subperm_append_diff_self_of_count_le fun t _ => ?_
    have counted := perm.count_eq t
    rw [List.count_append] at counted
    omega
  exact (List.perm_append_left_iff after).mp (kept.trans perm)

theorem conserved_step (conserved : Conserved w) (sound : Sound w.memory)
    (distinct : ((w.received ++ e.batch).map Task.taskId).Nodup)
    (system : ∀ t ∈ w.received ++ e.batch, isSysOp t.operation = true)
    (taken : w.step e = some w') :
    Conserved w' ∧ Sound w'.memory ∧ w'.received = w.received ++ e.batch := by
  obtain ⟨m, moved, rfl⟩ := Option.map_eq_some_iff.mp taken
  obtain ⟨lost, perm, reasons⟩ := runnerStep_places sound moved
  obtain ⟨filed, keys⟩ := runnerStep_filed conserved.filed sound.distinct moved
  have left := diff_perm perm
  have places : (w.received ++ e.batch).Perm (m.places ++ (w.gone ++
      ((w.memory.places ++ e.batch).diff m.places).map fun t => (t, e)).map Prod.fst) := by
    refine List.perm_iff_count.mpr fun t => ?_
    have counted := conserved.places.count_eq t
    have counted' := perm.count_eq t
    have counted'' := left.count_eq t
    simp only [List.map_append, List.map_map, Function.comp_def, List.map_id', List.count_append]
      at counted counted' counted'' ⊢
    omega
  have once := (places.map Task.taskId).nodup_iff.mp distinct
  refine ⟨⟨places, once, filed, fun gone member => ?_⟩, ⟨runnerStep_indexed sound.indexed moved, keys,
    fun t member => ?_, ?_⟩, rfl⟩
  · rcases List.mem_append.mp member with old | fresh
    · exact conserved.explained gone old
    · obtain ⟨t, present, rfl⟩ := List.mem_map.mp fresh
      exact reasons t (left.mem_iff.mp present)
  · exact system t (places.mem_iff.mpr (List.mem_append_left _ member))
  · rw [List.map_append] at once
    exact once.of_append_left

theorem conserved_from {events : List RunnerEvent} (conserved : Conserved w) (sound : Sound w.memory)
    (distinct : ((w.received ++ events.flatMap RunnerEvent.batch).map Task.taskId).Nodup)
    (system : ∀ t ∈ w.received ++ events.flatMap RunnerEvent.batch, isSysOp t.operation = true) :
    Always Watched.step (fun _ _ w' => Conserved w') w events := by
  induction events generalizing w with
  | nil => trivial
  | cons e rest ih =>
    intro next taken
    rw [List.flatMap_cons, ← List.append_assoc] at distinct system
    have first : ((w.received ++ e.batch).map Task.taskId).Nodup := by
      rw [List.map_append] at distinct
      exact distinct.of_append_left
    obtain ⟨kept, sound', received⟩ := conserved_step conserved sound first
      (fun t member => system t (List.mem_append_left _ member)) taken
    exact ⟨kept, ih kept sound' (received ▸ distinct) (received ▸ system)⟩

end

theorem conserved_start : Conserved .start where
  places := .refl _
  once := List.nodup_nil
  filed := fun _ member => absurd member List.not_mem_nil
  explained := fun _ member => absurd member List.not_mem_nil

/-- Whatever the runner meets and whatever it is answered, after every event each task
that it received is at exactly one place, or it is gone for a reason. -/
theorem tasks_conserved (events : List RunnerEvent)
    (distinct : ((events.flatMap RunnerEvent.batch).map Task.taskId).Nodup)
    (system : ∀ t ∈ events.flatMap RunnerEvent.batch, isSysOp t.operation = true) :
    Always Watched.step (fun _ _ w' => Conserved w') .start events := by
  refine conserved_from conserved_start ⟨?_, List.nodup_nil, ?_, List.nodup_nil⟩
    (by simpa [Watched.start] using distinct) (by simpa [Watched.start] using system)
  · intro i item found
    simp [Watched.start, boot] at found
  · exact fun _ member => absurd member List.not_mem_nil

/-- A task waits for its thing and comes back, the pool is full, and its job is deleted;
the job of the other task has no context. -/
def mixedEvents : List RunnerEvent :=
  let task (taskId : Int) (jobId : String) : Task :=
    ⟨jobId, taskId, "thing", "$directMethod/x", .queued, none, 0⟩
  let contexts := [("a", toContext "a" (toEntity "$directMethod/x" ["thing"] none none none))]
  [.put [task 1 "a", task 2 "b"], .tick, .turn contexts none true, .turn contexts (some false) true,
    .turn contexts none true, .turn contexts none true, .connect "thing" true,
    .turn contexts none true, .turn contexts (some true) false, .delete (.job "a")]

theorem mixedEvents_conserved :
    (execute Watched.step .start mixedEvents).map (fun w => w.gone.map fun lost => lost.1.taskId) =
      some [2, 1] ∧
    Always Watched.step (fun _ _ w' => Conserved w') .start mixedEvents :=
  ⟨rfl, tasks_conserved mixedEvents (by decide) (by decide)⟩

end Tio.Job
