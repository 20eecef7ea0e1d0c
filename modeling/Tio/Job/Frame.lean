import Tio.Job.Rollout

namespace Tio.Job

open Tio.Core

namespace Memory

attribute [grind =] goto setItem delItem startPass setCall setClosure removeJobContext setJobContext

/-- The part of the memory that the loops and the pool of the runner own. -/
@[grind] structure SameRunner (m m' : Memory) : Prop where
  curQ : m'.curQ = m.curQ
  offlineThingTasks : m'.offlineThingTasks = m.offlineThingTasks
  sysOp : m'.sysOp = m.sysOp
  change : m'.change = m.change
  workers : m'.workers = m.workers

/-- The part of the rollout loop, but for the map of the contexts. -/
@[grind] structure SameRollout (m m' : Memory) : Prop where
  pendingJobs : m'.pendingJobs = m.pendingJobs
  rollout : m'.rollout = m.rollout

@[grind] structure SameWatch (m m' : Memory) : Prop where
  pendingCheckJobs : m'.pendingCheckJobs = m.pendingCheckJobs
  watch : m'.watch = m.watch

/-- The calls of the service and the closures in the pool of the center. -/
@[grind] structure SameService (m m' : Memory) : Prop where
  calls : m'.calls = m.calls
  closures : m'.closures = m.closures

variable {now : Int} {reply : Reply} {m m' : Memory}

theorem rolloutNext_frame (taken : m.rolloutNext now reply = some m') :
    SameRunner m m' ∧ SameWatch m m' ∧ SameService m m' := by
  cases rolls_of_rolloutNext taken <;>
    exact ⟨⟨rfl, rfl, rfl, rfl, rfl⟩, ⟨rfl, rfl⟩, ⟨rfl, rfl⟩⟩

theorem watchNext_frame (taken : m.watchNext reply = some m') :
    SameRunner m m' ∧ SameRollout m m' ∧ SameService m m' := by
  unfold watchNext at taken
  grind

theorem changeNext_frame (taken : m.changeNext = some m') :
    SameRollout m m' ∧ SameWatch m m' ∧ SameService m m' ∧ m'.sysOp = m.sysOp ∧
      m'.curQ = m.curQ ∧ m'.offlineThingTasks = m.offlineThingTasks ∧ m'.workers = m.workers := by
  unfold changeNext at taken
  grind

theorem sysOpNext_frame {online : Option Bool} {accepted : Bool}
    (taken : m.sysOpNext online accepted = some m') :
    SameRollout m m' ∧ SameWatch m m' ∧ SameService m m' ∧ m'.change = m.change := by
  unfold sysOpNext at taken
  grind

theorem connected_frame (thingId : String) (m : Memory) :
    SameRollout m (m.connected thingId) ∧ SameWatch m (m.connected thingId) ∧
      SameService m (m.connected thingId) ∧ (m.connected thingId).change = m.change ∧
      (m.connected thingId).workers = m.workers := by
  unfold connected
  grind

theorem deleteTask_frame (msg : DeleteTaskMsg) (m : Memory) :
    SameRollout m (m.deleteTask msg) ∧ SameWatch m (m.deleteTask msg) ∧
      SameService m (m.deleteTask msg) ∧ (m.deleteTask msg).change = m.change ∧
      (m.deleteTask msg).sysOp = m.sysOp ∧ (m.deleteTask msg).workers = m.workers := by
  unfold deleteTask
  grind

theorem serve_frame {i : Nat} (taken : m.serve i reply = some m') :
    SameRunner m m' ∧ SameRollout m m' ∧ SameWatch m m' := by
  unfold serve at taken
  simp only [bind, Option.bind_eq_some_iff] at taken
  grind

theorem updateContext_frame (jobId : String) (timeout : Option TimeoutConfig) (m : Memory) :
    SameRunner m (m.updateContext jobId timeout) ∧ SameWatch m (m.updateContext jobId timeout) ∧
      SameService m (m.updateContext jobId timeout) := by
  unfold updateContext
  split
  · split <;> exact ⟨⟨rfl, rfl, rfl, rfl, rfl⟩, ⟨rfl, rfl⟩, ⟨rfl, rfl⟩⟩
  · exact ⟨⟨rfl, rfl, rfl, rfl, rfl⟩, ⟨rfl, rfl⟩, ⟨rfl, rfl⟩⟩

theorem receiveRemove_frame {jobId : String} {force : Bool}
    (taken : m.receiveRemove jobId force = some m') :
    SameRunner m m' ∧ SameWatch m m' ∧ SameService m m' ∧ m'.rollout = m.rollout := by
  unfold receiveRemove at taken
  simp only [bind, Option.bind_eq_some_iff] at taken
  grind

end Memory

/-! What each meeting of two goroutines takes and does. -/

section

variable {now : Int} {reply : Reply} {m m' : Memory} {a : Action}

theorem resume_recvPending {i : Nat} (taken : resume now m reply (.recvPending i) = some m') :
    ∃ item, m.rollout = .select ∧ m.closures[i]? = some (.addPendingJob item) ∧
      m' = ({ m with pendingJobs := m.pendingJobs ++ [item] }.setClosure i .finished).startPass := by
  simp only [resume] at taken
  split at taken
  · exact ⟨_, ‹_›, ‹_›, (Option.some.inj taken).symm⟩
  · cases taken

theorem resume_recvUpdate {i : Nat} (taken : resume now m reply (.recvUpdate i) = some m') :
    ∃ jobId timeout, m.rollout = .select ∧
      m.calls[i]? = some ⟨.updateJob jobId (.configs timeout), .sendUpdate⟩ ∧
      m' = ((m.updateContext jobId timeout).setCall i
        ⟨.updateJob jobId (.configs timeout), .returned true⟩).startPass := by
  simp only [resume] at taken
  split at taken
  · exact ⟨_, _, ‹_›, ‹_›, (Option.some.inj taken).symm⟩
  · cases taken

theorem resume_recvRemove {i : Nat} (taken : resume now m reply (.recvRemove i) = some m') :
    ∃ r operation jobId force received, m.rollout = .select ∧
      m.calls[i]? = some ⟨r, .sendRemove operation⟩ ∧ r.removal = some (jobId, force) ∧
      m.receiveRemove jobId force = some received ∧
      m' = received.setCall i ⟨r, .submit (.delete operation (.job jobId))⟩ := by
  simp only [resume, bind] at taken
  split at taken
  · rename_i r operation idle sender
    obtain ⟨⟨jobId, force⟩, removal, taken⟩ := Option.bind_eq_some_iff.mp taken
    obtain ⟨received, removed, taken⟩ := Option.bind_eq_some_iff.mp taken
    exact ⟨r, operation, jobId, force, received, idle, sender, removal, removed,
      (Option.some.inj taken).symm⟩
  · cases taken

theorem resume_recvFinished (taken : resume now m reply .recvFinished = some m') :
    ∃ jobId todo received, m.rollout = .select ∧ m.watch = .sendRemove jobId todo ∧
      m.receiveRemove jobId true = some received ∧
      m' = { received with
        watch := .count todo
        pendingCheckJobs := received.pendingCheckJobs.erase jobId } := by
  simp only [resume, bind] at taken
  split at taken
  · rename_i jobId todo idle sender
    obtain ⟨received, removed, taken⟩ := Option.bind_eq_some_iff.mp taken
    exact ⟨jobId, todo, received, idle, sender, removed, (Option.some.inj taken).symm⟩
  · cases taken

theorem resume_recvPut (taken : resume now m reply .recvPut = some m') :
    ∃ i l rolloutTasks, m.sysOp = .select ∧ m.rollout = .put i l rolloutTasks ∧
      m' = { m with
        curQ := rolloutTasks.foldl (fun q t => TaskQueue.push t q) m.curQ
        rollout := .rolled i l rolloutTasks.length } := by
  simp only [resume] at taken
  split at taken
  · exact ⟨_, _, _, ‹_›, ‹_›, (Option.some.inj taken).symm⟩
  · cases taken

theorem resume_recvEndDelete (taken : resume now m reply .recvEndDelete = some m') :
    ∃ i l v, m.sysOp = .select ∧ m.rollout = .endSend i l ∧ m.pendingJobs[i]? = some v ∧
      m' = (m.deleteTask (.job v.context.jobId)).goto (.endTasks i l) := by
  simp only [resume, bind] at taken
  split at taken
  · rename_i i l idle sender
    obtain ⟨v, found, taken⟩ := Option.bind_eq_some_iff.mp taken
    exact ⟨i, l, v, idle, sender, found, (Option.some.inj taken).symm⟩
  · cases taken

theorem resume_recvDelete {i : Nat} (taken : resume now m reply (.recvDelete i) = some m') :
    ∃ operation msg, m.sysOp = .select ∧ m.closures[i]? = some (.submitted (.delete operation msg)) ∧
      isSysOp operation = true ∧ m' = (m.deleteTask msg).setClosure i (.deleted msg) := by
  simp only [resume] at taken
  split at taken
  · split at taken
    · exact ⟨_, _, ‹_›, ‹_›, ‹_›, (Option.some.inj taken).symm⟩
    · cases taken
  · cases taken

theorem resume_run {i : Nat} {ok : Bool} (taken : resume now m reply (.run i ok) = some m') :
    ∃ closure next, m.closures[i]? = some closure ∧ Memory.closureNext reply closure = some next ∧
      m' = m.setClosure i next := by
  simp only [resume, bind] at taken
  obtain ⟨closure, found, taken⟩ := Option.bind_eq_some_iff.mp taken
  obtain ⟨next, continues, taken⟩ := Option.bind_eq_some_iff.mp taken
  exact ⟨closure, next, found, continues, (Option.some.inj taken).symm⟩

/-- The steps of a loop, its meetings with the others included. -/
@[grind =] def Action.movesRollout : Action → Bool
  | .rollout _ | .rolloutTick | .recvPending _ | .recvUpdate _ | .recvPut | .recvEndDelete => true
  | _ => false

@[grind =] def Action.movesWatch : Action → Bool
  | .watch _ | .watchTick _ | .recvFinished => true
  | _ => false

@[grind =] def Action.movesChange : Action → Bool
  | .change _ | .recvSent | .recvResult _ | .recvChange => true
  | _ => false

@[grind =] def Action.movesSysOp : Action → Bool
  | .sysOp .. | .sysOpTick | .connect .. | .recvSent => true
  | _ => false

/-- The steps after which the pending list may be another one. -/
@[grind =] def Action.movesPending : Action → Bool
  | .rollout _ | .recvPending _ | .recvUpdate _ | .recvRemove _ | .recvFinished => true
  | _ => false

@[grind =] def Action.movesQueue : Action → Bool
  | .sysOp .. | .connect .. | .recvPut | .recvEndDelete | .recvDelete _ => true
  | _ => false

@[grind =] def Action.movesWorkers : Action → Bool
  | .sysOp .. | .recvResult _ | .work .. => true
  | _ => false

@[grind =] def Action.movesCalls : Action → Bool
  | .recvUpdate _ | .recvRemove _ | .call _ | .serve .. => true
  | _ => false

@[grind =] def Action.movesClosures : Action → Bool
  | .recvPending _ | .recvDelete _ | .serve .. | .run .. => true
  | _ => false

structure Frame (a : Action) (m m' : Memory) : Prop where
  rollout : a.movesRollout = false → m'.rollout = m.rollout
  watch : a.movesWatch = false → m'.watch = m.watch
  change : a.movesChange = false → m'.change = m.change
  sysOp : a.movesSysOp = false → m'.sysOp = m.sysOp
  pendingJobs : a.movesPending = false → m'.pendingJobs = m.pendingJobs
  curQ : a.movesQueue = false → m'.curQ = m.curQ
  offlineThingTasks : a.movesQueue = false → m'.offlineThingTasks = m.offlineThingTasks
  workers : a.movesWorkers = false → m'.workers = m.workers
  calls : a.movesCalls = false → m'.calls = m.calls
  closures : a.movesClosures = false → m'.closures = m.closures

theorem of_moved {p : Prop} (moves : true = false) : p :=
  absurd moves.symm Bool.false_ne_true

/-- Who does not take part in a step is left alone by it. -/
theorem resume_frame (taken : resume now m reply a = some m') : Frame a m m' := by
  cases a with
  | elapse _ | rolloutTick | watchTick _ | recvChange | recvSent | recvResult _ | sysOpTick | work _ _
  | call _ =>
    simp only [resume] at taken
    constructor <;> grind
  | rollout ok =>
    have frame := Memory.rolloutNext_frame taken
    constructor <;> grind
  | watch ok =>
    have frame := Memory.watchNext_frame taken
    constructor <;> grind
  | change ok =>
    have frame := Memory.changeNext_frame taken
    constructor <;> grind
  | sysOp online accepted =>
    have frame := Memory.sysOpNext_frame taken
    constructor <;> grind
  | serve i ok =>
    have frame := Memory.serve_frame taken
    constructor <;> grind
  | connect thingId up =>
    have frame := Memory.connected_frame thingId m
    simp only [resume] at taken
    constructor <;> grind
  | recvPending i =>
    obtain ⟨item, idle, sender, rfl⟩ := resume_recvPending taken
    exact ⟨of_moved, fun _ => rfl, fun _ => rfl, fun _ => rfl, of_moved, fun _ => rfl, fun _ => rfl,
      fun _ => rfl, fun _ => rfl, of_moved⟩
  | recvUpdate i =>
    obtain ⟨jobId, timeout, idle, sender, rfl⟩ := resume_recvUpdate taken
    obtain ⟨runner, watch, service⟩ := Memory.updateContext_frame jobId timeout m
    exact ⟨of_moved, fun _ => watch.watch, fun _ => runner.change, fun _ => runner.sysOp, of_moved,
      fun _ => runner.curQ, fun _ => runner.offlineThingTasks, fun _ => runner.workers, of_moved,
      fun _ => service.closures⟩
  | recvRemove i =>
    obtain ⟨r, operation, jobId, force, received, idle, sender, removal, removed, rfl⟩ :=
      resume_recvRemove taken
    have frame := Memory.receiveRemove_frame removed
    constructor <;> grind
  | recvFinished =>
    obtain ⟨jobId, todo, received, idle, sender, removed, rfl⟩ := resume_recvFinished taken
    have frame := Memory.receiveRemove_frame removed
    constructor <;> grind
  | recvPut =>
    obtain ⟨i, l, rolloutTasks, idle, sender, rfl⟩ := resume_recvPut taken
    exact ⟨of_moved, fun _ => rfl, fun _ => rfl, fun _ => rfl, fun _ => rfl, of_moved, of_moved,
      fun _ => rfl, fun _ => rfl, fun _ => rfl⟩
  | recvEndDelete =>
    obtain ⟨i, l, v, idle, sender, found, rfl⟩ := resume_recvEndDelete taken
    obtain ⟨rollout, watch, service, change, sysOp, workers⟩ :=
      Memory.deleteTask_frame (.job v.context.jobId) m
    exact ⟨of_moved, fun _ => watch.watch, fun _ => change, fun _ => sysOp,
      fun _ => rollout.pendingJobs, of_moved, of_moved, fun _ => workers, fun _ => service.calls,
      fun _ => service.closures⟩
  | recvDelete i =>
    obtain ⟨operation, msg, idle, sender, system, rfl⟩ := resume_recvDelete taken
    obtain ⟨rollout, watch, service, change, sysOp, workers⟩ := Memory.deleteTask_frame msg m
    exact ⟨fun _ => rollout.rollout, fun _ => watch.watch, fun _ => change, fun _ => sysOp,
      fun _ => rollout.pendingJobs, of_moved, of_moved, fun _ => workers, fun _ => service.calls, of_moved⟩
  | run i ok =>
    obtain ⟨closure, next, found, continues, rfl⟩ := resume_run taken
    exact ⟨fun _ => rfl, fun _ => rfl, fun _ => rfl, fun _ => rfl, fun _ => rfl, fun _ => rfl,
      fun _ => rfl, fun _ => rfl, fun _ => rfl, of_moved⟩

/-- Where a closure that is in the pool after a step comes from. -/
inductive ClosureFrom (m : Memory) (reply : Reply) : Action → Closure → Prop
  | before (a : Action) (closure : Closure) (member : closure ∈ m.closures) :
      ClosureFrom m reply a closure
  | sent (i : Nat) : ClosureFrom m reply (.recvPending i) .finished
  | deleted (i : Nat) (operation : String) (msg : DeleteTaskMsg)
      (here : m.closures[i]? = some (.submitted (.delete operation msg))) :
      ClosureFrom m reply (.recvDelete i) (.deleted msg)
  | submitted (i : Nat) (ok : Bool) (r : Request) (work : Submission)
      (here : m.calls[i]? = some ⟨r, .submit work⟩) :
      ClosureFrom m reply (.serve i ok) (.submitted work)
  | next (i : Nat) (ok : Bool) (closure next : Closure) (here : m.closures[i]? = some closure)
      (continues : Memory.closureNext reply closure = some next) : ClosureFrom m reply (.run i ok) next

theorem resume_closures (taken : resume now m reply a = some m') {closure : Closure}
    (member : closure ∈ m'.closures) : ClosureFrom m reply a closure := by
  by_cases moves : a.movesClosures
  · cases a with
    | recvPending i =>
      obtain ⟨item, idle, sender, rfl⟩ := resume_recvPending taken
      rcases List.mem_or_eq_of_mem_set member with old | rfl
      · exact .before _ _ old
      · exact .sent i
    | recvDelete i =>
      obtain ⟨operation, msg, idle, sender, system, rfl⟩ := resume_recvDelete taken
      rcases List.mem_or_eq_of_mem_set member with old | rfl
      · exact .before _ _ ((Memory.deleteTask_frame msg m).2.2.1.closures ▸ old)
      · exact .deleted i operation msg sender
    | serve i ok =>
      simp only [resume, Memory.serve, bind, Option.bind_eq_some_iff] at taken
      obtain ⟨⟨r, pc⟩, found, pc', continues, taken⟩ := taken
      grind [ClosureFrom]
    | run i ok =>
      obtain ⟨old, next, found, continues, rfl⟩ := resume_run taken
      rcases List.mem_or_eq_of_mem_set member with before | rfl
      · exact .before _ _ before
      · exact .next i ok old _ found continues
    | _ => cases moves
  · rw [(resume_frame taken).closures (by simpa using moves)] at member
    exact .before a closure member

/-- Only a creation reads tasks back. -/
theorem created_of_reads {closure : Closure} {context : JobContext} {taskIds : List Int}
    (continues : Memory.closureNext reply closure = some (.readTasks context taskIds)) :
    ∃ things, closure = .submitted (.createJob context things) ∧ reply = .taskIds taskIds := by
  cases Memory.runs_of_closureNext continues with
  | created _ things _ replied => exact ⟨things, rfl, replied⟩

/-- Where a call stands after a step. -/
inductive CallAfter (m : Memory) (reply : Reply) : Action → Nat → Call → Prop
  | before (a : Action) (k : Nat) (call : Call) (here : m.calls[k]? = some call) :
      CallAfter m reply a k call
  | started (r : Request) : CallAfter m reply (.call r) m.calls.length ⟨r, .start⟩
  | updated (k : Nat) (jobId : String) (timeout : Option TimeoutConfig)
      (here : m.calls[k]? = some ⟨.updateJob jobId (.configs timeout), .sendUpdate⟩) :
      CallAfter m reply (.recvUpdate k) k ⟨.updateJob jobId (.configs timeout), .returned true⟩
  | removed (k : Nat) (r : Request) (operation jobId : String) (force : Bool)
      (here : m.calls[k]? = some ⟨r, .sendRemove operation⟩)
      (removal : r.removal = some (jobId, force)) :
      CallAfter m reply (.recvRemove k) k ⟨r, .submit (.delete operation (.job jobId))⟩
  | served (k : Nat) (ok : Bool) (call : Call) (pc : CallPc) (here : m.calls[k]? = some call)
      (continues : Memory.serveNext reply call = some pc) :
      CallAfter m reply (.serve k ok) k ⟨call.request, pc⟩

theorem resume_calls (taken : resume now m reply a = some m') {k : Nat} {call : Call}
    (found : m'.calls[k]? = some call) : CallAfter m reply a k call := by
  have other : ∀ i (new : Call) (old : Call), m.calls[i]? = some old →
      m'.calls = m.calls.set i new → (k ≠ i ∧ m.calls[k]? = some call) ∨ (k = i ∧ call = new) := by
    intro i new old inside same
    rw [same] at found
    grind
  by_cases moves : a.movesCalls
  · cases a with
    | call r =>
      simp only [resume] at taken
      split at taken
      · cases taken
        rcases Nat.lt_or_ge k m.calls.length with inside | outside
        · exact .before _ k call (by simpa [List.getElem?_append_left inside] using found)
        · have last : k = m.calls.length ∧ call = ⟨r, .start⟩ := by grind
          obtain ⟨rfl, rfl⟩ := last
          exact .started r
      · cases taken
    | recvUpdate i =>
      obtain ⟨jobId, timeout, idle, sender, rfl⟩ := resume_recvUpdate taken
      have untouched := (Memory.updateContext_frame jobId timeout m).2.2.calls
      rcases other i ⟨.updateJob jobId (.configs timeout), .returned true⟩ _ sender
        (by grind) with ⟨-, old⟩ | ⟨rfl, rfl⟩
      · exact .before _ k call old
      · exact .updated k jobId timeout sender
    | recvRemove i =>
      obtain ⟨r, operation, jobId, force, received, idle, sender, removal, removed, rfl⟩ :=
        resume_recvRemove taken
      have untouched := (Memory.receiveRemove_frame removed).2.2.1.calls
      rcases other i ⟨r, .submit (.delete operation (.job jobId))⟩ _ sender
        (by grind) with ⟨-, old⟩ | ⟨rfl, rfl⟩
      · exact .before _ k call old
      · exact .removed k r operation jobId force sender removal
    | serve i ok =>
      simp only [resume, Memory.serve, bind, Option.bind_eq_some_iff] at taken
      obtain ⟨old, here, pc, continues, taken⟩ := taken
      rcases other i ⟨old.request, pc⟩ old here (by grind) with ⟨-, before⟩ | ⟨rfl, rfl⟩
      · exact .before _ k call before
      · exact .served k ok old pc here continues
    | _ => cases moves
  · rw [(resume_frame taken).calls (by simpa using moves)] at found
    exact .before a k call found

end

/-- A step is the access to the database and what its actor does with the reply. -/
theorem step_eq_some_iff {s s' : State} {a : Action} : step s a = some s' ↔
    resume s.clock s.memory (access s a).2 a = some s'.memory ∧ s'.db = (access s a).1 ∧
      s'.clock = s.clock + a.elapsed := by
  rw [step, Option.map_eq_some_iff]
  constructor
  · rintro ⟨m, taken, rfl⟩
    exact ⟨taken, rfl, rfl⟩
  · rintro ⟨taken, db, clock⟩
    exact ⟨s'.memory, taken, by rw [← db, ← clock]⟩

theorem step_resume {s s' : State} {a : Action} (taken : step s a = some s') :
    resume s.clock s.memory (access s a).2 a = some s'.memory := (step_eq_some_iff.mp taken).1

theorem step_frame {s s' : State} {a : Action} (taken : step s a = some s') :
    Frame a s.memory s'.memory := resume_frame (step_resume taken)

end Tio.Job
