import Tio.Core.WaitFor
import Tio.Job.Frame

/-! The sends between the four loops. Each loop sends to one other loop only, so
the loops form a ring, and the question is when it closes. -/

namespace Tio.Job

open Tio.Core

inductive Loop where
  | rollout
  | sysOp
  | change
  | watch
  deriving DecidableEq

/-- The receiver of what a loop sends. -/
def Loop.receiver : Loop → Loop
  | .rollout => .sysOp
  | .sysOp => .change
  | .change => .watch
  | .watch => .rollout

/-- The loop whose `select` alone can take what this loop is blocked on. -/
def awaits (m : Memory) : Loop → Option Loop
  | .rollout =>
    match m.rollout with
    | .endSend .. | .put .. => some .sysOp
    | _ => none
  | .sysOp =>
    match m.sysOp with
    | .sendSent .. => some .change
    | _ => none
  | .change =>
    match m.change with
    | .send _ => some .watch
    | _ => none
  | .watch =>
    match m.watch with
    | .sendRemove .. => some .rollout
    | _ => none

/-- The step brings the loop in front of a send to another loop. -/
inductive BeginsSend (s : State) : Action → Loop → Prop
  | put (ok : Bool) (i l : Nat) (v : PendingJobItem) (here : s.memory.rollout = .publish i l)
      (found : s.memory.pendingJobs[i]? = some v) (system : isSysOp v.context.operation = true) :
      BeginsSend s (.rollout ok) .rollout
  | endSend (ok : Bool) (i l : Nat) (v : PendingJobItem) (config : SchedulingConfig)
      (here : s.memory.rollout = .outOfTime i l) (found : s.memory.pendingJobs[i]? = some v)
      (late : isJobScheduleBeforeStartTime s.clock v.context = false)
      (scheduled : v.context.scheduling = some config) (cancels : config.endBehavior ≠ .stopRollout)
      (system : isSysOp v.context.operation = true) : BeginsSend s (.rollout ok) .rollout
  | sendSent (online : Option Bool) (accepted : Bool) (c : Nat) (t : Task)
      (here : s.memory.sysOp = .submit c t) (queued : t.status = .queued)
      (reachable : (isDirectMethodOp t.operation && online = some false) = false)
      (taken : (isSysOp t.operation && !accepted) = false) :
      BeginsSend s (.sysOp online accepted) .sysOp
  | send (ok : Bool) (msg : TaskChangeMsg) (here : s.memory.change = .update msg) :
      BeginsSend s (.change ok) .change
  | sendRemove (ok : Bool) (jobId : String) (todo : List String)
      (here : s.memory.watch = .forget jobId todo) : BeginsSend s (.watch ok) .watch

/-- A loop begins its send while the three others are each blocked in theirs. -/
def ClosesRing (s : State) (a : Action) : Prop :=
  ∃ loop, BeginsSend s a loop ∧ ∀ other, other ≠ loop → (awaits s.memory other).isSome

theorem awaits_receiver (m : Memory) (loop other : Loop) (waiting : awaits m loop = some other) :
    other = loop.receiver := by
  cases loop <;> simp only [awaits] at waiting <;> split at waiting <;> simp_all [Loop.receiver]

theorem receiver_ring (loop other : Loop) : ∃ n, Loop.receiver^[n] loop = other := by
  have reach : ∀ loop other : Loop, Loop.receiver^[0] loop = other ∨ Loop.receiver^[1] loop = other ∨
      Loop.receiver^[2] loop = other ∨ Loop.receiver^[3] loop = other := by
    intro loop other
    cases loop <;> cases other <;> decide
  rcases reach loop other with here | here | here | here <;> exact ⟨_, here⟩

theorem circularWait_iff (m : Memory) :
    CircularWait (awaits m) ↔ ∀ loop, (awaits m loop).isSome :=
  haveI : Nonempty Loop := ⟨.rollout⟩
  circularWait_iff_ring (awaits_receiver m) receiver_ring

/-- The loop whose send a step completes. -/
@[grind =] def Action.completes : Action → Option Loop
  | .recvPut | .recvEndDelete => some .rollout
  | .recvSent => some .sysOp
  | .recvChange => some .change
  | .recvFinished => some .watch
  | _ => none

def Action.moves (a : Action) : Loop → Bool
  | .rollout => a.movesRollout
  | .sysOp => a.movesSysOp
  | .change => a.movesChange
  | .watch => a.movesWatch

theorem Action.completes_moves {a : Action} {loop : Loop} (completes : a.completes = some loop) :
    a.moves loop = true := by
  cases a <;> cases completes <;> rfl

namespace BeginsSend

variable {s : State} {a : Action} {loop other : Loop}

theorem moves (begins : BeginsSend s a loop) : a.moves loop = true := by
  cases begins <;> rfl

theorem completes (begins : BeginsSend s a loop) : a.completes = none := by
  cases begins <;> rfl

theorem unique (begins : BeginsSend s a loop) (also : BeginsSend s a other) : other = loop := by
  cases begins <;> cases also <;> rfl

end BeginsSend

section

variable {s s' : State} {a : Action} {loop : Loop}

theorem awaits_still (taken : step s a = some s') (still : a.moves loop = false) :
    awaits s'.memory loop = awaits s.memory loop := by
  have frame := step_frame taken
  cases loop with
  | rollout => simp [awaits, frame.rollout still]
  | sysOp => simp [awaits, frame.sysOp still]
  | change => simp [awaits, frame.change still]
  | watch => simp [awaits, frame.watch still]

/-- A loop is in front of a send when it just got there or when it was there and
nobody took what it sends. -/
def AwaitsAfter (s : State) (a : Action) (s' : State) (loop : Loop) : Prop :=
  (awaits s'.memory loop).isSome ↔
    BeginsSend s a loop ∨ ((awaits s.memory loop).isSome ∧ a.completes ≠ some loop)

private theorem awaits_rollout (taken : step s a = some s') (moves : a.moves .rollout = true) :
    AwaitsAfter s a s' .rollout := by
  have resumed := step_resume taken
  rw [AwaitsAfter]
  cases a with
  | rollout ok =>
    have rolls := Memory.rolls_of_rolloutNext resumed
    generalize s'.memory = m' at rolls ⊢
    cases rolls <;> grind [awaits, BeginsSend]
  | rolloutTick =>
    simp only [resume] at resumed
    grind [awaits, BeginsSend]
  | recvPut =>
    obtain ⟨i, l, rolloutTasks, idle, sender, resumed⟩ := resume_recvPut resumed
    grind [awaits, BeginsSend]
  | recvEndDelete =>
    obtain ⟨i, l, v, idle, sender, found, resumed⟩ := resume_recvEndDelete resumed
    grind [awaits, BeginsSend]
  | recvPending i =>
    obtain ⟨item, idle, sender, resumed⟩ := resume_recvPending resumed
    grind [awaits, BeginsSend]
  | recvUpdate i =>
    obtain ⟨jobId, timeout, idle, sender, resumed⟩ := resume_recvUpdate resumed
    grind [awaits, BeginsSend]
  | _ => cases moves

private theorem awaits_sysOp (taken : step s a = some s') (moves : a.moves .sysOp = true) :
    AwaitsAfter s a s' .sysOp := by
  have resumed := step_resume taken
  rw [AwaitsAfter]
  cases a with
  | sysOp online accepted =>
    simp only [resume, Memory.sysOpNext] at resumed
    split at resumed <;> grind [awaits, BeginsSend]
  | sysOpTick | connect _ _ | recvSent =>
    simp only [resume] at resumed
    grind [awaits, BeginsSend]
  | _ => cases moves

private theorem awaits_change (taken : step s a = some s') (moves : a.moves .change = true) :
    AwaitsAfter s a s' .change := by
  have resumed := step_resume taken
  rw [AwaitsAfter]
  cases a with
  | change ok =>
    simp only [resume, Memory.changeNext] at resumed
    split at resumed <;> grind [awaits, BeginsSend]
  | recvSent | recvResult _ | recvChange =>
    simp only [resume] at resumed
    grind [awaits, BeginsSend]
  | _ => cases moves

private theorem awaits_watch (taken : step s a = some s') (moves : a.moves .watch = true) :
    AwaitsAfter s a s' .watch := by
  have resumed := step_resume taken
  rw [AwaitsAfter]
  cases a with
  | watch ok =>
    simp only [resume, Memory.watchNext] at resumed
    split at resumed <;> grind [awaits, BeginsSend]
  | watchTick _ =>
    simp only [resume] at resumed
    grind [awaits, BeginsSend]
  | recvFinished =>
    obtain ⟨jobId, todo, received, idle, sender, removed, resumed⟩ := resume_recvFinished resumed
    grind [awaits, BeginsSend]
  | _ => cases moves

theorem awaits_step (taken : step s a = some s') (loop : Loop) : AwaitsAfter s a s' loop := by
  by_cases moves : a.moves loop
  · cases loop with
    | rollout => exact awaits_rollout taken moves
    | sysOp => exact awaits_sysOp taken moves
    | change => exact awaits_change taken moves
    | watch => exact awaits_watch taken moves
  · have stays : a.completes ≠ some loop := fun completes => moves (Action.completes_moves completes)
    have idle : ¬BeginsSend s a loop := fun begins => moves begins.moves
    rw [AwaitsAfter, awaits_still taken (by simpa using moves)]
    simp [stays, idle]

/-- From a state without a circular wait exactly the closing steps lead to one. -/
theorem circularWait_step (taken : step s a = some s') (free : ¬CircularWait (awaits s.memory)) :
    ¬CircularWait (awaits s'.memory) ↔ ¬ClosesRing s a := by
  rw [not_iff_not, circularWait_iff]
  rw [circularWait_iff] at free
  constructor
  · intro every
    obtain ⟨loop, awake⟩ := not_forall.mp free
    have begins : BeginsSend s a loop :=
      ((awaits_step taken loop).mp (every loop)).resolve_right fun before => awake before.1
    refine ⟨loop, begins, fun other apart => ?_⟩
    rcases (awaits_step taken other).mp (every other) with also | before
    · exact absurd (begins.unique also) apart
    · exact before.1
  · rintro ⟨loop, begins, others⟩ other
    refine (awaits_step taken other).mpr ?_
    by_cases same : other = loop
    · exact .inl (same ▸ begins)
    · exact .inr ⟨others other same, by simp [begins.completes]⟩

end

/-- No state of a run has a circular wait of the loops if and only if no step
closes the ring. -/
theorem no_circularWait_iff (db : Db) (clock : Int) (actions : List Action) :
    Always step (fun _ _ s' => ¬CircularWait (awaits s'.memory)) (boot db clock) actions ↔
      Meets step (fun s a => ¬ClosesRing s a) (boot db clock) actions := by
  refine always_iff_meets (fun s => ¬CircularWait (awaits s.memory)) ?_ ?_ actions ?_
  · exact fun s a s' free taken => circularWait_step taken free
  · exact fun s a s' free calm taken => (circularWait_step taken free).mpr calm
  · rw [circularWait_iff]
    exact fun every => by simpa [boot, awaits] using every .rollout

/-- Three jobs of the shadow operation, one with its task sent before the start. -/
def ringDb : Db where
  jobs := ["a", "b", "c"].map fun jobId =>
    (jobId, { toEntity "$updateShadow/x" ["thing"] none none none with status := .inProgress })
  tasks := numbered 1 (toTaskEntities 0 "a" "$updateShadow/x" ["thing"] ++
    toTaskEntities 0 "b" "$updateShadow/x" ["thing"] ++
    (toTaskEntities 0 "c" "$updateShadow/x" ["thing"]).map fun t => { t with status := .sent })
  nextTaskId := 4
  returning := true
  positive := by decide
  given := numbered_given (by decide)

/-- The first pass puts the tasks of `a` and `c` and skips `b`. The runner submits
both, `c` is done and watched, and `a` is done before the runner reports that it was
sent. The check of `c` and the second pass, which puts the task of `b`, do the rest. -/
def ringRun : List Action :=
  let put : List Action := List.replicate 4 (.rollout true)
  List.replicate 6 (.rollout true) ++
  [.rolloutTick] ++ put ++ [.recvPut, .rollout true] ++ put ++
  [.recvPut, .rollout true, .rollout true] ++
  [.sysOpTick] ++ List.replicate 4 (.sysOp none true) ++
  [.work 0 true, .recvResult 0, .change true, .recvChange] ++
  [.work 1 true, .recvResult 1, .change true] ++
  [.watchTick ["c"]] ++ List.replicate 4 (.watch true) ++
  [.rolloutTick] ++ put

theorem loops_block_each_other :
    ∃ s, execute step (boot ringDb 0) ringRun = some s ∧ CircularWait (awaits s.memory) := by
  have blocked : (execute step (boot ringDb 0) ringRun).map (fun s =>
      [Loop.rollout, .sysOp, .change, .watch].map fun loop => (awaits s.memory loop).isSome) =
      some [true, true, true, true] := rfl
  obtain ⟨s, reached, every⟩ := Option.map_eq_some_iff.mp blocked
  simp only [List.map_cons, List.map_nil, List.cons.injEq, and_true] at every
  refine ⟨s, reached, (circularWait_iff s.memory).mpr fun loop => ?_⟩
  cases loop <;> simp [every]

end Tio.Job
