import Tio.Shadow.History
import Tio.Shadow.Interleaving

/-! Update requests on their way to `SetReported` (`StateUpdateReq` of `shadow/shadow.go` and
`Link` of `shadow/link.go`): from a goroutine for each message through a channel to a loop,
and from there to the workers of a pool. -/

namespace Tio.Shadow.Link

open Tio.Core Tio.Json

def msgChanCap : Nat := 10000
def maxShadowUpdateWorkerCount : Nat := 500

/-- A message of the thing: the request it decodes to, and what the clock answers to it. -/
structure Message where
  payload : Option StateReq
  times : Times

/-- Messages are numbered as they are delivered. -/
def calls (messages : Nat → Message) (n : Nat) : Call :=
  ⟨(messages n).times, .reported ((messages n).payload.getD ⟨none, none, "", 0⟩)⟩

structure State where
  delivered : Nat
  goroutines : List Nat
  channel : List Nat
  /-- What the loop has received and not handed to a worker yet. -/
  taken : Option Nat
  running : List Nat
  world : Optimistic.World Nat Entity Shadow

def init (row : Entity) : State :=
  { delivered := 0, goroutines := [], channel := [], taken := none, running := []
    world := Optimistic.initial row }

inductive Action
  | deliver
  | send (n : Nat)
  | receive
  | invoke
  /-- The transaction of a worker reads the row, and later it writes it. -/
  | read (n : Nat)
  | write (n : Nat)
  | finish (n : Nat)

def atEnd : Optimistic.Phase Shadow → Bool
  | .acknowledged | .refused => true
  | _ => false

def begun : Optimistic.Phase Shadow → Bool
  | .waiting => false
  | _ => true

def held : Optimistic.Phase Shadow → Option Shadow
  | .holding draft => some draft
  | _ => none

def State.transact (s : State) (messages : Nat → Message) (n : Nat) (event : Optimistic.Event Nat) :
    Option State :=
  if n ∈ s.running then
    (Optimistic.step (cell (calls messages)) s.world event).map fun world => { s with world := world }
  else none

def State.send (s : State) (n : Nat) : Option StateReq → Option State
  | none => some { s with goroutines := s.goroutines.erase n }
  | some _ =>
    if s.channel.length < msgChanCap then
      some { s with goroutines := s.goroutines.erase n, channel := s.channel ++ [n] }
    else none

def step (messages : Nat → Message) (s : State) : Action → Option State
  | .deliver => some { s with delivered := s.delivered + 1, goroutines := s.goroutines ++ [s.delivered] }
  | .send n => if n ∈ s.goroutines then s.send n (messages n).payload else none
  | .receive =>
    match s.taken, s.channel with
    | none, n :: rest => some { s with taken := some n, channel := rest }
    | _, _ => none
  | .invoke =>
    match s.taken with
    | some n =>
      if s.running.length < maxShadowUpdateWorkerCount then
        some { s with taken := none, running := n :: s.running }
      else none
    | none => none
  | .read n => s.transact messages n (.read n)
  | .write n => s.transact messages n (.write n)
  | .finish n =>
    if n ∈ s.running ∧ atEnd (s.world.phase n) = true then some { s with running := s.running.erase n }
    else none

/-- No transaction of the message will run any more. -/
def Settled (messages : Nat → Message) (s : State) (n : Nat) : Prop :=
  atEnd (s.world.phase n) = true ∨ (messages n).payload.isNone = true

instance (messages : Nat → Message) (s : State) : DecidablePred (Settled messages s) :=
  fun _ => inferInstanceAs (Decidable (_ ∨ _))

/-- A transaction begins after those of all messages that were delivered before. -/
def InTurn (messages : Nat → Message) (s : State) : Action → Prop
  | .read n => ∀ m < n, Settled messages s m
  | _ => True

instance (messages : Nat → Message) (s : State) : DecidablePred (InTurn messages s)
  | .read n => inferInstanceAs (Decidable (∀ m < n, _))
  | .deliver | .send _ | .receive | .invoke | .write _ | .finish _ => isTrue trivial

/-- A transaction writes the row that it has read. -/
def Uninterrupted (messages : Nat → Message) (s : State) : Action → Prop
  | .write n => ∀ draft ∈ held (s.world.phase n),
      (calls messages n).request.version = 0 → s.world.row.version + 1 = draft.version
  | _ => True

instance (messages : Nat → Message) (s : State) : DecidablePred (Uninterrupted messages s)
  | .write _ => inferInstanceAs (Decidable (∀ draft ∈ _, _))
  | .deliver | .send _ | .receive | .invoke | .read _ | .finish _ => isTrue trivial

/-- Every message that is delivered has run. -/
def Idle (messages : Nat → Message) (s : State) : Prop := ∀ n < s.delivered, Settled messages s n

/-- Only delivered messages have run, and each of them once. -/
def OnceEach (s : State) : Prop := s.world.acked.Nodup ∧ ∀ n ∈ s.world.acked, n < s.delivered

/-- The row after the messages in the order of their delivery. -/
def inDelivery (messages : Nat → Message) (start : Entity) (delivered : Nat) : Entity :=
  serveAll start ((List.range delivered).map (calls messages))

/-- Where the messages are. -/
structure Placed (messages : Nat → Message) (s : State) : Prop where
  goroutines : ∀ n ∈ s.goroutines, n < s.delivered
  onward : ∀ n ∈ s.channel ++ s.taken.toList ++ s.running,
    n < s.delivered ∧ (messages n).payload.isNone = false
  started : ∀ n, begun (s.world.phase n) = true → n < s.delivered ∧ (messages n).payload.isNone = false
  acked : ∀ n ∈ s.world.acked, atEnd (s.world.phase n) = true
  once : s.world.acked.Nodup

section

variable {messages : Nat → Message} {s s' : State} {a : Action} {n : Nat} {start row : Entity}

theorem transact_cases {event : Optimistic.Event Nat} (taken : s.transact messages n event = some s') :
    n ∈ s.running ∧ ∃ world, Optimistic.step (cell (calls messages)) s.world event = some world ∧
      s' = { s with world := world } := by
  unfold State.transact at taken
  split at taken
  · rename_i member
    obtain ⟨world, done, same⟩ := Option.map_eq_some_iff.mp taken
    exact ⟨member, world, done, same.symm⟩
  · cases taken

/-- What does not touch the row leaves the transactions as they are. -/
theorem step_world (taken : step messages s a = some s') :
    s'.world = s.world ∨ ∃ n event, (a = .read n ∧ event = .read n ∨ a = .write n ∧ event = .write n) ∧
      n ∈ s.running ∧ Optimistic.step (cell (calls messages)) s.world event = some s'.world ∧
      s' = { s with world := s'.world } := by
  cases a with
  | deliver =>
    rw [← Option.some.inj taken]
    exact .inl rfl
  | send n =>
    simp only [step] at taken
    split at taken
    · cases payload : (messages n).payload with
      | none =>
        rw [payload] at taken
        rw [← Option.some.inj taken]
        exact .inl rfl
      | some req =>
        rw [payload] at taken
        simp only [State.send] at taken
        split at taken
        · rw [← Option.some.inj taken]
          exact .inl rfl
        · cases taken
    · cases taken
  | receive =>
    simp only [step] at taken
    split at taken
    · rw [← Option.some.inj taken]
      exact .inl rfl
    · cases taken
  | invoke =>
    simp only [step] at taken
    split at taken
    · split at taken
      · rw [← Option.some.inj taken]
        exact .inl rfl
      · cases taken
    · cases taken
  | read n =>
    obtain ⟨member, world, done, rfl⟩ := transact_cases taken
    exact .inr ⟨n, .read n, .inl ⟨rfl, rfl⟩, member, done, rfl⟩
  | write n =>
    obtain ⟨member, world, done, rfl⟩ := transact_cases taken
    exact .inr ⟨n, .write n, .inr ⟨rfl, rfl⟩, member, done, rfl⟩
  | finish n =>
    simp only [step] at taken
    split at taken
    · rw [← Option.some.inj taken]
      exact .inl rfl
    · cases taken

theorem begun_enter {world : Optimistic.World Nat Entity Shadow} {phase : Optimistic.Phase Shadow} {m : Nat}
    (here : begun ((world.enter n phase).phase m) = true) : m = n ∨ begun (world.phase m) = true := by
  rw [Optimistic.World.enter_phase] at here
  split at here
  · exact .inl ‹_›
  · exact .inr here

theorem atEnd_enter {world : Optimistic.World Nat Entity Shadow} {phase : Optimistic.Phase Shadow} {m : Nat}
    (here : atEnd (world.phase m) = true) (ends : atEnd phase = true ∨ atEnd (world.phase n) = false) :
    atEnd ((world.enter n phase).phase m) = true := by
  rw [Optimistic.World.enter_phase]
  split
  · rename_i same
    rcases ends with fine | unended
    · exact fine
    · rw [same, unended] at here
      cases here
  · exact here

/-- A transaction does not make others begin, and it is acknowledged once. -/
theorem transact_phases {event : Optimistic.Event Nat} {world : Optimistic.World Nat Entity Shadow}
    (about : event = .read n ∨ event = .write n)
    (done : Optimistic.step (cell (calls messages)) s.world event = some world) :
    (∀ m, begun (world.phase m) = true → m = n ∨ begun (s.world.phase m) = true) ∧
    (∀ m, atEnd (s.world.phase m) = true → atEnd (world.phase m) = true) ∧
    (world.acked = s.world.acked ∨
      world.acked = s.world.acked ++ [n] ∧ atEnd (s.world.phase n) = false ∧ atEnd (world.phase n) = true) := by
  obtain ⟨client, draft, rfl, answered, rfl⟩ | ⟨client, draft, row, rfl, held, written, rfl⟩ |
    ⟨client, rfl, reading⟩ := Optimistic.step_cases _ done
  · have same : client = n := by
      rcases about with same | other
      · cases same
        rfl
      · cases other
    subst same
    have waiting : atEnd (s.world.phase client) = false := by
      cases phase : s.world.phase client with
      | waiting | holding => rfl
      | acknowledged | refused => simp [Optimistic.step, phase] at done
    exact ⟨fun m here => begun_enter here, fun m here => atEnd_enter here (.inr waiting), .inl rfl⟩
  · have same : client = n := by
      rcases about with other | same
      · cases other
      · cases same
        rfl
    subst same
    refine ⟨fun m here => begun_enter here, fun m here => atEnd_enter here (.inl rfl), .inr ⟨rfl, ?_, ?_⟩⟩
    · rw [held]
      rfl
    · simp [Optimistic.World.enter, atEnd]
  · have same : client = n := by
      rcases reading with rfl | ⟨rfl, -⟩
      all_goals
        rcases about with same | same
        all_goals cases same
        rfl
    subst same
    exact ⟨fun m here => begun_enter here, fun m here => atEnd_enter here (.inl rfl), .inl rfl⟩

theorem placed_transact {event : Optimistic.Event Nat} (placed : Placed messages s)
    (about : event = .read n ∨ event = .write n) (taken : s.transact messages n event = some s') :
    Placed messages s' := by
  obtain ⟨member, world, done, rfl⟩ := transact_cases taken
  obtain ⟨begins, ends, acked⟩ := transact_phases about done
  refine ⟨placed.goroutines, placed.onward, fun m here => ?_, fun m here => ?_, ?_⟩
  · rcases begins m here with rfl | before
    · exact placed.onward m (List.mem_append_right _ member)
    · exact placed.started m before
  · rcases acked with same | ⟨more, -, finished⟩
    · exact ends m (placed.acked m (same ▸ here))
    · rcases List.mem_append.mp (more ▸ here) with before | new
      · exact ends m (placed.acked m before)
      · rw [List.mem_singleton.mp new]
        exact finished
  · rcases acked with same | ⟨more, unfinished, -⟩
    · exact same ▸ placed.once
    · change world.acked.Nodup
      rw [more, List.nodup_append]
      refine ⟨placed.once, by simp, fun m before k new same => ?_⟩
      rw [same, List.mem_singleton.mp new] at before
      rw [placed.acked n before] at unfinished
      cases unfinished

theorem placed_step (placed : Placed messages s) (taken : step messages s a = some s') :
    Placed messages s' := by
  cases a with
  | deliver =>
    rw [← Option.some.inj taken]
    refine ⟨fun m here => ?_, fun m here => ?_, fun m here => ?_, placed.acked, placed.once⟩
    · rcases List.mem_append.mp here with before | new
      · exact Nat.lt_succ_of_lt (placed.goroutines m before)
      · rw [List.mem_singleton.mp new]
        exact Nat.lt_succ_self _
    · obtain ⟨below, decoded⟩ := placed.onward m here
      exact ⟨Nat.lt_succ_of_lt below, decoded⟩
    · obtain ⟨below, decoded⟩ := placed.started m here
      exact ⟨Nat.lt_succ_of_lt below, decoded⟩
  | send n =>
    simp only [step] at taken
    split at taken
    · rename_i member
      have fewer : ∀ m ∈ s.goroutines.erase n, m < s.delivered :=
        fun m here => placed.goroutines m (List.mem_of_mem_erase here)
      cases payload : (messages n).payload with
      | none =>
        rw [payload] at taken
        rw [← Option.some.inj taken]
        exact ⟨fewer, placed.onward, placed.started, placed.acked, placed.once⟩
      | some req =>
        rw [payload] at taken
        simp only [State.send] at taken
        split at taken
        · rw [← Option.some.inj taken]
          refine ⟨fewer, fun m here => ?_, placed.started, placed.acked, placed.once⟩
          simp only [List.mem_append, List.mem_singleton] at here
          rcases here with ((before | rfl) | before) | before
          · exact placed.onward m (by simp [before])
          · exact ⟨placed.goroutines m member, by rw [payload]; rfl⟩
          · exact placed.onward m (by simp [before])
          · exact placed.onward m (by simp [before])
        · cases taken
    · cases taken
  | receive =>
    simp only [step] at taken
    split at taken
    · rename_i n rest free channel
      rw [← Option.some.inj taken]
      refine ⟨placed.goroutines, fun m here => placed.onward m ?_, placed.started, placed.acked, placed.once⟩
      rw [channel, free]
      simpa [or_comm, or_left_comm, or_assoc] using here
    · cases taken
  | invoke =>
    simp only [step] at taken
    split at taken
    · rename_i n holds
      split at taken
      · rw [← Option.some.inj taken]
        refine ⟨placed.goroutines, fun m here => placed.onward m ?_, placed.started, placed.acked, placed.once⟩
        rw [holds]
        simpa [or_comm, or_left_comm, or_assoc] using here
      · cases taken
    · cases taken
  | read n => exact placed_transact placed (.inl rfl) taken
  | write n => exact placed_transact placed (.inr rfl) taken
  | finish n =>
    simp only [step] at taken
    split at taken
    · rw [← Option.some.inj taken]
      refine ⟨placed.goroutines, fun m here => placed.onward m ?_, placed.started, placed.acked, placed.once⟩
      rcases List.mem_append.mp here with before | later
      · exact List.mem_append_left _ before
      · exact List.mem_append_right _ (List.mem_of_mem_erase later)
    · cases taken

theorem placed_init (row : Entity) : Placed messages (init row) := by
  constructor
  · intro n member
    cases member
  · intro n member
    cases member
  · intro n here
    cases here
  · intro n member
    cases member
  · exact List.nodup_nil

theorem once_of_placed (placed : Placed messages s) : OnceEach s := by
  refine ⟨placed.once, fun n member => ?_⟩
  refine (placed.started n ?_).1
  have ended := placed.acked n member
  cases phase : s.world.phase n with
  | waiting =>
    rw [phase] at ended
    cases ended
  | holding draft | acknowledged | refused => rfl

/-- The transactions have read from the row as of now, or will be checked. -/
structure Current (messages : Nat → Message) (start : Entity) (s : State) : Prop where
  consistent : Optimistic.Consistent (cell (calls messages)) start s.world
  versioned : Versioned (calls messages) s.world

theorem readsCurrent_of_uninterrupted (uninterrupted : Uninterrupted messages s (.write n)) :
    ReadsCurrent (calls messages) s.world (.write n) := by
  intro draft holds bare
  exact uninterrupted draft (by rw [holds]; rfl) bare

theorem current_step (current : Current messages start s) (uninterrupted : Uninterrupted messages s a)
    (taken : step messages s a = some s') : Current messages start s' := by
  rcases step_world taken with same | ⟨n, event, about, -, done, -⟩
  · exact ⟨same ▸ current.consistent, same ▸ current.versioned⟩
  · have fresh : Optimistic.Fresh (cell (calls messages)) s.world event := by
      rcases about with ⟨-, rfl⟩ | ⟨rfl, rfl⟩
      · exact trivial
      · exact (fresh_iff_readsCurrent current.versioned _).mpr (readsCurrent_of_uninterrupted uninterrupted)
    exact ⟨current.consistent.step _ fresh done, versioned_step current.versioned done⟩

theorem inDelivery_succ (messages : Nat → Message) (start : Entity) (k : Nat) :
    inDelivery messages start (k + 1) = (serve (inDelivery messages start k) (calls messages k)).1 := by
  rw [inDelivery, List.range_succ, List.map_append, serveAll_append]
  rfl

theorem setState_unprepared {times : Times} {sr : StateReq} {row : Entity} {failure : Failure}
    (refused : (prepareState times.merge sr false (some row)) = .error failure) :
    setState times sr false (some row) = (some row, .error failure) := by
  rw [setState, transact, refused]
  rfl

/-- A request that is turned away when it reads leaves the row as it was. -/
theorem serve_unprepared (failure : Failure) (refused : prepare (calls messages n) row = .error failure) :
    (serve row (calls messages n)).1 = row := by
  have unprepared : prepareState (messages n).times.merge ((messages n).payload.getD ⟨none, none, "", 0⟩)
      false (some row) = .error failure := by
    simp only [prepare, calls] at refused
    cases prepared : prepareState (messages n).times.merge
      ((messages n).payload.getD ⟨none, none, "", 0⟩) false (some row) with
    | error other =>
      rw [prepared] at refused
      cases refused
      rfl
    | ok prepared' =>
      rw [prepared] at refused
      cases refused
  simp only [serve, calls, setReported, setState_unprepared unprepared, Option.getD_some]

theorem serve_undecoded (undecoded : (messages n).payload.isNone = true) :
    (serve row (calls messages n)).1 = row := by
  refine serve_unprepared .shadowFormat ?_
  rw [calls, Option.isNone_iff_eq_none.mp undecoded]
  rfl

/-- Messages that do not decode do nothing. -/
theorem inDelivery_undecoded {k l : Nat} (later : k ≤ l)
    (undecoded : ∀ m, k ≤ m → m < l → (messages m).payload.isNone = true) :
    inDelivery messages start l = inDelivery messages start k := by
  induction l, later using Nat.le_induction with
  | base => rfl
  | succ l later ih =>
    rw [inDelivery_succ, serve_undecoded (undecoded l later (Nat.lt_succ_self l))]
    exact ih fun m onward below => undecoded m onward (Nat.lt_succ_of_lt below)

/-- All messages before `k` are settled, none after it has begun, and its own transaction, if it
has begun, has read the row that they left. -/
structure At (messages : Nat → Message) (start : Entity) (s : State) (k : Nat) : Prop where
  settled : ∀ m < k, Settled messages s m
  later : ∀ m, k < m → begun (s.world.phase m) = false
  here : begun (s.world.phase k) = false ∨
    ∃ draft, s.world.phase k = .holding draft ∧ prepare (calls messages k) s.world.row = .ok draft
  row : s.world.row = inDelivery messages start k

theorem atEnd_of_begun_false {m : Nat} (waits : begun (s.world.phase m) = false) :
    atEnd (s.world.phase m) = false := by
  cases phase : s.world.phase m <;> simp_all [begun, atEnd]

/-- A settled message that has not begun does not decode. -/
theorem undecoded_of_settled {m : Nat} (settled : Settled messages s m)
    (waits : begun (s.world.phase m) = false) : (messages m).payload.isNone = true := by
  rcases settled with ended | undecoded
  · rw [atEnd_of_begun_false waits] at ended
    cases ended
  · exact undecoded

/-- When everything before a later message is settled too, that message is next. -/
theorem At.advance {k : Nat} (progress : At messages start s k) (placed : Placed messages s) (beyond : k < n)
    (settled : ∀ m < n, Settled messages s m) : At messages start s n := by
  have waits : begun (s.world.phase k) = false := by
    rcases progress.here with waits | ⟨draft, holds, -⟩
    · exact waits
    · exfalso
      have decoded := (placed.started k (by rw [holds]; rfl)).2
      rcases settled k beyond with ended | undecoded
      · rw [holds] at ended
        cases ended
      · rw [decoded] at undecoded
        cases undecoded
  have none_begun : ∀ m, k ≤ m → begun (s.world.phase m) = false := by
    intro m onward
    rcases Nat.eq_or_lt_of_le onward with rfl | above
    · exact waits
    · exact progress.later m above
  refine ⟨settled, fun m above => progress.later m (Nat.lt_trans beyond above),
    .inl (none_begun n (Nat.le_of_lt beyond)), ?_⟩
  rw [progress.row, inDelivery_undecoded (Nat.le_of_lt beyond)]
  exact fun m onward below => undecoded_of_settled (settled m below) (none_begun m onward)

/-- Whose transaction has not ended is not before the next message. -/
theorem At.reached {k : Nat} (progress : At messages start s k) (decoded : (messages n).payload.isNone = false)
    (unfinished : atEnd (s.world.phase n) = false) : k ≤ n := by
  by_contra below
  rcases progress.settled n (Nat.lt_of_not_le below) with ended | undecoded
  · rw [unfinished] at ended
    cases ended
  · rw [decoded] at undecoded
    cases undecoded

/-- The transaction of the next message ends, and leaves the row that serving it leaves. -/
theorem At.finish {k : Nat} {world : Optimistic.World Nat Entity Shadow}
    (progress : At messages start s k) (phase : Optimistic.Phase Shadow) (ends : atEnd phase = true)
    (phases : ∀ m, world.phase m = if m = k then phase else s.world.phase m)
    (row : world.row = (serve s.world.row (calls messages k)).1) :
    At messages start { s with world := world } (k + 1) := by
  have later : ∀ m, k < m → begun (world.phase m) = false := by
    intro m above
    rw [phases, if_neg (Nat.ne_of_gt above)]
    exact progress.later m above
  constructor
  · intro m below
    rcases Nat.eq_or_lt_of_le (Nat.le_of_lt_succ below) with rfl | before
    · left
      change atEnd (world.phase m) = true
      rw [phases, if_pos rfl]
      exact ends
    · rcases progress.settled m before with ended | undecoded
      · left
        change atEnd (world.phase m) = true
        rw [phases, if_neg (Nat.ne_of_lt before)]
        exact ended
      · exact .inr undecoded
  · exact fun m above => later m (Nat.lt_of_succ_lt above)
  · exact .inl (later (k + 1) (Nat.lt_succ_self k))
  · change world.row = _
    rw [row, progress.row, inDelivery_succ]

theorem At.read {k : Nat} (progress : At messages start s k) (placed : Placed messages s)
    (inTurn : ∀ m < n, Settled messages s m) (taken : s.transact messages n (.read n) = some s') :
    ∃ k', At messages start s' k' := by
  obtain ⟨member, world, done, rfl⟩ := transact_cases taken
  have decoded := (placed.onward n (List.mem_append_right _ member)).2
  have waits : s.world.phase n = .waiting := by
    cases phase : s.world.phase n with
    | waiting => rfl
    | holding | acknowledged | refused => simp [Optimistic.step, phase] at done
  have onward := progress.reached decoded (by rw [waits]; rfl)
  have here : At messages start s n := by
    rcases Nat.eq_or_lt_of_le onward with rfl | beyond
    · exact progress
    · exact progress.advance placed beyond inTurn
  cases answered : prepare (calls messages n) s.world.row with
  | ok draft =>
    have read : (cell (calls messages)).read n s.world.row = some draft := by
      simp [cell, answered, Except.toOption]
    simp only [Optimistic.step, waits, read, Option.some.injEq] at done
    subst done
    refine ⟨n, fun m below => ?_, fun m above => ?_, .inr ⟨draft, ?_, answered⟩, here.row⟩
    · rcases inTurn m below with ended | undecoded
      · left
        change atEnd ((s.world.enter n (.holding draft)).phase m) = true
        rw [Optimistic.World.enter_phase, if_neg (Nat.ne_of_lt below)]
        exact ended
      · exact .inr undecoded
    · change begun ((s.world.enter n (.holding draft)).phase m) = false
      rw [Optimistic.World.enter_phase, if_neg (Nat.ne_of_gt above)]
      exact here.later m above
    · change (s.world.enter n (.holding draft)).phase n = .holding draft
      rw [Optimistic.World.enter_phase, if_pos rfl]
  | error failure =>
    have read : (cell (calls messages)).read n s.world.row = none := by
      simp [cell, answered, Except.toOption]
    simp only [Optimistic.step, waits, read, Option.some.injEq] at done
    subst done
    exact ⟨n + 1, here.finish .refused rfl (fun m => Optimistic.World.enter_phase ..)
      (serve_unprepared failure answered).symm⟩

theorem At.write {k : Nat} (progress : At messages start s k) (placed : Placed messages s)
    (taken : s.transact messages n (.write n) = some s') : ∃ k', At messages start s' k' := by
  obtain ⟨member, world, done, rfl⟩ := transact_cases taken
  have decoded := (placed.onward n (List.mem_append_right _ member)).2
  obtain ⟨draft, holds⟩ : ∃ draft, s.world.phase n = .holding draft := by
    cases phase : s.world.phase n with
    | holding draft => exact ⟨draft, rfl⟩
    | waiting | acknowledged | refused => simp [Optimistic.step, phase] at done
  have same : k = n := by
    rcases Nat.eq_or_lt_of_le (progress.reached decoded (by rw [holds]; rfl)) with same | beyond
    · exact same
    · have waits := progress.later n beyond
      rw [holds] at waits
      cases waits
  subst same
  -- nothing was written since the read, so the version still is the one it asks for
  obtain ⟨draft', holds', answered⟩ : ∃ draft, s.world.phase k = .holding draft ∧
      prepare (calls messages k) s.world.row = .ok draft := by
    rcases progress.here with waits | holding
    · rw [holds] at waits
      cases waits
    · exact holding
  rw [holds] at holds'
  cases holds'
  have accepted := (prepare_version answered).1
  have committed : commit (calls messages k) draft s.world.row =
      .ok (toEntity (calls messages k).times.saved draft) := by
    refine commit_eq_ok.mpr ⟨fun positive => ?_, rfl⟩
    rcases accepted with bare | current
    · rw [bare] at positive
      exact absurd positive (by decide)
    · exact current
  have write : (cell (calls messages)).write k draft s.world.row =
      some (toEntity (calls messages k).times.saved draft) := by
    simp [cell, committed, Except.toOption]
  simp only [Optimistic.step, holds, write, Option.some.injEq] at done
  subst done
  exact ⟨k + 1, progress.finish .acknowledged rfl (fun m => Optimistic.World.enter_phase ..)
    (serve_of_commit answered committed).symm⟩

/-- What leaves the transactions alone leaves them where they are. -/
theorem At.of_world {k : Nat} (progress : At messages start s k) (same : s'.world = s.world) :
    At messages start s' k := by
  constructor
  · intro m below
    rcases progress.settled m below with ended | undecoded
    · exact .inl (same ▸ ended)
    · exact .inr undecoded
  · rw [same]
    exact progress.later
  · rw [same]
    exact progress.here
  · rw [same]
    exact progress.row

theorem at_step (placed : Placed messages s) (progress : ∃ k, At messages start s k) (inTurn : InTurn messages s a)
    (taken : step messages s a = some s') : ∃ k, At messages start s' k := by
  obtain ⟨k, progress⟩ := progress
  rcases step_world taken with same | ⟨n, event, ⟨rfl, rfl⟩ | ⟨rfl, rfl⟩, -⟩
  · exact ⟨k, progress.of_world same⟩
  · exact progress.read placed inTurn taken
  · exact progress.write placed taken

theorem at_init (row : Entity) : At messages row (init row) 0 := by
  constructor
  · intro m below
    cases below
  · intro m above
    rfl
  · exact .inl rfl
  · rfl

theorem At.idle {k : Nat} (progress : At messages start s k) (placed : Placed messages s) (idle : Idle messages s) :
    s.world.row = inDelivery messages start s.delivered := by
  have outside : ∀ m, s.delivered ≤ m → begun (s.world.phase m) = false := by
    intro m beyond
    by_contra started
    have below := (placed.started m (by simpa using started)).1
    exact absurd beyond (Nat.not_le_of_lt below)
  rw [progress.row]
  rcases Nat.le_total k s.delivered with before | beyond
  · refine (inDelivery_undecoded before fun m onward below => ?_).symm
    refine undecoded_of_settled (idle m below) ?_
    rcases Nat.eq_or_lt_of_le onward with rfl | above
    · rcases progress.here with waits | ⟨draft, holds, -⟩
      · exact waits
      · exfalso
        have decoded := (placed.started k (by rw [holds]; rfl)).2
        rcases idle k below with ended | undecoded
        · rw [holds] at ended
          cases ended
        · rw [decoded] at undecoded
          cases undecoded
    · exact progress.later m above
  · refine inDelivery_undecoded beyond fun m onward below => ?_
    exact undecoded_of_settled (progress.settled m below) (outside m onward)

end

/-- Every message that decodes has one transaction, in any order; the row is what the
messages in that order lead to, as long as every transaction writes the row that it has read;
and it is what they lead to in the order of their delivery, when every transaction begins
after those of the messages before. -/
theorem merged_as_run (thingId : String) (now : Int) (history : List Call) (messages : Nat → Message)
    (actions : List Action) :
    Always (step messages) (fun _ _ s' => OnceEach s') (init (serveAll (create thingId now) history)) actions ∧
    (Meets (step messages) (Uninterrupted messages) (init (serveAll (create thingId now) history)) actions →
      Always (step messages)
        (fun _ _ s' => Lossless (calls messages) (serveAll (create thingId now) history) s'.world)
        (init (serveAll (create thingId now) history)) actions) ∧
    (Meets (step messages) (InTurn messages) (init (serveAll (create thingId now) history)) actions →
      Always (step messages)
        (fun _ _ s' => Idle messages s' →
          s'.world.row = inDelivery messages (serveAll (create thingId now) history) s'.delivered)
        (init (serveAll (create thingId now) history)) actions) := by
  have sound := sound_serveAll (sound_create thingId now) history
  generalize serveAll (create thingId now) history = start at sound ⊢
  refine ⟨?_, fun uninterrupted => ?_, fun inTurn => ?_⟩
  · refine Meets.always (Placed messages) (fun s a s' placed _ taken => ?_) (meets_true _ actions)
      (placed_init start)
    exact ⟨once_of_placed (placed_step placed taken), placed_step placed taken⟩
  · refine Meets.always (Current messages start) (fun s a s' current fine taken => ?_) uninterrupted ?_
    · have current' := current_step current fine taken
      exact ⟨lossless_of_consistent current'.consistent, current'⟩
    · exact ⟨Optimistic.consistent_initial _ start, ⟨sound.version, by simp [init, Optimistic.initial]⟩⟩
  · refine Meets.always (fun s => Placed messages s ∧ ∃ k, At messages start s k) ?_ inTurn ?_
    · rintro s a s' ⟨placed, progress⟩ next taken
      have placed' := placed_step placed taken
      obtain ⟨k, progress'⟩ := at_step placed progress next taken
      exact ⟨fun idle => progress'.idle placed' idle, placed', k, progress'⟩
    · exact ⟨placed_init start, 0, at_init start⟩

/-- On first, and off with every later message. -/
def switching (n : Nat) : Message where
  payload := some ⟨none, some ⟨[("on", .bool (n == 0))], rfl⟩, "", 0⟩
  times := ⟨⟨fun _ => 0, fun _ => 0⟩, 0, 0, 0, 0⟩

/-- A message from its goroutine to a worker that has it. -/
def passing (n : Nat) : List Action := [.send n, .receive, .invoke]

def transaction (n : Nat) : List Action := [.read n, .write n, .finish n]

theorem switched_in_turn :
    Always (step switching)
      (fun _ _ s' => Lossless (calls switching) (serveAll (create "lamp" 0) []) s'.world)
      (init (serveAll (create "lamp" 0) []))
      ([.deliver, .deliver] ++ passing 1 ++ passing 0 ++ transaction 1 ++ transaction 0) ∧
    Always (step switching)
      (fun _ _ s' => Idle switching s' →
        s'.world.row = inDelivery switching (serveAll (create "lamp" 0) []) s'.delivered)
      (init (serveAll (create "lamp" 0) []))
      ([.deliver, .deliver] ++ passing 0 ++ passing 1 ++ transaction 0 ++ transaction 1) := by
  constructor
  · exact (merged_as_run "lamp" 0 [] switching _).2.1 (by decide +kernel)
  · exact (merged_as_run "lamp" 0 [] switching _).2.2 (by decide +kernel)

/-- Whether the lamp is said to be on. -/
def reportedOn (reported : GoMap) : Option Bool :=
  match reported.bind (Assoc.get "on") with
  | some (.bool on) => some on
  | _ => none

/-- The lamp reports that it is on and then that it is off, and the second message is first. -/
theorem switched_out_of_turn : ∃ s, execute (step switching) (init (create "lamp" 0))
      ([.deliver, .deliver] ++ passing 1 ++ passing 0 ++ transaction 1 ++ transaction 0) = some s ∧
    Idle switching s ∧
    s.world.row.reported ≠ (inDelivery switching (create "lamp" 0) s.delivered).reported := by
  have reached : (execute (step switching) (init (create "lamp" 0))
      ([.deliver, .deliver] ++ passing 1 ++ passing 0 ++ transaction 1 ++ transaction 0)).any (fun s =>
        decide (∀ n < s.delivered, Settled switching s n) &&
        (reportedOn s.world.row.reported !=
          reportedOn (inDelivery switching (create "lamp" 0) s.delivered).reported)) = true := by
    decide +kernel
  obtain ⟨s, done, both⟩ := (Option.any_eq_true ..).mp reached
  simp only [Bool.and_eq_true, decide_eq_true_eq, bne_iff_ne] at both
  refine ⟨s, done, both.1, fun same => both.2 ?_⟩
  rw [same]

end Tio.Shadow.Link
