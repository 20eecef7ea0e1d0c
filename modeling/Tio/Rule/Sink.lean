import Tio.Rule.Delivery

/-! The queue of an AMQP sink (`rule/sink/amqp.go`). The tasks of the rules put messages
into it, and one loop takes them out, opens the channel again when it is closed, and
publishes one message after the other. -/

namespace Tio.AmqpSink

open Tio.Core
open Tio.Rule (Msg)

/-- What became of a message that was handed to the channel. -/
inductive Outcome where
  | taken
  /-- The server refused it or did not answer in time. -/
  | refused
  | closed
  deriving DecidableEq

/-- Where `publishLoop` stands. -/
inductive Loop where
  | check
  | sleep
  | receive
  | publish (msg : Msg)
  deriving DecidableEq

/-- A connection and a channel that are there are open or closed. -/
structure State where
  conn : Option Bool
  channel : Option Bool
  ch : List Msg
  loop : Loop
  accepted : List Msg
  attempts : List (Msg × Outcome)
  closures : Nat

def capacity : Nat := 10000

inductive Action where
  | publish (msg : Msg)
  /-- The loop goes on; the server lets itself be dialled, opens a channel, takes a message. -/
  | loop (dials opens takes : Bool)
  | closeChannel
  | closeConn
  /-- Another sink of the connector has set the connection up. -/
  | dialled

/-- A connection that never was is not dialled again. -/
def setup (dials opens : Bool) (s : State) : State :=
  match s.conn with
  | none => s
  | some up =>
    if up || dials then
      if opens then { s with conn := some true, channel := some true } else { s with conn := some true }
    else s

/-- `NewAmqp` with the connection as its connector has it. -/
def newAmqp (conn : Option Bool) (dials opens : Bool) : State :=
  setup dials opens ⟨conn, none, [], .check, [], [], 0⟩

def loopNext (dials opens takes : Bool) (s : State) : Option State :=
  match s.loop with
  | .check =>
    if s.channel = some true then some { s with loop := .receive }
    else some { setup dials opens s with loop := .sleep }
  | .sleep => some { s with loop := .check }
  | .receive =>
    match s.ch with
    | [] => none
    | msg :: rest => some { s with ch := rest, loop := .publish msg }
  | .publish msg =>
    let outcome := if s.channel = some true then if takes then .taken else .refused else .closed
    some { s with attempts := s.attempts ++ [(msg, outcome)], loop := .check }

def close (s : State) : State :=
  if s.channel = some true then { s with channel := some false, closures := s.closures + 1 } else s

def step (s : State) : Action → Option State
  | .publish msg =>
    if s.ch.length < capacity then some { s with ch := s.ch ++ [msg], accepted := s.accepted ++ [msg] }
    else none
  | .loop dials opens takes => loopNext dials opens takes s
  | .closeChannel => if s.channel = some true then some (close s) else none
  | .closeConn => if s.conn = some true then some { close s with conn := some false } else none
  | .dialled => if s.conn = some false then some { s with conn := some true } else none

def Loop.held : Loop → List Msg
  | .publish msg => [msg]
  | _ => []

/-- The loop has seen an open channel that is closed now. -/
def State.deceived (s : State) : Nat :=
  match s.loop with
  | .receive | .publish _ => if s.channel = some true then 0 else 1
  | _ => 0

def State.lost (s : State) : Nat := s.attempts.countP fun attempt => attempt.2 = .closed

/-- Every message that was accepted is attempted once, in its order, or waits. A channel
that is closed costs one message at the most. -/
structure Conserved (s : State) : Prop where
  order : s.attempts.map Prod.fst ++ s.loop.held ++ s.ch = s.accepted
  bounded : s.ch.length ≤ capacity
  lost : s.lost + s.deceived ≤ s.closures

/-- The sink has no connection and waits for one. -/
structure Unborn (s : State) : Prop where
  conn : s.conn = none
  channel : s.channel = none
  loop : s.loop = .check ∨ s.loop = .sleep
  attempts : s.attempts = []

section

variable {s s' : State} {a : Action}

theorem setup_eq (dials opens : Bool) (s : State) :
    ∃ conn channel, setup dials opens s = { s with conn := conn, channel := channel } := by
  rw [setup]
  split
  · exact ⟨s.conn, s.channel, rfl⟩
  · split
    · split
      · exact ⟨some true, some true, rfl⟩
      · exact ⟨some true, s.channel, rfl⟩
    · exact ⟨s.conn, s.channel, rfl⟩

theorem conserved_newAmqp (conn : Option Bool) (dials opens : Bool) : Conserved (newAmqp conn dials opens) := by
  obtain ⟨conn', channel, same⟩ := setup_eq dials opens ⟨conn, none, [], .check, [], [], 0⟩
  rw [newAmqp, same]
  exact ⟨rfl, Nat.zero_le _, Nat.le_refl 0⟩

theorem conserved_loopNext {dials opens takes : Bool} (conserved : Conserved s)
    (taken : loopNext dials opens takes s = some s') : Conserved s' := by
  obtain ⟨order, bounded, lost⟩ := conserved
  rw [loopNext] at taken
  split at taken
  · rename_i here
    rw [here] at order
    split at taken
    · rename_i live
      cases taken
      exact ⟨order, bounded, by simpa [State.lost, State.deceived, here, live] using lost⟩
    · obtain ⟨conn, channel, same⟩ := setup_eq dials opens s
      rw [same] at taken
      cases taken
      exact ⟨order, bounded, by simpa [State.lost, State.deceived, here] using lost⟩
  · rename_i here
    rw [here] at order
    cases taken
    exact ⟨order, bounded, by simpa [State.lost, State.deceived, here] using lost⟩
  · rename_i here
    rw [here] at order
    split at taken
    · cases taken
    · rename_i msg rest waiting
      cases taken
      rw [waiting] at order bounded
      refine ⟨?_, Nat.le_of_succ_le bounded, by simpa [State.lost, State.deceived, here] using lost⟩
      simpa [Loop.held] using order
  · rename_i msg here
    rw [here] at order
    cases taken
    refine ⟨by simpa [Loop.held] using order, bounded, ?_⟩
    by_cases live : s.channel = some true
    · have fine : (if takes then Outcome.taken else Outcome.refused) ≠ Outcome.closed := by cases takes <;> decide
      simpa [State.lost, State.deceived, here, live, fine] using lost
    · simpa [State.lost, State.deceived, here, live] using lost

theorem conserved_close (conserved : Conserved s) : Conserved (close s) := by
  obtain ⟨order, bounded, lost⟩ := conserved
  rw [close]
  split
  · rename_i live
    refine ⟨order, bounded, ?_⟩
    have one : State.deceived { s with channel := some false, closures := s.closures + 1 } ≤ 1 := by
      rw [State.deceived]
      split
      · split <;> decide
      · split <;> decide
      · exact Nat.zero_le 1
    change s.lost + _ ≤ s.closures + 1
    omega
  · exact ⟨order, bounded, lost⟩

theorem close_conn (s : State) : (close s).conn = s.conn := by
  rw [close]
  split <;> rfl

theorem conserved_step (conserved : Conserved s) (taken : step s a = some s') : Conserved s' := by
  cases a with
  | publish msg =>
    simp only [step] at taken
    split at taken
    · rename_i room
      cases taken
      refine ⟨?_, by rw [List.length_append]; exact room, conserved.lost⟩
      simp only [← conserved.order, List.append_assoc]
    · cases taken
  | loop dials opens takes => exact conserved_loopNext conserved taken
  | closeChannel =>
    simp only [step] at taken
    split at taken <;> cases taken
    exact conserved_close conserved
  | closeConn =>
    simp only [step] at taken
    split at taken <;> cases taken
    obtain ⟨order, bounded, lost⟩ := conserved_close conserved
    exact ⟨order, bounded, lost⟩
  | dialled =>
    simp only [step] at taken
    split at taken <;> cases taken
    exact ⟨conserved.order, conserved.bounded, conserved.lost⟩

theorem unborn_newAmqp (dials opens : Bool) : Unborn (newAmqp none dials opens) := ⟨rfl, rfl, .inl rfl, rfl⟩

theorem unborn_step (unborn : Unborn s) (taken : step s a = some s') : Unborn s' := by
  obtain ⟨conn, channel, loop, attempts⟩ := unborn
  cases a with
  | publish msg =>
    simp only [step] at taken
    split at taken <;> cases taken
    exact ⟨conn, channel, loop, attempts⟩
  | loop dials opens takes =>
    rcases loop with here | here
    · have still : setup dials opens s = s := by rw [setup, conn]
      simp only [step, loopNext, here, channel, still] at taken
      cases taken
      exact ⟨conn, rfl, .inr rfl, attempts⟩
    · simp only [step, loopNext, here] at taken
      cases taken
      exact ⟨conn, channel, .inl rfl, attempts⟩
  | closeChannel => simp [step, channel] at taken
  | closeConn => simp [step, conn] at taken
  | dialled => simp [step, conn] at taken

/-- A connection that was once there stays one that can be dialled. -/
theorem born_step (born : s.conn ≠ none) (taken : step s a = some s') : s'.conn ≠ none := by
  cases a with
  | loop dials opens takes =>
    have kept : ∀ dials opens, (setup dials opens s).conn ≠ none := by
      intro dials opens
      rw [setup]
      split
      · contradiction
      · split
        · split <;> simp
        · exact born
    simp only [step, loopNext] at taken
    split at taken
    · split at taken <;> cases taken
      · exact born
      · exact kept dials opens
    · cases taken
      exact born
    · split at taken <;> cases taken
      exact born
    · cases taken
      exact born
  | publish msg =>
    simp only [step] at taken
    split at taken <;> cases taken
    exact born
  | closeChannel =>
    simp only [step] at taken
    split at taken <;> cases taken
    rwa [close_conn]
  | closeConn | dialled =>
    simp only [step] at taken
    split at taken <;> cases taken
    exact Option.some_ne_none _

end

/-- Along every run what the sink accepted is attempted once and in its order, at most
ten thousand messages wait behind the one in hand, and no more messages are lost to closed
channels than channels were closed. A sink whose connector could not connect when the
program started never attempts anything. -/
theorem sink_conserves (conn : Option Bool) (dials opens : Bool) (labels : List Action) :
    Always step (fun _ _ s => Conserved s ∧ (conn = none → Unborn s)) (newAmqp conn dials opens) labels := by
  refine Meets.always (fun s => Conserved s ∧ (conn = none → Unborn s)) (fun s a s' kept _ taken => ?_)
    (meets_true _ labels) ⟨conserved_newAmqp conn dials opens, fun never => never ▸ unborn_newAmqp dials opens⟩
  have next : Conserved s' ∧ (conn = none → Unborn s') :=
    ⟨conserved_step kept.1 taken, fun never => unborn_step (kept.2 never) taken⟩
  exact ⟨next, next⟩

/-- The loop goes on, and everything answers. -/
def go : Action := .loop true true true

section

variable {s t : State}

theorem drains_cons {goal : State → Prop} (taken : step s go = some t)
    (later : ∃ n s', execute step t (List.replicate n go) = some s' ∧ goal s') :
    ∃ n s', execute step s (List.replicate n go) = some s' ∧ goal s' := by
  obtain ⟨n, s', reached, good⟩ := later
  exact ⟨n + 1, s', execute_cons_eq_some.mpr ⟨t, taken, reached⟩, good⟩

/-- What the loop makes of the messages when nothing is in its way. -/
structure Drained (s s' : State) : Prop where
  ch : s'.ch = []
  loop : s'.loop = .receive
  accepted : s'.accepted = s.accepted
  lost : s'.lost ≤ s.lost + s.deceived

theorem drained_of_receive (here : s.loop = .receive) (live : s.channel = some true) :
    ∃ n s', execute step s (List.replicate n go) = some s' ∧ Drained s s' := by
  cases s with
  | mk conn channel ch loop accepted attempts closures =>
    obtain rfl : loop = .receive := here
    obtain rfl : channel = some true := live
    induction ch generalizing attempts with
    | nil => exact ⟨0, _, rfl, rfl, rfl, rfl, Nat.le_add_right _ _⟩
    | cons msg rest ih =>
      obtain ⟨n, s', reached, drained⟩ := ih (attempts ++ [(msg, .taken)])
      refine ⟨n + 3, s', ?_, drained.ch, drained.loop, drained.accepted, ?_⟩
      · exact execute_cons_eq_some.mpr ⟨_, rfl, execute_cons_eq_some.mpr ⟨_, rfl,
          execute_cons_eq_some.mpr ⟨_, rfl, reached⟩⟩⟩
      · simpa [State.lost, State.deceived] using drained.lost

theorem drained_of_check (here : s.loop = .check) (born : s.conn ≠ none) :
    ∃ n s', execute step s (List.replicate n go) = some s' ∧ Drained s s' := by
  by_cases live : s.channel = some true
  · obtain ⟨n, s', reached, drained⟩ := drained_of_receive (s := { s with loop := .receive }) rfl live
    refine drains_cons (by simp only [go, step, loopNext, here, live, if_true]) ⟨n, s', reached, ?_⟩
    exact ⟨drained.ch, drained.loop, drained.accepted, by simpa [State.lost, State.deceived, here, live] using drained.lost⟩
  · obtain ⟨up, connected⟩ := Option.ne_none_iff_exists'.mp born
    have opened : setup true true s = { s with conn := some true, channel := some true } := by
      simp [setup, connected]
    obtain ⟨n, s', reached, drained⟩ :=
      drained_of_receive (s := { s with conn := some true, channel := some true, loop := .receive }) rfl rfl
    refine drains_cons (by simp only [go, step, loopNext, here, live, if_false, opened]; rfl) ?_
    refine drains_cons rfl (drains_cons rfl ⟨n, s', reached, ?_⟩)
    exact ⟨drained.ch, drained.loop, drained.accepted, by simpa [State.lost, State.deceived, here] using drained.lost⟩

theorem drained_of_publish {msg : Msg} (here : s.loop = .publish msg) (born : s.conn ≠ none) :
    ∃ n s', execute step s (List.replicate n go) = some s' ∧ Drained s s' := by
  have taken : step s go = some { s with
      attempts := s.attempts ++ [(msg, if s.channel = some true then .taken else .closed)], loop := .check } := by
    simp [go, step, loopNext, here]
  obtain ⟨n, s', reached, drained⟩ := drained_of_check (s := { s with
    attempts := s.attempts ++ [(msg, if s.channel = some true then .taken else .closed)], loop := .check }) rfl born
  refine drains_cons taken ⟨n, s', reached, drained.ch, drained.loop, drained.accepted, ?_⟩
  have lost := drained.lost
  by_cases live : s.channel = some true <;> simpa [State.lost, State.deceived, here, live] using lost

theorem drained_of_born (born : s.conn ≠ none) :
    ∃ n s', execute step s (List.replicate n go) = some s' ∧ Drained s s' := by
  cases here : s.loop with
  | check => exact drained_of_check here born
  | sleep =>
    obtain ⟨n, s', reached, drained⟩ := drained_of_check (s := { s with loop := .check }) rfl born
    refine drains_cons (by simp only [go, step, loopNext, here]) ⟨n, s', reached, ?_⟩
    exact ⟨drained.ch, drained.loop, drained.accepted, by simpa [State.lost, State.deceived, here] using drained.lost⟩
  | publish msg => exact drained_of_publish here born
  | receive =>
    cases waiting : s.ch with
    | nil => exact ⟨0, s, rfl, waiting, here, rfl, Nat.le_add_right _ _⟩
    | cons msg rest =>
      obtain ⟨n, s', reached, drained⟩ := drained_of_publish (s := { s with ch := rest, loop := .publish msg }) rfl born
      refine drains_cons (by simp only [go, step, loopNext, here, waiting]) ⟨n, s', reached, ?_⟩
      exact ⟨drained.ch, drained.loop, drained.accepted, by simpa [State.lost, State.deceived, here] using drained.lost⟩

end

/-- After any run of a sink whose connection was there when the program started, once
the server answers again the loop alone publishes all that waits, and no message is lost
but the one that the loop holds, or waits for, on a channel that is closed. -/
theorem sink_drains {conn : Option Bool} (born : conn ≠ none) (dials opens : Bool) {labels : List Action} {s : State}
    (reached : execute step (newAmqp conn dials opens) labels = some s) :
    ∃ n s', execute step s (List.replicate n go) = some s' ∧ s'.ch = [] ∧
      s'.attempts.map Prod.fst = s.accepted ∧ s'.lost ≤ s.lost + s.deceived := by
  have start : (newAmqp conn dials opens).conn ≠ none := by
    obtain ⟨up, rfl⟩ := Option.ne_none_iff_exists'.mp born
    simp only [newAmqp, setup]
    split
    · split <;> simp
    · simp
  have conserved : Conserved s ∧ s.conn ≠ none :=
    @execute_preserves State Action step (fun s => Conserved s ∧ s.conn ≠ none)
      (fun _ _ _ kept taken => ⟨conserved_step kept.1 taken, born_step kept.2 taken⟩)
      _ _ _ ⟨conserved_newAmqp conn dials opens, start⟩ reached
  obtain ⟨n, s', onward, drained⟩ := drained_of_born conserved.2
  have after : Conserved s' :=
    execute_preserves (fun _ _ _ kept taken => conserved_step kept taken) conserved.1 onward
  refine ⟨n, s', onward, drained.ch, ?_, drained.lost⟩
  have order := after.order
  rw [drained.ch, drained.loop, drained.accepted] at order
  simpa [Loop.held] using order

/-- The channel is closed while the loop waits: the next message is lost, and the one
after it goes to a new channel. -/
theorem closed_once : ∃ n s', execute step
    { newAmqp (some true) true true with
      channel := some false, loop := .receive, ch := [⟨"a", "t", []⟩, ⟨"b", "t", []⟩]
      accepted := [⟨"a", "t", []⟩, ⟨"b", "t", []⟩], closures := 1 } (List.replicate n go) = some s' ∧ s'.ch = [] ∧
      s'.attempts.map Prod.fst = [⟨"a", "t", []⟩, ⟨"b", "t", []⟩] ∧ s'.lost ≤ 0 + 1 := by
  have reached : execute step (newAmqp (some true) true true)
      [go, .closeChannel, .publish ⟨"a", "t", []⟩, .publish ⟨"b", "t", []⟩] = some
      { newAmqp (some true) true true with
        channel := some false, loop := .receive, ch := [⟨"a", "t", []⟩, ⟨"b", "t", []⟩]
        accepted := [⟨"a", "t", []⟩, ⟨"b", "t", []⟩], closures := 1 } := rfl
  exact sink_drains (Option.some_ne_none true) true true reached

end Tio.AmqpSink
