import Mathlib.Logic.Function.Basic
import Tio.Core.Run

/-! Clients that each read a versioned row, work on a draft, and later write the
draft back, interleaved in any order. A write is given the next version of the
row its draft was read from, whatever is stored by then. -/

namespace Tio.Core.Optimistic

universe u

/-- How the clients read and write the row. A write may refuse. -/
structure Cell (Client Row Draft : Type u) where
  version : Row → Int
  based : Draft → Int
  read : Client → Row → Option Draft
  write : Client → Draft → Row → Option Row
  read_based : ∀ client row draft, read client row = some draft → based draft = version row
  write_version : ∀ client draft row next, write client draft row = some next →
    version next = based draft + 1

inductive Phase (Draft : Type u) where
  | waiting
  | holding (draft : Draft)
  | acknowledged
  | refused

/-- The row, where each client is, and the acknowledged clients in the order of
their writes. -/
structure World (Client Row Draft : Type u) where
  row : Row
  phase : Client → Phase Draft
  acked : List Client

inductive Event (Client : Type u) where
  | read (client : Client)
  | write (client : Client)

variable {Client Row Draft : Type u} (cell : Cell Client Row Draft)

def initial (row : Row) : World Client Row Draft := ⟨row, fun _ => .waiting, []⟩

/-- A client that reads and writes at once. -/
def atomic (client : Client) (row : Row) : Option Row :=
  (cell.read client row).bind fun draft => cell.write client draft row

/-- Clients that run one after the other. -/
def replay : Row → List Client → Option Row
  | row, [] => some row
  | row, client :: rest => (atomic cell client row).bind fun next => replay next rest

/-- A write that goes through finds the version that its draft was read at. -/
def Fresh (world : World Client Row Draft) : Event Client → Prop
  | .read _ => True
  | .write client => ∀ draft next, world.phase client = .holding draft →
    cell.write client draft world.row = some next → cell.based draft = cell.version world.row

theorem replay_concat (row : Row) (clients : List Client) (client : Client) :
    replay cell row (clients ++ [client]) =
      (replay cell row clients).bind fun middle => atomic cell client middle := by
  induction clients generalizing row with
  | nil => simp [replay]
  | cons head rest ih =>
    rw [List.cons_append, replay, replay]
    cases atomic cell head row with
    | none => rfl
    | some next => exact ih next

/-- Every acknowledged write counts. -/
def Counted (start : Row) (world : World Client Row Draft) : Prop :=
  cell.version world.row = cell.version start + world.acked.length

/-- The acknowledged clients, one after the other, lead to the same row. -/
def Replayed (start : Row) (world : World Client Row Draft) : Prop :=
  replay cell start world.acked = some world.row

/-- A draft is never ahead of the row, and one at the row's version was read from it. -/
structure Consistent (start : Row) (world : World Client Row Draft) : Prop where
  counted : Counted cell start world
  replayed : Replayed cell start world
  behind : ∀ client draft, world.phase client = .holding draft →
    cell.based draft ≤ cell.version world.row
  current : ∀ client draft, world.phase client = .holding draft →
    cell.based draft = cell.version world.row → cell.read client world.row = some draft

theorem consistent_initial (start : Row) : Consistent cell start (initial start) where
  counted := by simp [Counted, initial]
  replayed := rfl
  behind := by simp [initial]
  current := by simp [initial]

variable [DecidableEq Client]

def World.enter (world : World Client Row Draft) (client : Client) (phase : Phase Draft) :
    World Client Row Draft := { world with phase := Function.update world.phase client phase }

def step (world : World Client Row Draft) : Event Client → Option (World Client Row Draft)
  | .read client =>
    match world.phase client with
    | .waiting =>
      match cell.read client world.row with
      | some draft => some (world.enter client (.holding draft))
      | none => some (world.enter client .refused)
    | _ => none
  | .write client =>
    match world.phase client with
    | .holding draft =>
      match cell.write client draft world.row with
      | some next => some { world.enter client .acknowledged with
          row := next, acked := world.acked ++ [client] }
      | none => some (world.enter client .refused)
    | _ => none

/-- What a step can be: a read that is answered, a write that goes through, or
a client turned away. -/
theorem step_cases {world next : World Client Row Draft} {event : Event Client}
    (taken : step cell world event = some next) :
    (∃ client draft, event = .read client ∧ cell.read client world.row = some draft ∧
      next = world.enter client (.holding draft)) ∨
    (∃ client draft row, event = .write client ∧ world.phase client = .holding draft ∧
      cell.write client draft world.row = some row ∧
      next = { world.enter client .acknowledged with row := row, acked := world.acked ++ [client] }) ∨
    (∃ client, next = world.enter client .refused ∧ (event = .read client ∨ event = .write client ∧
      ∃ draft, world.phase client = .holding draft ∧ cell.write client draft world.row = none)) := by
  cases event with
  | read client =>
    cases here : world.phase client with
    | waiting =>
      simp only [step, here] at taken
      cases answered : cell.read client world.row with
      | some draft =>
        rw [answered] at taken
        cases taken
        exact .inl ⟨client, draft, rfl, answered, rfl⟩
      | none =>
        rw [answered] at taken
        cases taken
        exact .inr (.inr ⟨client, rfl, .inl rfl⟩)
    | _ => simp [step, here] at taken
  | write client =>
    cases here : world.phase client with
    | holding draft =>
      simp only [step, here] at taken
      cases answered : cell.write client draft world.row with
      | some row =>
        rw [answered] at taken
        cases taken
        exact .inr (.inl ⟨client, draft, row, rfl, here, answered, rfl⟩)
      | none =>
        rw [answered] at taken
        cases taken
        exact .inr (.inr ⟨client, rfl, .inr ⟨rfl, draft, here, answered⟩⟩)
    | _ => simp [step, here] at taken

theorem World.enter_phase (world : World Client Row Draft) (client other : Client)
    (phase : Phase Draft) : (world.enter client phase).phase other =
      if other = client then phase else world.phase other := by
  by_cases same : other = client <;> simp [World.enter, Function.update, same]

private theorem Consistent.refuse {start : Row} {world : World Client Row Draft}
    (consistent : Consistent cell start world) (client : Client) :
    Consistent cell start (world.enter client .refused) where
  counted := consistent.counted
  replayed := consistent.replayed
  behind other draft held := by
    rw [World.enter_phase] at held
    split at held
    · cases held
    · exact consistent.behind other draft held
  current other draft held := by
    rw [World.enter_phase] at held
    split at held
    · cases held
    · exact consistent.current other draft held

private theorem Consistent.hold {start : Row} {world : World Client Row Draft}
    (consistent : Consistent cell start world) {client : Client} {draft : Draft}
    (answered : cell.read client world.row = some draft) :
    Consistent cell start (world.enter client (.holding draft)) where
  counted := consistent.counted
  replayed := consistent.replayed
  behind other found held := by
    rw [World.enter_phase] at held
    split at held
    · cases held
      exact Int.le_of_eq (cell.read_based client world.row draft answered)
    · exact consistent.behind other found held
  current other found held same := by
    rw [World.enter_phase] at held
    split at held
    · rename_i here
      cases held
      exact here ▸ answered
    · exact consistent.current other found held same

private theorem Consistent.acknowledge {start : Row} {world : World Client Row Draft}
    (consistent : Consistent cell start world) {client : Client} {draft : Draft} {row : Row}
    (held : world.phase client = .holding draft)
    (written : cell.write client draft world.row = some row)
    (fresh : cell.based draft = cell.version world.row) :
    Consistent cell start { world.enter client .acknowledged with
      row := row, acked := world.acked ++ [client] } := by
  have later : cell.version row = cell.version world.row + 1 := by
    rw [cell.write_version client draft world.row row written, fresh]
  have older : ∀ other found, (world.enter client .acknowledged).phase other = .holding found →
      cell.based found < cell.version row := by
    intro other found there
    rw [World.enter_phase] at there
    split at there
    · cases there
    · have := consistent.behind other found there
      omega
  exact {
    counted := by
      have counted := consistent.counted
      simp only [Counted] at counted ⊢
      rw [later, counted, List.length_append, List.length_singleton]
      push_cast
      omega
    replayed := by
      have replayed : replay cell start world.acked = some world.row := consistent.replayed
      have snapshot := consistent.current client draft held fresh
      simp [Replayed, replay_concat, replayed, atomic, snapshot, written]
    behind := fun other found there => Int.le_of_lt (older other found there)
    current := fun other found there same => absurd same (Int.ne_of_lt (older other found there)) }

theorem Consistent.step {start : Row} {world next : World Client Row Draft} {event : Event Client}
    (consistent : Consistent cell start world) (fresh : Fresh cell world event)
    (taken : step cell world event = some next) : Consistent cell start next := by
  obtain ⟨client, draft, -, answered, rfl⟩ | ⟨client, draft, row, rfl, held, written, rfl⟩ |
    ⟨client, rfl, -⟩ := step_cases cell taken
  · exact consistent.hold cell answered
  · exact consistent.acknowledge cell held written (fresh draft row held written)
  · exact consistent.refuse cell client

/-- Among consistent worlds, a write that is not fresh is the step that miscounts. -/
theorem counted_step_iff {start : Row} {world next : World Client Row Draft} {event : Event Client}
    (consistent : Consistent cell start world) (taken : step cell world event = some next) :
    Counted cell start next ↔ Fresh cell world event := by
  refine ⟨?_, fun fresh => (consistent.step cell fresh taken).counted⟩
  obtain ⟨client, draft, rfl, -, -⟩ | ⟨client, draft, row, rfl, held, written, rfl⟩ |
    ⟨client, -, rfl | ⟨rfl, draft, held, unwritten⟩⟩ := step_cases cell taken
  · exact fun _ => trivial
  · intro counted other next' held' _
    rw [held] at held'
    cases held'
    have before := consistent.counted
    have after := cell.write_version client draft world.row row written
    simp only [Counted, List.length_append, List.length_singleton] at before counted
    push_cast at counted
    omega
  · exact fun _ => trivial
  · intro _ other next' held' written
    rw [held] at held'
    cases held'
    rw [unwritten] at written
    cases written

/-- Every acknowledged write counts, along the whole run, exactly when every
write that goes through is fresh. -/
theorem counted_iff_fresh (start : Row) (events : List (Event Client)) :
    Always (step cell) (fun _ _ next => Counted cell start next) (initial start) events ↔
      Meets (step cell) (Fresh cell) (initial start) events :=
  always_iff_meets (Consistent cell start)
    (fun _ _ _ consistent taken => counted_step_iff cell consistent taken)
    (fun _ _ _ consistent fresh taken => consistent.step cell fresh taken) events
    (consistent_initial cell start)

theorem consistent_of_fresh (start : Row) {events : List (Event Client)}
    (fresh : Meets (step cell) (Fresh cell) (initial start) events) :
    Always (step cell) (fun _ _ next => Consistent cell start next) (initial start) events :=
  Meets.always (Consistent cell start)
    (fun _ _ _ consistent here taken =>
      ⟨consistent.step cell here taken, consistent.step cell here taken⟩)
    fresh (consistent_initial cell start)

end Tio.Core.Optimistic
