import Tio.Core.Run
import Tio.Presence.Emqx

/-! The times that the cache of `connector/mqtt/emqx/emqx.go` compares without asking
whether they are there. `loadClientInfo` looks, asks the broker, and updates, while the
events of the same client are handled; `updateClient` loads the entry and stores it in
two steps, since the lock is the one of the map. -/

namespace Tio.Presence.Emqx

open Tio.Core

/-- The time of the state that the info tells. -/
def ClientInfo.nowTime (i : ClientInfo) : Option Int :=
  if i.connected then i.connectedAt else i.disconnectedAt

inductive Loaded
  | nilTime
  | ignored
  | latest (i : ClientInfo)
deriving DecidableEq

/-- The first half of `updateClient`: `nowTime.Before(*oldTime)` is reached whenever the
entry has a time. -/
def loadOld (i : ClientInfo) (clients : List (String × Client)) : Loaded :=
  match Assoc.get i.clientId clients with
  | none => .latest i
  | some old =>
    if old.info.lastTime.isSome && i.nowTime.isNone then .nilTime
    else if outdated old.info i then .ignored
    else .latest (if i.connected then i else { i with connectedAt := old.info.connectedAt })

theorem lastTime_isSome (info : ClientInfo) : info.lastTime.isSome = info.connectedAt.isSome := by
  unfold ClientInfo.lastTime
  cases info.connectedAt with
  | none => rfl
  | some connected =>
    cases info.disconnectedAt with
    | none => rfl
    | some disconnected =>
      dsimp only
      split <;> rfl

theorem loadOld_eq_nilTime_iff {i : ClientInfo} {clients : List (String × Client)} :
    loadOld i clients = .nilTime ↔ i.nowTime = none ∧
      ∃ old, Assoc.get i.clientId clients = some old ∧ old.info.connectedAt.isSome = true := by
  unfold loadOld
  cases found : Assoc.get i.clientId clients with
  | none => simp
  | some old =>
    simp only [lastTime_isSome, Option.some.injEq, exists_eq_left', Bool.and_eq_true,
      Option.isNone_iff_eq_none]
    split
    · next both => simp [both]
    · next fine =>
      split <;> simp only [reduceCtorEq, false_iff] <;> exact fun both => fine both.symm

/-- Where the first half does not panic, both halves together are `updateClient`. -/
theorem updateClient_eq (now : Int) (i : ClientInfo) (clients : List (String × Client)) :
    loadOld i clients = .nilTime ∨
    (loadOld i clients = .ignored ∧ updateClient now i clients = clients) ∨
    ∃ latest, loadOld i clients = .latest latest ∧
      updateClient now i clients = Assoc.set latest.clientId ⟨latest, now⟩ clients := by
  unfold loadOld updateClient
  cases Assoc.get i.clientId clients with
  | none => exact .inr (.inr ⟨i, rfl, rfl⟩)
  | some old =>
    dsimp only
    split
    · exact .inl rfl
    · split
      · exact .inr (.inl ⟨rfl, rfl⟩)
      · refine .inr (.inr ⟨_, rfl, ?_⟩)
        cases connected : i.connected <;> rfl

/-- An event tells the time of its state. -/
theorem Event.info_nowTime (e : Event) : e.info.nowTime ≠ none := by
  cases e <;> simp [Event.info, ClientInfo.nowTime]

namespace NilTime

/-- The answers to `fetchClient`: a client, status 404, or an error. -/
inductive Answer
  | found (c : ClientInfo)
  | notFound
  | failed
deriving DecidableEq

/-- For 404 the answer is a disconnected client without times. -/
def fetchClient (thingId : String) : Answer → Option ClientInfo
  | .found c => some c
  | .notFound =>
    some { clientId := thingId, username := "", connected := false, connectedAt := none
           disconnectedAt := none, disconnectReason := "", ipAddress := "", port := 0 }
  | .failed => none

/-- An update is made with what the broker answered, or with what an event tells. -/
inductive Source
  | api
  | event
deriving DecidableEq

/-- Where a goroutine stands. -/
inductive Call
  | getClient (thingId : String)
  | fetching (thingId : String)
  | update (source : Source) (i : ClientInfo)
  | store (i : ClientInfo)
  | returned
  | panicked
deriving DecidableEq

structure State where
  clients : List (String × Client)
  calls : List Call
deriving DecidableEq

inductive Begin
  | loadClientInfo (thingId : String)
  /-- A client of a page that `initClientsInfo` fetched. -/
  | initClient (c : ClientInfo)
  | message (e : Event)
deriving DecidableEq

inductive Input
  | answer (a : Answer)
  | go (now : Int)
deriving DecidableEq

inductive Label
  | begin (b : Begin)
  | run (call : Nat) (input : Input)
deriving DecidableEq

def Begin.call : Begin → Call
  | .loadClientInfo thingId => .getClient thingId
  | .initClient c => .update .api c
  | .message e => if e.ignored then .returned else .update .event e.info

def Call.advance (clients : List (String × Client)) : Call → Input → Option (List (String × Client) × Call)
  | .getClient thingId, .go _ =>
    some (clients, if (Assoc.get thingId clients).isSome then .returned else .fetching thingId)
  | .fetching thingId, .answer a =>
    match fetchClient thingId a with
    | some c => some (clients, .update .api c)
    | none => some (clients, .returned)
  | .update _ i, .go _ =>
    match loadOld i clients with
    | .nilTime => some (clients, .panicked)
    | .ignored => some (clients, .returned)
    | .latest i => some (clients, .store i)
  | .store i, .go now => some (Assoc.set i.clientId ⟨i, now⟩ clients, .returned)
  | _, _ => none

def step (s : State) : Label → Option State
  | .begin b => some { s with calls := s.calls ++ [b.call] }
  | .run index input =>
    (s.calls[index]?).bind fun call =>
      (call.advance s.clients input).map fun (clients, next) =>
        { clients := clients, calls := s.calls.set index next }

/-- No call has dereferenced a time that is nil. -/
def NoPanic (s : State) : Prop := .panicked ∉ s.calls

instance (s : State) : Decidable (NoPanic s) := inferInstanceAs (Decidable (.panicked ∉ s.calls))

/-- The step compares what the broker answered without the time of its state, as it does
with 404, with an entry that has a connect time. -/
def Overtaken (s : State) : Label → Prop
  | .begin _ => False
  | .run index _ =>
    ∃ i old, s.calls[index]? = some (.update .api i) ∧ i.nowTime = none ∧
      Assoc.get i.clientId s.clients = some old ∧ old.info.connectedAt.isSome = true

/-- The step stores an entry of the client. -/
def StoresFor (x : String) (s : State) : Label → Prop
  | .begin _ => False
  | .run index _ => ∃ i, s.calls[index]? = some (.store i) ∧ i.clientId = x

/-- No call has panicked, and what an event tells has its time. -/
structure Sound (s : State) : Prop where
  noPanic : NoPanic s
  events : ∀ i, .update .event i ∈ s.calls → i.nowTime ≠ none

section

variable {s s' : State} {label : Label} {clients clients' : List (String × Client)} {call next : Call}
  {input : Input}

theorem begin_call (b : Begin) :
    b.call ≠ .panicked ∧ ∀ i, b.call = .update .event i → i.nowTime ≠ none := by
  cases b with
  | loadClientInfo thingId => exact ⟨Call.noConfusion, fun _ same => Call.noConfusion same⟩
  | initClient c => exact ⟨Call.noConfusion, fun _ same => by cases same⟩
  | message e =>
    rw [Begin.call]
    split
    · exact ⟨Call.noConfusion, fun _ same => Call.noConfusion same⟩
    · refine ⟨Call.noConfusion, fun i same => ?_⟩
      cases same
      exact e.info_nowTime

/-- A call panics in the first half of an update alone. -/
theorem advance_panics_iff (taken : call.advance clients input = some (clients', next)) :
    next = .panicked ↔ ∃ source i, call = .update source i ∧ loadOld i clients = .nilTime := by
  cases call with
  | getClient thingId =>
    cases input with
    | answer a => cases taken
    | go now =>
      cases taken
      split <;> simp
  | fetching thingId =>
    cases input with
    | answer a => cases a <;> cases taken <;> simp
    | go now => cases taken
  | update source i =>
    cases input with
    | answer a => cases taken
    | go now =>
      simp only [Call.advance] at taken
      split at taken <;> cases taken <;> simp_all
  | store i =>
    cases input with
    | answer a => cases taken
    | go now =>
      cases taken
      simp
  | returned => cases input <;> cases taken
  | panicked => cases input <;> cases taken

/-- No call turns into the update of an event. -/
theorem advance_event (taken : call.advance clients input = some (clients', next)) (i : ClientInfo) :
    next ≠ .update .event i := by
  rintro rfl
  cases call with
  | getClient thingId =>
    cases input with
    | answer a => cases taken
    | go now =>
      simp only [Call.advance, Option.some.injEq, Prod.mk.injEq] at taken
      split at taken <;> cases taken.2
  | fetching thingId =>
    cases input with
    | answer a => cases a <;> cases taken
    | go now => cases taken
  | update source i =>
    cases input with
    | answer a => cases taken
    | go now =>
      simp only [Call.advance] at taken
      split at taken <;> cases taken
  | store i => cases input <;> cases taken
  | returned => cases input <;> cases taken
  | panicked => cases input <;> cases taken

/-- Only the second half of an update changes the cache. -/
theorem advance_clients (taken : call.advance clients input = some (clients', next)) :
    clients' = clients ∨ ∃ i now, call = .store i ∧ clients' = Assoc.set i.clientId ⟨i, now⟩ clients := by
  cases call with
  | getClient thingId =>
    cases input with
    | answer a => cases taken
    | go now =>
      cases taken
      exact .inl rfl
  | fetching thingId =>
    cases input with
    | answer a => cases a <;> cases taken <;> exact .inl rfl
    | go now => cases taken
  | update source i =>
    cases input with
    | answer a => cases taken
    | go now =>
      simp only [Call.advance] at taken
      split at taken <;> cases taken <;> exact .inl rfl
  | store i =>
    cases input with
    | answer a => cases taken
    | go now =>
      cases taken
      exact .inr ⟨i, now, rfl, rfl⟩
  | returned => cases input <;> cases taken
  | panicked => cases input <;> cases taken

/-- A step begins a call or advances one. -/
theorem step_cases (taken : step s label = some s') :
    (∃ b, label = .begin b ∧ s'.clients = s.clients ∧ s'.calls = s.calls ++ [b.call]) ∨
    ∃ index input call next, label = .run index input ∧ s.calls[index]? = some call ∧
      call.advance s.clients input = some (s'.clients, next) ∧ s'.calls = s.calls.set index next := by
  cases label with
  | begin b =>
    cases taken
    exact .inl ⟨b, rfl, rfl, rfl⟩
  | run index input =>
    simp only [step, Option.bind_eq_some_iff, Option.map_eq_some_iff] at taken
    obtain ⟨call, found, ⟨clients, next⟩, moved, rfl⟩ := taken
    exact .inr ⟨index, input, call, next, rfl, found, moved, rfl⟩

theorem step_panics_iff (sound : Sound s) (taken : step s label = some s') :
    NoPanic s' ↔ ¬ Overtaken s label := by
  obtain ⟨b, rfl, -, calls⟩ | ⟨index, input, call, next, rfl, found, moved, calls⟩ := step_cases taken
  · have fresh : NoPanic s' := by
      rw [NoPanic, calls, List.mem_append, List.mem_singleton]
      exact not_or.mpr ⟨sound.noPanic, (begin_call b).1.symm⟩
    exact iff_of_true fresh id
  · have bound := (List.getElem?_eq_some_iff.mp found).1
    have only : NoPanic s' ↔ next ≠ .panicked := by
      rw [NoPanic, calls]
      constructor
      · rintro fine rfl
        exact fine (List.mem_set bound _)
      · intro other member
        rcases List.mem_or_eq_of_mem_set member with old | same
        · exact sound.noPanic old
        · exact other same.symm
    rw [only, ne_eq, not_iff_not, advance_panics_iff moved]
    constructor
    · rintro ⟨source, i, rfl, nil⟩
      obtain ⟨untimed, old, entry, connected⟩ := loadOld_eq_nilTime_iff.mp nil
      cases source with
      | api => exact ⟨i, old, found, untimed, entry, connected⟩
      | event => exact absurd untimed (sound.events i (List.mem_of_getElem? found))
    · rintro ⟨i, old, here, untimed, entry, connected⟩
      rw [found] at here
      cases here
      exact ⟨.api, i, rfl, loadOld_eq_nilTime_iff.mpr ⟨untimed, old, entry, connected⟩⟩

theorem Sound.step (sound : Sound s) (fine : ¬ Overtaken s label) (taken : step s label = some s') :
    Sound s' := by
  refine ⟨(step_panics_iff sound taken).mpr fine, fun i member => ?_⟩
  obtain ⟨b, rfl, -, calls⟩ | ⟨index, input, call, next, rfl, found, moved, calls⟩ := step_cases taken
  · rw [calls, List.mem_append, List.mem_singleton] at member
    rcases member with old | new
    · exact sound.events i old
    · exact (begin_call b).2 i new.symm
  · rw [calls] at member
    rcases List.mem_or_eq_of_mem_set member with old | same
    · exact sound.events i old
    · exact absurd same.symm (advance_event moved i)

/-- Until a call stores the client, what was not cached is not, so a call that looked in
vain does not panic. -/
theorem missing_until_stored {x : String} {labels : List Label}
    (untouched : Meets step (fun s label => ¬ StoresFor x s label) s labels)
    (missing : Assoc.get x s.clients = none) :
    Always step (fun s _ _ => ∀ i : ClientInfo, i.clientId = x → loadOld i s.clients = .latest i) s labels := by
  apply untouched.always fun s => Assoc.get x s.clients = none
  · intro s label s' missing other taken
    constructor
    · rintro i rfl
      rw [loadOld, missing]
    · obtain ⟨b, rfl, same, -⟩ | ⟨index, input, call, next, rfl, found, moved, -⟩ := step_cases taken
      · rw [same]
        exact missing
      · obtain same | ⟨i, now, rfl, stored⟩ := advance_clients moved
        · rw [same]
          exact missing
        · have apart : i.clientId ≠ x := fun same => other ⟨i, found, same⟩
          rw [stored, Assoc.get_set_other apart]
          exact missing
  · exact missing

end

/-- Whatever is cached and however the calls are interleaved: none of them dereferences a
time that is nil exactly when none that the broker answered without a time, as it does
with 404, reaches its update after a connect time of the client was stored. -/
theorem noPanic_iff (clients : List (String × Client)) (labels : List Label) :
    Always step (fun _ _ next => NoPanic next) ⟨clients, []⟩ labels ↔
      Meets step (fun s label => ¬ Overtaken s label) ⟨clients, []⟩ labels := by
  have start : Sound ⟨clients, []⟩ := ⟨List.not_mem_nil, fun _ member => nomatch member⟩
  apply always_iff_meets Sound _ _ labels start
  · exact fun _ _ _ sound taken => step_panics_iff sound taken
  · exact fun _ _ _ sound fine taken => sound.step fine taken

/-- The client was not cached when the call looked; it connects while the broker is asked,
and the answer is the one from before. -/
def connectsMeanwhile : List Label :=
  [.begin (.loadClientInfo "a"), .run 0 (.go 1),
   .begin (.message (.connected ⟨"a", "a", "addr", 5⟩)), .run 1 (.go 2), .run 1 (.go 3),
   .run 0 (.answer .notFound), .run 0 (.go 4)]

theorem connectsMeanwhile_panics :
    ¬ ∀ labels, Always step (fun _ _ next => NoPanic next) ⟨[], []⟩ labels := by
  intro every
  have claimed := every connectsMeanwhile
  revert claimed
  decide +kernel

end NilTime

end Tio.Presence.Emqx
