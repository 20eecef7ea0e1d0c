import Tio.Presence.Status
import Tio.Auth.Password

/-! Whose sessions change the cached information of a client. The broker asks for the
name and the password of a user; the cache goes by the client id, which the client
chooses. -/

namespace Tio.Presence.Isolation

open Tio.Core Tio.Thing Tio.Auth

/-- A client that was let in. -/
structure Session where
  clientId : String
  username : String
  remoteAddr : String
deriving DecidableEq

structure State where
  superUsers : List UserPassword
  things : List Thing
  clock : Int
  sessions : List Session
  clients : List (String × ClientInfo)

/-- A client that the broker has under an id, and whether its connection is closed. -/
abbrev Lookup := Option Bool

inductive Action
  | elapse (time : Nat)
  | connect (connParams : ConnectParams) (remoteAddr assigned : String) (answered : Bool)
  | onSessionEstablished (i : Nat) (exist : Lookup)
  | onDisconnect (i : Nat) (exist : Lookup) (err : Option (List UInt8))

/-- The broker has an open connection under the id. -/
def isOpen (exist : Lookup) : Bool := exist = some false

def onSessionEstablished (cl : Session) (exist : Lookup) (s : State) : State :=
  if !isOpen exist then s
  else
    let cinfo := toClientInfo cl.clientId cl.username cl.remoteAddr true (some s.clock) none none
    { s with clients := updateClient cinfo s.clients }

def onDisconnect (cl : Session) (exist : Lookup) (err : Option (List UInt8)) (s : State) : State :=
  if isOpen exist then s
  else
    let cinfo := toClientInfo cl.clientId cl.username cl.remoteAddr false none (some s.clock) err
    { s with clients := updateClient cinfo s.clients }

def step (s : State) : Action → Option State
  | .elapse time => some { s with clock := s.clock + time }
  | .connect connParams remoteAddr assigned answered =>
    if authzMqttClient s.superUsers (thingSvcGet s.things answered) connParams then
      some { s with sessions := s.sessions ++
        [⟨clientIdOf connParams assigned, connParams.username, remoteAddr⟩] }
    else some s
  | .onSessionEstablished i exist => (s.sessions[i]?).map fun cl => onSessionEstablished cl exist s
  | .onDisconnect i exist err => (s.sessions[i]?).map fun cl => onDisconnect cl exist err s

/-- The session that the broker calls a hook for. -/
def Action.session (s : State) : Action → Option Session
  | .onSessionEstablished i _ | .onDisconnect i _ _ => s.sessions[i]?
  | _ => none

/-- A cached information changes for a session of its own user alone. -/
def Isolated (s : State) (a : Action) (s' : State) : Prop :=
  ∀ x, Assoc.get x s'.clients ≠ Assoc.get x s.clients → ∃ cl, a.session s = some cl ∧ cl.username = x

/-- A client that is let in has the name of its user as its id. -/
def OwnId (s : State) : Action → Prop
  | .connect connParams _ assigned answered =>
    authzMqttClient s.superUsers (thingSvcGet s.things answered) connParams = true →
      clientIdOf connParams assigned = connParams.username
  | _ => True

/-- Every session goes by the name of its user. -/
def OwnSessions (s : State) : Prop := ∀ cl ∈ s.sessions, cl.clientId = cl.username

section

variable {s s' : State} {a : Action}

theorem ownSessions_step (own : OwnSessions s) (fine : OwnId s a) (taken : step s a = some s') :
    OwnSessions s' := by
  cases a with
  | elapse time =>
    cases taken
    exact own
  | connect connParams remoteAddr assigned answered =>
    simp only [step] at taken
    split at taken
    · rename_i accepted
      cases taken
      intro cl member
      rcases List.mem_append.mp member with old | new
      · exact own cl old
      · rw [List.mem_singleton.mp new]
        exact fine accepted
    · cases taken
      exact own
  | onSessionEstablished i exist =>
    obtain ⟨cl, -, rfl⟩ := Option.map_eq_some_iff.mp taken
    rw [onSessionEstablished]
    split <;> exact own
  | onDisconnect i exist err =>
    obtain ⟨cl, -, rfl⟩ := Option.map_eq_some_iff.mp taken
    rw [onDisconnect]
    split <;> exact own

/-- A hook changes what is cached under the id of its client. -/
theorem step_clients (taken : step s a = some s') (x : String)
    (changed : Assoc.get x s'.clients ≠ Assoc.get x s.clients) :
    ∃ cl ∈ s.sessions, a.session s = some cl ∧ cl.clientId = x := by
  cases a with
  | elapse time =>
    cases taken
    exact absurd rfl changed
  | connect connParams remoteAddr assigned answered =>
    simp only [step] at taken
    split at taken
    · cases taken
      exact absurd rfl changed
    · cases taken
      exact absurd rfl changed
  | onSessionEstablished i exist =>
    obtain ⟨cl, found, rfl⟩ := Option.map_eq_some_iff.mp taken
    refine ⟨cl, List.mem_of_getElem? found, found, ?_⟩
    by_contra other
    apply changed
    rw [onSessionEstablished]
    split
    · rfl
    · exact updateClient_other other _
  | onDisconnect i exist err =>
    obtain ⟨cl, found, rfl⟩ := Option.map_eq_some_iff.mp taken
    refine ⟨cl, List.mem_of_getElem? found, found, ?_⟩
    by_contra other
    apply changed
    rw [onDisconnect]
    split
    · rfl
    · exact updateClient_other other _

theorem isolated_of_ownSessions (own : OwnSessions s) (taken : step s a = some s') : Isolated s a s' := by
  intro x changed
  obtain ⟨cl, member, called, named⟩ := step_clients taken x changed
  exact ⟨cl, called, (own cl member).symm.trans named⟩

end

/-- A broker that has seen no client. -/
def boot (superUsers : List UserPassword) (things : List Thing) (clock : Int) : State :=
  ⟨superUsers, things, clock, [], []⟩

/-- In a run in which every client that is let in goes by the name of its user, the
cached information of an id changes for sessions of that user alone. -/
theorem status_isolated (superUsers : List UserPassword) (things : List Thing) (clock : Int)
    (actions : List Action) (own : Meets step OwnId (boot superUsers things clock) actions) :
    Always step Isolated (boot superUsers things clock) actions := by
  refine Meets.always OwnSessions ?_ own (by simp [OwnSessions, boot])
  intro s a s' own fine taken
  exact ⟨isolated_of_ownSessions own taken, ownSessions_step own fine taken⟩

def sampleThings : List Thing := [⟨"a", true, "pa"⟩, ⟨"b", true, "pb"⟩]

/-- Thing `a` connects, with an id, and leaves. -/
def visit (clientIdentifier : String) : List Action :=
  [.connect ⟨"a", "pa", clientIdentifier, true⟩ "addr" "" true, .onSessionEstablished 0 (some false),
    .elapse 1, .onDisconnect 0 none none]

theorem own_visit_isolated : Always step Isolated (boot [] sampleThings 0) (visit "a") := by
  refine status_isolated [] sampleThings 0 (visit "a") (meets_of_labels (fun a member s => ?_) _)
  simp only [visit, List.mem_cons, List.not_mem_nil, or_false] at member
  rcases member with rfl | rfl | rfl | rfl
  · exact fun _ => rfl
  all_goals trivial

/-- With the id of thing `b` its visit is recorded there. -/
theorem foreign_visit_recorded :
    (execute step (boot [] sampleThings 0) (visit "b")).map (fun s =>
      (Assoc.get "b" s.clients).map fun info => (info.username, info.connected)) =
      some (some ("a", false)) ∧
    ¬Always step Isolated (boot [] sampleThings 0) (visit "b") := by
  refine ⟨by decide, fun every => ?_⟩
  obtain ⟨-, later⟩ := every _ rfl
  obtain ⟨cl, called, named⟩ := (later _ rfl).1 "b" (by decide)
  cases called
  cases (by decide : "a" ≠ "b") named

end Tio.Presence.Isolation
