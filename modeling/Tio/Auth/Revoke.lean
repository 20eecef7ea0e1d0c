import Tio.Auth.Password
import Tio.Core.Run

/-! What disabling or deleting a thing does to its sessions (`Update` and `Delete` of
`thing/service.go`, `CloseClient` of the embedded broker). The service closes the
client with the id of the thing; a session belongs to the user that it was
authenticated with. -/

namespace Tio.Auth.Revoke

open Tio.Core Tio.Thing

/-- The broker lets a client in before it has it under its id. -/
inductive Phase
  | authenticated
  | opened
  | closed
deriving DecidableEq

structure Session where
  clientId : String
  username : String
  phase : Phase
deriving DecidableEq

inductive Op
  | update (id : String) (enabled : Option Bool)
  | delete (id : String)
deriving DecidableEq

inductive OpPc
  | exist
  | write
  | close
  | returned (ok : Bool)
deriving DecidableEq

structure Call where
  op : Op
  pc : OpPc
  /-- How many sessions were authenticated before the call. -/
  before : Nat
deriving DecidableEq

structure State where
  superUsers : List UserPassword
  things : List Thing
  sessions : List Session
  calls : List Call

inductive Action
  | authenticate (connParams : ConnectParams) (assigned : String) (answered : Bool)
  | establish (i : Nat)
  /-- The connection ends, for whatever reason. -/
  | drop (i : Nat)
  | call (op : Op)
  | serve (k : Nat) (answered : Bool)

def Op.id : Op → String
  | .update id _ | .delete id => id

/-- The call takes the thing its access. -/
def Op.revokes : Op → Bool
  | .update _ enabled => enabled = some false
  | .delete _ => true

def Op.start : Op → OpPc
  | .update _ _ => .exist
  | .delete _ => .write

def exist (id : String) (things : List Thing) : Bool := things.any fun th => th.id == id

/-- `repo.Update` -/
def updateThing (id : String) (enabled : Option Bool) (things : List Thing) : List Thing :=
  match enabled with
  | none => things
  | some enabled => things.map fun th => if th.id = id then { th with enabled } else th

/-- `repo.Delete`. A statement without a condition is refused. -/
def deleteThing (id : String) (things : List Thing) : Option (List Thing) :=
  if id = "" then none else some (things.filter fun th => th.id ≠ id)

def Session.stop (cl : Session) : Session :=
  if cl.phase = .opened then { cl with phase := .closed } else cl

/-- The lookup finds every open session of the client id. -/
def closeClient (clientId : String) (sessions : List Session) : List Session :=
  sessions.map fun cl => if cl.clientId = clientId then cl.stop else cl

def State.setSession (s : State) (i : Nat) (cl : Session) : State :=
  { s with sessions := s.sessions.set i cl }

def State.setCall (s : State) (k : Nat) (call : Call) (pc : OpPc) : State :=
  { s with calls := s.calls.set k { call with pc } }

/-- One step of a call of the service. -/
def serveNext (s : State) (k : Nat) (call : Call) (answered : Bool) : Option State :=
  match call.pc with
  | .exist =>
    if answered && exist call.op.id s.things then some (s.setCall k call .write)
    else some (s.setCall k call (.returned false))
  | .write =>
    if !answered then some (s.setCall k call (.returned false))
    else
      match call.op with
      | .update id enabled =>
        let next := if enabled = some false then OpPc.close else .returned true
        some { s.setCall k call next with things := updateThing id enabled s.things }
      | .delete id =>
        match deleteThing id s.things with
        | none => some (s.setCall k call (.returned false))
        | some things => some { s.setCall k call .close with things }
  | .close =>
    some { s.setCall k call (.returned true) with sessions := closeClient call.op.id s.sessions }
  | .returned _ => none

def step (s : State) : Action → Option State
  | .authenticate connParams assigned answered =>
    if authzMqttClient s.superUsers (thingSvcGet s.things answered) connParams then
      some { s with sessions := s.sessions ++
        [⟨clientIdOf connParams assigned, connParams.username, .authenticated⟩] }
    else some s
  | .establish i => do
    let cl ← s.sessions[i]?
    if cl.phase = .authenticated then some (s.setSession i { cl with phase := .opened }) else none
  | .drop i => do
    let cl ← s.sessions[i]?
    some (s.setSession i { cl with phase := .closed })
  | .call op => some { s with calls := s.calls ++ [⟨op, op.start, s.sessions.length⟩] }
  | .serve k answered => do
    let call ← s.calls[k]?
    serveNext s k call answered

/-- The sessions of the thing that were authenticated before the call. -/
def Earlier (s : State) (call : Call) (cl : Session) : Prop :=
  ∃ i < call.before, s.sessions[i]? = some cl ∧ cl.username = call.op.id

/-- When the call has returned no earlier session of the thing is open. -/
def Revoked (s : State) : Prop :=
  ∀ call ∈ s.calls, call.op.revokes = true → call.pc = .returned true →
    ∀ cl, Earlier s call cl → cl.phase ≠ .opened

/-- When a client is closed, every earlier session of the thing is established, or
gone, and an open one has the id of the thing as its client id. -/
def Closable (s : State) : Action → Prop
  | .serve k _ => ∀ call, s.calls[k]? = some call → call.pc = .close →
      ∀ cl, Earlier s call cl → cl.phase ≠ .authenticated ∧ (cl.phase = .opened → cl.clientId = call.op.id)
  | _ => True

structure Consistent (s : State) : Prop where
  before : ∀ call ∈ s.calls, call.before ≤ s.sessions.length
  gone : ∀ call ∈ s.calls, call.op.revokes = true → call.pc = .returned true →
    ∀ cl, Earlier s call cl → cl.phase = .closed

section

variable {s s' : State} {a : Action}

theorem revoked_of_consistent (consistent : Consistent s) : Revoked s := by
  intro call member revokes returned cl earlier
  rw [consistent.gone call member revokes returned cl earlier]
  decide

/-- A step of a call that is not the closing of the client does not end a revocation. -/
theorem serveNext_cases {k : Nat} {call : Call} {answered : Bool}
    (taken : serveNext s k call answered = some s') :
    (∃ pc things, s' = { s.setCall k call pc with things } ∧
      (call.op.revokes = true → pc ≠ .returned true)) ∨
    (call.pc = .close ∧
      s' = { s.setCall k call (.returned true) with sessions := closeClient call.op.id s.sessions }) := by
  unfold serveNext at taken
  split at taken
  · left
    split at taken
    · exact ⟨.write, s.things, (Option.some.inj taken).symm, fun _ => by decide⟩
    · exact ⟨.returned false, s.things, (Option.some.inj taken).symm, fun _ => by decide⟩
  · left
    split at taken
    · exact ⟨.returned false, s.things, (Option.some.inj taken).symm, fun _ => by decide⟩
    · split at taken
      · rename_i id enabled same
        refine ⟨_, _, (Option.some.inj taken).symm, fun revokes => ?_⟩
        rw [same] at revokes
        have disables : enabled = some false := of_decide_eq_true revokes
        rw [if_pos disables]
        decide
      · split at taken
        · exact ⟨.returned false, s.things, (Option.some.inj taken).symm, fun _ => by decide⟩
        · exact ⟨.close, _, (Option.some.inj taken).symm, fun _ => by decide⟩
  · rename_i closes
    exact .inr ⟨closes, (Option.some.inj taken).symm⟩
  · cases taken

/-- The session at a place stays that of its user, and a closed one stays closed. -/
def Continues (s s' : State) : Prop :=
  s.sessions.length ≤ s'.sessions.length ∧
    ∀ i < s.sessions.length, ∀ cl', s'.sessions[i]? = some cl' →
      ∃ cl, s.sessions[i]? = some cl ∧ cl'.username = cl.username ∧ (cl.phase = .closed → cl'.phase = .closed)

theorem continues_of_eq (same : s'.sessions = s.sessions) : Continues s s' := by
  rw [Continues, same]
  exact ⟨Nat.le_refl _, fun i _ cl here => ⟨cl, here, rfl, id⟩⟩

theorem continues_setSession {j : Nat} {cl new : Session} (found : s.sessions[j]? = some cl)
    (named : new.username = cl.username) (closed : cl.phase = .closed → new.phase = .closed) :
    Continues s (s.setSession j new) := by
  refine ⟨by simp [State.setSession], fun i inside cl' here => ?_⟩
  simp only [State.setSession, List.getElem?_set] at here
  by_cases same : j = i
  · subst same
    rw [if_pos rfl, if_pos inside] at here
    cases here
    exact ⟨cl, found, named, closed⟩
  · rw [if_neg same] at here
    exact ⟨cl', here, rfl, id⟩

theorem Session.stop_closed {cl : Session} (closed : cl.phase = .closed) : cl.stop.phase = .closed := by
  rw [stop, closed]
  exact closed

theorem continues_closeClient (clientId : String) (calls : List Call) :
    Continues s { s with calls, sessions := closeClient clientId s.sessions } := by
  refine ⟨by simp [closeClient], fun i _ cl' here => ?_⟩
  simp only [closeClient, List.getElem?_map, Option.map_eq_some_iff] at here
  obtain ⟨cl, found, rfl⟩ := here
  refine ⟨cl, found, ?_, ?_⟩
  · split
    · rw [Session.stop]
      split <;> rfl
    · rfl
  · intro closed
    split
    · exact Session.stop_closed closed
    · exact closed

theorem continues_step (taken : step s a = some s') : Continues s s' := by
  cases a with
  | authenticate connParams assigned answered =>
    simp only [step] at taken
    split at taken
    · cases taken
      refine ⟨by simp, fun i inside cl here => ?_⟩
      rw [List.getElem?_append_left inside] at here
      exact ⟨cl, here, rfl, id⟩
    · cases taken
      exact continues_of_eq rfl
  | establish i =>
    obtain ⟨cl, found, taken⟩ := Option.bind_eq_some_iff.mp taken
    split at taken
    · rename_i waits
      cases taken
      refine continues_setSession found rfl fun closed => ?_
      rw [waits] at closed
      cases closed
    · cases taken
  | drop i =>
    obtain ⟨cl, found, taken⟩ := Option.bind_eq_some_iff.mp taken
    cases taken
    exact continues_setSession found rfl fun _ => rfl
  | call op =>
    cases taken
    exact continues_of_eq rfl
  | serve k answered =>
    obtain ⟨call, found, taken⟩ := Option.bind_eq_some_iff.mp taken
    rcases serveNext_cases taken with ⟨pc, things, rfl, -⟩ | ⟨closes, rfl⟩
    · exact continues_of_eq rfl
    · exact continues_closeClient _ _

/-- What was closed before a step is closed after it. -/
theorem earlier_closed {call : Call} (continues : Continues s s') (before : call.before ≤ s.sessions.length)
    (closed : ∀ cl, Earlier s call cl → cl.phase = .closed) :
    ∀ cl, Earlier s' call cl → cl.phase = .closed := by
  intro cl' earlier
  obtain ⟨i, inside, here, named⟩ := earlier
  obtain ⟨cl, found, same, still⟩ := continues.2 i (by omega) cl' here
  exact still (closed cl ⟨i, inside, found, same.symm.trans named⟩)

/-- Closing the client ends every earlier session of the thing. -/
theorem closed_of_closable {k : Nat} {answered : Bool} {call : Call} (fine : Closable s (.serve k answered))
    (found : s.calls[k]? = some call) (closes : call.pc = .close) (calls : List Call) :
    ∀ cl, Earlier { s with calls, sessions := closeClient call.op.id s.sessions } call cl →
      cl.phase = .closed := by
  intro cl' earlier
  obtain ⟨i, inside, here, named⟩ := earlier
  simp only [closeClient, List.getElem?_map, Option.map_eq_some_iff] at here
  obtain ⟨cl, place, rfl⟩ := here
  have user : cl.username = call.op.id := by
    rw [← named]
    split
    · rw [Session.stop]
      split <;> rfl
    · rfl
  obtain ⟨established, own⟩ := fine call found closes cl ⟨i, inside, place, user⟩
  cases phase : cl.phase with
  | authenticated => exact absurd phase established
  | opened => simp [own phase, Session.stop, phase]
  | closed =>
    split
    · exact Session.stop_closed phase
    · exact phase

theorem consistent_step (consistent : Consistent s) (fine : Closable s a) (taken : step s a = some s') :
    Consistent s' := by
  have continues := continues_step taken
  have kept : ∀ call ∈ s.calls, call.op.revokes = true → call.pc = .returned true →
      ∀ cl, Earlier s' call cl → cl.phase = .closed := fun call member revokes returned =>
    earlier_closed continues (consistent.before call member) (consistent.gone call member revokes returned)
  have among : ∀ call ∈ s.calls, call.before ≤ s'.sessions.length := fun call member =>
    Nat.le_trans (consistent.before call member) continues.1
  cases a with
  | authenticate connParams assigned answered =>
    simp only [step] at taken
    split at taken
    · cases taken
      exact ⟨among, kept⟩
    · cases taken
      exact consistent
  | establish i =>
    obtain ⟨cl, found, taken⟩ := Option.bind_eq_some_iff.mp taken
    split at taken
    · cases taken
      exact ⟨among, kept⟩
    · cases taken
  | drop i =>
    obtain ⟨cl, found, taken⟩ := Option.bind_eq_some_iff.mp taken
    cases taken
    exact ⟨among, kept⟩
  | call op =>
    cases taken
    refine ⟨fun call member => ?_, fun call member revokes returned => ?_⟩
    · rcases List.mem_append.mp member with old | new
      · exact among call old
      · exact Nat.le_of_eq (by rw [List.mem_singleton.mp new])
    · rcases List.mem_append.mp member with old | new
      · exact kept call old revokes returned
      · rw [List.mem_singleton.mp new] at returned
        cases op <;> cases returned
  | serve k answered =>
    obtain ⟨call, found, taken⟩ := Option.bind_eq_some_iff.mp taken
    have member := List.mem_of_getElem? found
    rcases serveNext_cases taken with ⟨pc, things, rfl, unfinished⟩ | ⟨closes, rfl⟩
    · refine ⟨fun other listed => ?_, fun other listed revokes returned => ?_⟩
      · rcases List.mem_or_eq_of_mem_set listed with old | new
        · exact among other old
        · rw [new]
          exact among call member
      · rcases List.mem_or_eq_of_mem_set listed with old | new
        · exact kept other old revokes returned
        · rw [new] at revokes returned
          exact absurd returned (unfinished revokes)
    · refine ⟨fun other listed => ?_, fun other listed revokes returned => ?_⟩
      · rcases List.mem_or_eq_of_mem_set listed with old | new
        · exact among other old
        · rw [new]
          exact among call member
      · rcases List.mem_or_eq_of_mem_set listed with old | new
        · exact kept other old revokes returned
        · rw [new]
          exact closed_of_closable fine found closes _

end

/-- The broker and the service start, with the things that are stored. -/
def boot (superUsers : List UserPassword) (things : List Thing) : State := ⟨superUsers, things, [], []⟩

/-- In a run in which the closing of a client always finds the earlier sessions of the
thing established and under its own id, a thing that was disabled or deleted has none
of them open any more. -/
theorem sessions_revoked (superUsers : List UserPassword) (things : List Thing) (actions : List Action)
    (closable : Meets step Closable (boot superUsers things) actions) :
    Always step (fun _ _ s' => Revoked s') (boot superUsers things) actions := by
  refine Meets.always Consistent ?_ closable ⟨by simp [boot], by simp [boot]⟩
  intro s a s' consistent fine taken
  have next := consistent_step consistent fine taken
  exact ⟨revoked_of_consistent next, next⟩

def lampThings : List Thing := [⟨"lamp", true, "secret"⟩]

/-- The lamp connects with the client id, and is disabled. -/
def disableRun (clientIdentifier : String) : List Action :=
  [.authenticate ⟨"lamp", "secret", clientIdentifier, true⟩ "" true, .establish 0,
    .call (.update "lamp" (some false)), .serve 0 true, .serve 0 true, .serve 0 true]

theorem own_session_revoked :
    (execute step (boot [] lampThings) (disableRun "lamp")).map (fun s => s.sessions.map Session.phase) =
      some [.closed] ∧
    Always step (fun _ _ s' => Revoked s') (boot [] lampThings) (disableRun "lamp") := by
  refine ⟨by decide, sessions_revoked [] lampThings (disableRun "lamp") ?_⟩
  intro s₁ taken
  cases taken
  refine ⟨trivial, fun s₂ taken => ?_⟩
  cases taken
  refine ⟨trivial, fun s₃ taken => ?_⟩
  cases taken
  refine ⟨trivial, fun s₄ taken => ?_⟩
  cases taken
  -- the call asks for the thing, writes it, and closes the client
  refine ⟨fun call found closes => ?_, fun s₅ taken => ?_⟩
  · cases found
    cases closes
  cases taken
  refine ⟨fun call found closes => ?_, fun s₆ taken => ?_⟩
  · cases found
    cases closes
  cases taken
  refine ⟨fun call found closes cl earlier => ?_, trivial⟩
  obtain ⟨i, inside, here, -⟩ := earlier
  cases found
  obtain rfl : i = 0 := Nat.lt_one_iff.mp inside
  cases here
  exact ⟨by decide, fun _ => rfl⟩

/-- With another client id it stays connected. -/
theorem foreign_session_stays :
    ∃ s, execute step (boot [] lampThings) (disableRun "other") = some s ∧ ¬Revoked s := by
  have open_still : (execute step (boot [] lampThings) (disableRun "other")).map (fun s => (s.sessions, s.calls)) =
      some ([⟨"other", "lamp", .opened⟩], [⟨.update "lamp" (some false), .returned true, 1⟩]) := by decide
  obtain ⟨s, reached, parts⟩ := Option.map_eq_some_iff.mp open_still
  refine ⟨s, reached, fun revoked => ?_⟩
  obtain ⟨sessions, calls⟩ := Prod.mk.inj parts
  have closed := revoked _ (by rw [calls]; exact List.mem_singleton_self _) rfl rfl
    ⟨"other", "lamp", .opened⟩ ⟨0, by decide, by rw [sessions]; rfl, rfl⟩
  exact closed rfl

end Tio.Auth.Revoke
