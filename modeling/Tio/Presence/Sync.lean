import Tio.Core.Assoc
import Tio.Core.Run

/-! How the stored connection status follows the connector: the presence hook and
the client cache of the embedded broker (`connector/mqtt/embed`), the event bus
(`pkg/eventbus`), and `SyncConnStatus` with the two statements it runs
(`shadow/service.go`, `shadow/shadow_repo.go`). Times are in nanoseconds. -/

namespace Tio.Presence

open Tio.Core

structure ClientInfo where
  clientId : String
  username : String
  connected : Bool
  connectedAt : Option Int
  disconnectedAt : Option Int
  /-- The bytes of the text. -/
  disconnectReason : List UInt8
  remoteAddr : String
deriving DecidableEq

inductive EventType
  | connected
  | disconnected
deriving DecidableEq

structure PresenceEvent where
  /-- In milliseconds. -/
  timestamp : Int
  eventType : EventType
  thingId : String
  clientId : String
  remoteAddr : String
  disconnectReason : List UInt8
deriving DecidableEq

/-- A row of the table `conn_status`. -/
structure ConnStatus where
  thingId : String
  connected : Bool
  connectedAt : Option Int
  disconnectedAt : Option Int
  disconnectReason : List UInt8
  remoteAddr : String
  updatedAt : Int
deriving DecidableEq

def unixMilli (t : Int) : Int := t / 1000000

def ofUnixMilli (ms : Int) : Int := ms * 1000000

/-- The goroutine of the hook: it publishes its event once for the retained topic
and once for the event topic. -/
structure Publisher where
  event : PresenceEvent
  left : Nat
  /-- It waits for the channel of `SyncConnStatus` to take the event. -/
  sending : Bool
deriving DecidableEq

inductive SyncPc
  | start
  | snapshot (now : Int)
  | update (now : Int) (clients : List ClientInfo) (offset : Nat)
  | disconnectAll (now : Int) (clients : List ClientInfo)
  /-- The list of the first sync is only kept to speak about it. -/
  | subscribe (clients : List ClientInfo)
  | listen
  | handle (e : PresenceEvent)
deriving DecidableEq

structure State where
  clock : Int
  clients : List (String × ClientInfo)
  publishers : List Publisher
  rows : List ConnStatus
  sync : SyncPc

inductive Action
  | elapse (time : Nat)
  | established (clientId username remoteAddr : String)
  | closed (clientId username remoteAddr : String) (err : Option (List UInt8))
  | publish (i : Nat)
  | receive (i : Nat)
  | expire (i : Nat)
  | takeNow
  /-- The map is walked in any order. -/
  | allClientInfo (order : List ClientInfo)
  | updateBatch
  | updateAllDisconnect
  | onConnect
  | handle

def toClientInfo (clientId username remoteAddr : String) (connected : Bool)
    (connectAt disconnectAt : Option Int) (err : Option (List UInt8)) : ClientInfo where
  clientId
  username
  connected
  connectedAt := if connected then connectAt else none
  disconnectedAt := disconnectAt
  disconnectReason := (err.getD []).take 256
  remoteAddr

def toEvent (clientId username remoteAddr : String) (typ : EventType) (t : Int)
    (err : List UInt8) : PresenceEvent where
  timestamp := unixMilli t
  eventType := typ
  thingId := username
  clientId
  remoteAddr
  disconnectReason := err

def isPublishPresent (username : String) : Bool := !"$".toList.isPrefixOf username.toList

/-- What `fmt.Sprintf("%s", err)` makes of the error. -/
def errText (err : Option (List UInt8)) : List UInt8 :=
  err.getD ("%!s(<nil>)".toList.map Char.toUInt8)

/-- The time of the newest information, as far as a connection is recorded. -/
def ClientInfo.lastTime (c : ClientInfo) : Option Int :=
  match c.connectedAt, c.disconnectedAt with
  | some connected, some disconnected =>
    if connected < disconnected then some disconnected else some connected
  | connected, _ => connected

/-- "Not the latest info, ignore it." -/
def outdated (old c : ClientInfo) : Bool :=
  let newTime := if c.connected then c.connectedAt else c.disconnectedAt
  match old.lastTime, newTime with
  | some oldTime, some time => decide (time < oldTime)
  | _, _ => false

def updateClient (c : ClientInfo) (clients : List (String × ClientInfo)) :
    List (String × ClientInfo) :=
  match Assoc.get c.clientId clients with
  | none => Assoc.set c.clientId c clients
  | some old =>
    if outdated old c then clients
    else
      let c := if c.connected then c else { c with connectedAt := old.connectedAt }
      Assoc.set c.clientId c clients

/-- One call of the hook: the cache is updated at once, the event follows. -/
def State.hook (s : State) (username : String) (c : ClientInfo) (e : PresenceEvent) : State :=
  { s with
    clients := updateClient c s.clients
    publishers := if isPublishPresent username then s.publishers ++ [⟨e, 2, false⟩] else s.publishers }

def onSessionEstablished (clientId username remoteAddr : String) (s : State) : State :=
  s.hook username (toClientInfo clientId username remoteAddr true (some s.clock) none none)
    (toEvent clientId username remoteAddr .connected s.clock [])

def onDisconnect (clientId username remoteAddr : String) (err : Option (List UInt8)) (s : State) :
    State :=
  s.hook username (toClientInfo clientId username remoteAddr false none (some s.clock) err)
    (toEvent clientId username remoteAddr .disconnected s.clock (errText err))

/-- The time of the information for the guard of the update. -/
def ClientInfo.statusTime (c : ClientInfo) : Option Int :=
  match c.connectedAt, c.disconnectedAt with
  | some connected, some disconnected =>
    if connected < disconnected then some disconnected else some connected
  | none, some disconnected => some disconnected
  | connected, none => connected

def ConnStatus.notNewer (row : ConnStatus) (time : Int) : Bool :=
  row.connectedAt.all (· ≤ time) && row.disconnectedAt.all (· ≤ time)

/-- A zero primary key is no condition of the statement. -/
def ConnStatus.selectedBy (row : ConnStatus) (c : ClientInfo) : Bool :=
  (c.clientId == "" || row.thingId == c.clientId) && c.statusTime.all row.notNewer

def ConnStatus.write (clock : Int) (c : ClientInfo) (row : ConnStatus) : ConnStatus :=
  if row.selectedBy c then
    if c.connected then
      { row with
        connected := true
        connectedAt := c.connectedAt
        remoteAddr := c.remoteAddr
        updatedAt := clock }
    else
      { row with
        connected := false
        disconnectedAt := c.disconnectedAt
        disconnectReason := c.disconnectReason
        remoteAddr := c.remoteAddr
        updatedAt := clock }
  else row

/-- One transaction, one statement for each client. -/
def updateConnStatus (clock : Int) (clients : List ClientInfo) (rows : List ConnStatus) :
    List ConnStatus :=
  clients.foldl (fun rows c => rows.map (ConnStatus.write clock c)) rows

def ConnStatus.disconnect (clock updateTimeBefore : Int) (row : ConnStatus) : ConnStatus :=
  if row.connected && row.updatedAt < updateTimeBefore then
    { row with
      connected := false
      disconnectedAt := some clock
      disconnectReason := "system".toList.map Char.toUInt8
      updatedAt := clock }
  else row

def updateAllConnStatusDisconnect (clock updateTimeBefore : Int) (rows : List ConnStatus) :
    List ConnStatus :=
  rows.map (ConnStatus.disconnect clock updateTimeBefore)

def batch : Nat := 100

def eventInfo (e : PresenceEvent) : ClientInfo :=
  let conn := e.eventType == .connected
  let t := ofUnixMilli e.timestamp
  { clientId := e.thingId
    username := ""
    connected := conn
    connectedAt := if conn then some t else none
    disconnectedAt := if conn then none else some t
    disconnectReason := e.disconnectReason
    remoteAddr := e.remoteAddr }

def SyncPc.subscribed : SyncPc → Bool
  | .listen | .handle _ => true
  | _ => false

/-- The publisher is through with one call of `Publish`. -/
def State.passed (s : State) (i : Nat) (p : Publisher) : State :=
  { s with
    publishers := if p.left ≤ 1 then s.publishers.eraseIdx i
      else s.publishers.set i { p with left := p.left - 1, sending := false } }

def step (s : State) : Action → Option State
  | .elapse time => some { s with clock := s.clock + time }
  -- The broker gives a client without an id one.
  | .established clientId username remoteAddr =>
    if clientId = "" then none else some (onSessionEstablished clientId username remoteAddr s)
  | .closed clientId username remoteAddr err =>
    if clientId = "" then none else some (onDisconnect clientId username remoteAddr err s)
  | .publish i => do
    let p ← s.publishers[i]?
    if p.sending then none
    else if s.sync.subscribed then
      some { s with publishers := s.publishers.set i { p with sending := true } }
    else some (s.passed i p)
  | .receive i => do
    let p ← s.publishers[i]?
    if p.sending && s.sync = .listen then some { s.passed i p with sync := .handle p.event }
    else none
  | .expire i => do
    let p ← s.publishers[i]?
    if p.sending then some (s.passed i p) else none
  | .takeNow => if s.sync = .start then some { s with sync := .snapshot s.clock } else none
  | .allClientInfo order =>
    match s.sync with
    | .snapshot now =>
      if order.isPerm (s.clients.map Prod.snd) then some { s with sync := .update now order 0 } else none
    | _ => none
  | .updateBatch =>
    match s.sync with
    | .update now clients offset =>
      if offset < clients.length then
        some { s with
          rows := updateConnStatus s.clock ((clients.drop offset).take batch) s.rows
          sync := .update now clients (offset + batch) }
      else some { s with sync := .disconnectAll now clients }
    | _ => none
  | .updateAllDisconnect =>
    match s.sync with
    | .disconnectAll now clients =>
      some { s with
        rows := updateAllConnStatusDisconnect s.clock now s.rows
        sync := .subscribe clients }
    | _ => none
  | .onConnect =>
    match s.sync with
    | .subscribe _ => some { s with sync := .listen }
    | _ => none
  | .handle =>
    match s.sync with
    | .handle e =>
      some { s with rows := updateConnStatus s.clock [eventInfo e] s.rows, sync := .listen }
    | _ => none

end Tio.Presence
