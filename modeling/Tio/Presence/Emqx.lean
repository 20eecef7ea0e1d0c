import Tio.Presence.Sync

/-! The client cache of the adapter for an external broker
(`connector/mqtt/emqx/emqx.go`), and the events that it is told. -/

namespace Tio.Presence.Emqx

open Tio.Core

structure ClientInfo where
  clientId : String
  username : String
  connected : Bool
  connectedAt : Option Int
  disconnectedAt : Option Int
  disconnectReason : String
  ipAddress : String
  port : Int
deriving DecidableEq

structure Client where
  info : ClientInfo
  updateAt : Int
deriving DecidableEq

/-- Times in the events are in milliseconds. -/
structure MqttConnectedEvent where
  clientId : String
  username : String
  ipAddress : String
  connectedAt : Int
deriving DecidableEq

structure MqttDisconnectedEvent where
  clientId : String
  username : String
  ipAddress : String
  disconnectedAt : Int
  reason : String
deriving DecidableEq

inductive Event
  | connected (d : MqttConnectedEvent)
  | disconnected (d : MqttDisconnectedEvent)
deriving DecidableEq

/-- The time of the newest information, as far as a connection is recorded. -/
def ClientInfo.lastTime (info : ClientInfo) : Option Int :=
  match info.connectedAt, info.disconnectedAt with
  | some connected, some disconnected =>
    if connected < disconnected then some disconnected else some connected
  | connected, _ => connected

/-- "Not the latest info, ignore it." An event always has its time. -/
def outdated (oldInfo i : ClientInfo) : Bool :=
  let nowTime := if i.connected then i.connectedAt else i.disconnectedAt
  match oldInfo.lastTime, nowTime with
  | some oldTime, some time => decide (time < oldTime)
  | _, _ => false

def updateClient (now : Int) (i : ClientInfo) (clients : List (String × Client)) :
    List (String × Client) :=
  match Assoc.get i.clientId clients with
  | none => Assoc.set i.clientId ⟨i, now⟩ clients
  | some old =>
    if outdated old.info i then clients
    else
      let i := if i.connected then i else { i with connectedAt := old.info.connectedAt }
      Assoc.set i.clientId ⟨i, now⟩ clients

/-- A session that another one took over is not gone. -/
def Event.ignored : Event → Bool
  | .connected _ => false
  | .disconnected d => ["discarded", "takeovered", "takenover"].contains d.reason

def Event.info : Event → ClientInfo
  | .connected d =>
    { clientId := d.clientId
      username := d.username
      connected := true
      connectedAt := some (ofUnixMilli d.connectedAt)
      disconnectedAt := none
      disconnectReason := ""
      ipAddress := d.ipAddress
      port := 0 }
  | .disconnected d =>
    { clientId := d.clientId
      username := d.username
      connected := false
      connectedAt := none
      disconnectedAt := some (ofUnixMilli d.disconnectedAt)
      disconnectReason := d.reason
      ipAddress := d.ipAddress
      port := 0 }

/-- What one callback of `listenConnectivity` does to the cache. -/
def listenConnectivity (now : Int) (e : Event) (clients : List (String × Client)) :
    List (String × Client) :=
  if e.ignored then clients else updateClient now e.info clients

end Tio.Presence.Emqx
