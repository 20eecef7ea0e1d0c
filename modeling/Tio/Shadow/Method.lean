import Tio.Core.Registry
import Tio.Core.Run
import Tio.Json.Value
import Tio.Presence.Sync
import Tio.Thing.Publisher

/-! The direct methods of `shadow/method.go`. A call enters two maps under its thing and its
client token: `waiting`, until the thing is online, and `pending`, until the thing responds. -/

namespace Tio.Shadow.Method

open Tio.Core Tio.Json Tio.Thing
open Tio.Presence (EventType)

structure MethodReq where
  clientToken : String
  data : Option Value

structure MethodReqMsg where
  thingId : String
  method : String
  /-- In seconds, as the other one. -/
  connTimeout : Int
  respTimeout : Int
  req : MethodReq

structure MethodResp where
  clientToken : String
  data : Option Value
  code : Int
  message : String

structure MethodRespMsg where
  thingId : String
  resp : MethodResp

def errDirectMethodThingOffline : String := "thing is offline"
def errDirectMethodTimeout : String := "method timeout"

/-- The two maps of the handler. -/
inductive Field
  | waiting
  | pending
deriving DecidableEq

/-- By thing id and client token, the call whose channels are stored. -/
abbrev TokenMaps := List (String × List (String × Nat))

def TokenMaps.entry (maps : TokenMaps) (thingId clientToken : String) : Option Nat :=
  (Assoc.get thingId maps).bind (Assoc.get clientToken)

/-- `LoadOrStore` with a new map. -/
def TokenMaps.create (maps : TokenMaps) (thingId : String) : TokenMaps :=
  Assoc.set thingId ((Assoc.get thingId maps).getD []) maps

def TokenMaps.store (maps : TokenMaps) (thingId clientToken : String) (i : Nat) : TokenMaps :=
  Assoc.set thingId (Assoc.set clientToken i ((Assoc.get thingId maps).getD [])) maps

def TokenMaps.delete (maps : TokenMaps) (thingId clientToken : String) : TokenMaps :=
  Assoc.set thingId (Assoc.erase clientToken ((Assoc.get thingId maps).getD [])) maps

/-- The response with the message it came in, or the text of the error. -/
abbrev Result := Except String (MethodResp × Nat)

/-- Where a call stands that removes itself from a map: before it loads the map of its
thing, loads its token, closes the channel `done` of what it found there, deletes the token. -/
inductive Stage
  | load
  | find
  | close (entry : Nat)
  | delete
deriving DecidableEq

inductive CallPc
  | check
  | register (field : Field)
  | store (field : Field)
  | waitOnline
  | marshal
  | publish
  | waitResp
  | remove (field : Field) (stage : Stage) (result : Result)
  | returned (result : Result)

/-- A run of `InvokeMethod`, and whether `removeWaiting` is deferred in it. -/
structure Call where
  msg : MethodReqMsg
  waited : Bool
  pc : CallPc

def Call.key (c : Call) : String × String := (c.msg.thingId, c.msg.req.clientToken)

def Call.doInvokeMethod (c : Call) (waited : Bool) : Call := { c with pc := .marshal, waited := waited }

/-- Where a call goes on that is out of the map, or was never in it. -/
def Call.leave (c : Call) (result : Result) : Field → CallPc
  | .pending => if c.waited then .remove .waiting .load result else .returned result
  | .waiting => .returned result

/-- The loop of `subscribeThingOnline`. A range over a map visits no token twice, and every
token that is there from its begin on; those `due` are the ones it has not visited. -/
inductive LoopPc
  | recv
  | load (thingId : String)
  | start (thingId : String)
  | range (thingId : String) (visited due : List String)
  | signal (thingId : String) (visited due : List String) (entry : Nat)

/-- A goroutine that handles a message on a response topic. -/
inductive RespPc
  | received
  | load (msg : MethodRespMsg)
  | find (msg : MethodRespMsg)
  | send (msg : MethodRespMsg) (entry : Nat)
  | finished

structure RespMessage where
  topic : String
  payload : Except String MethodResp
  pc : RespPc

structure State where
  connected : List String
  /-- Events that the connector has not handed to the loop yet. -/
  events : List (EventType × String)
  calls : List Call
  waiting : TokenMaps
  pending : TokenMaps
  closes : List (Field × Nat)
  loop : LoopPc
  messages : List RespMessage

def init (connected : List String) : State :=
  { connected := connected, events := [], calls := [], waiting := [], pending := [], closes := [],
    loop := .recv, messages := [] }

def State.maps (s : State) : Field → TokenMaps
  | .waiting => s.waiting
  | .pending => s.pending

def State.setMaps (s : State) (maps : TokenMaps) : Field → State
  | .waiting => { s with waiting := maps }
  | .pending => { s with pending := maps }

def State.setCall (s : State) (i : Nat) (c : Call) : State := { s with calls := s.calls.set i c }

def State.goto (s : State) (i : Nat) (c : Call) (pc : CallPc) : State := s.setCall i { c with pc := pc }

def State.setMessage (s : State) (j : Nat) (m : RespMessage) (pc : RespPc) : State :=
  { s with messages := s.messages.set j { m with pc := pc } }

/-- Closing a closed channel panics. -/
def State.panicked (s : State) : Bool := !decide s.closes.Nodup

/-- A token that is deleted need not be visited. -/
def LoopPc.forget (thingId clientToken : String) : LoopPc → LoopPc
  | .range t visited due => .range t visited (if t = thingId then due.filter (· ≠ clientToken) else due)
  | .signal t visited due k => .signal t visited (if t = thingId then due.filter (· ≠ clientToken) else due) k
  | pc => pc

def LoopPc.delete (loop : LoopPc) (thingId clientToken : String) : Field → LoopPc
  | .waiting => loop.forget thingId clientToken
  | .pending => loop

/-- After `addWaiting` and `addPending`. -/
def CallPc.added : Field → CallPc
  | .waiting => .waitOnline
  | .pending => .publish

inductive Action
  | invoke (msg : MethodReqMsg)
  /-- The next step of a call, with the error of what it calls outside. -/
  | call (i : Nat) (err : Option String)
  | timeout (i : Nat)
  | ctxDone (i : Nat)
  | connect (thingId : String)
  | disconnect (thingId : String)
  | receive (n : Nat)
  | loop
  | visit (clientToken : String)
  /-- The loop sends on the channel of a call, or it finds `done` closed. -/
  | signal
  | skip
  | response (topic : String) (payload : Except String MethodResp)
  | deliver (j : Nat)
  | send (j : Nat)
  | drop (j : Nat)

def State.call (s : State) (i : Nat) (err : Option String) (c : Call) : Option State :=
  let thingId := c.msg.thingId
  let clientToken := c.msg.req.clientToken
  match c.pc, err with
  | .check, some text => some (s.goto i c (.returned (.error ("could not get online status: " ++ text))))
  | .check, none =>
    if thingId ∈ s.connected then some (s.setCall i (c.doInvokeMethod false))
    else if c.msg.connTimeout ≤ 0 then some (s.goto i c (.returned (.error errDirectMethodThingOffline)))
    else some (s.goto i c (.register .waiting))
  | .register field, _ => some ((s.goto i c (.store field)).setMaps ((s.maps field).create thingId) field)
  | .store field, _ =>
    some ((s.goto i c (.added field)).setMaps ((s.maps field).store thingId clientToken i) field)
  | .marshal, some text => some (s.goto i c (c.leave (.error ("request json marshal: " ++ text)) .pending))
  | .marshal, none => some (s.goto i c (.register .pending))
  | .publish, some text => some (s.goto i c (.remove .pending .load (.error ("send method request: " ++ text))))
  | .publish, none => some (s.goto i c .waitResp)
  | .remove field .load result, _ =>
    if (Assoc.get thingId (s.maps field)).isSome then some (s.goto i c (.remove field .find result))
    else some (s.goto i c (c.leave result field))
  | .remove field .find result, _ =>
    match (s.maps field).entry thingId clientToken with
    | some k => some (s.goto i c (.remove field (.close k) result))
    | none => some (s.goto i c (c.leave result field))
  | .remove field (.close k) result, _ =>
    some { s.goto i c (.remove field .delete result) with closes := s.closes ++ [(field, k)] }
  | .remove field .delete result, _ =>
    some { (s.goto i c (c.leave result field)).setMaps ((s.maps field).delete thingId clientToken) field with
      loop := s.loop.delete thingId clientToken field }
  | .waitOnline, _ | .waitResp, _ | .returned _, _ => none

def State.timeout (s : State) (i : Nat) (c : Call) : Option State :=
  match c.pc with
  | .waitOnline =>
    some (s.goto i c (.remove .waiting .load (.error
      ("wait " ++ toString c.msg.connTimeout ++ " seconds for thing online: " ++ errDirectMethodTimeout))))
  | .waitResp =>
    some (s.goto i c (.remove .pending .load (.error
      ("wait " ++ toString c.msg.respTimeout ++ " seconds for response: " ++ errDirectMethodTimeout))))
  | _ => none

def State.ctxDone (s : State) (i : Nat) (c : Call) : Option State :=
  match c.pc with
  | .waitOnline => some (s.goto i c (.remove .waiting .load (.error "interrupted by context done")))
  | .waitResp => some (s.goto i c (.remove .pending .load (.error "interrupted by context done")))
  | _ => none

def State.receive (s : State) (n : Nat) : LoopPc → Option State
  | .recv => do
    let (eventType, thingId) ← s.events[n]?
    some { s with
      events := s.events.eraseIdx n
      loop := if eventType = .connected then .load thingId else .recv }
  | _ => none

def State.loopStep (s : State) : LoopPc → Option State
  | .load thingId =>
    some { s with loop := if (Assoc.get thingId s.waiting).isSome then .start thingId else .recv }
  | .start thingId =>
    some { s with loop := .range thingId [] (Assoc.keys ((Assoc.get thingId s.waiting).getD [])) }
  | .range _ _ [] => some { s with loop := .recv }
  | _ => none

def State.visit (s : State) (clientToken : String) : LoopPc → Option State
  | .range thingId visited due =>
    if clientToken ∈ visited then none
    else do
      let k ← s.waiting.entry thingId clientToken
      some { s with loop := .signal thingId (clientToken :: visited) (due.filter (· ≠ clientToken)) k }
  | _ => none

def State.signal (s : State) : LoopPc → Option State
  | .signal thingId visited due k => do
    let c ← s.calls[k]?
    match c.pc with
    | .waitOnline => some { s.setCall k (c.doInvokeMethod true) with loop := .range thingId visited due }
    | _ => none
  | _ => none

def State.skip (s : State) : LoopPc → Option State
  | .signal thingId visited due k =>
    if (.waiting, k) ∈ s.closes then some { s with loop := .range thingId visited due } else none
  | _ => none

def State.deliver (s : State) (j : Nat) (m : RespMessage) : Option State :=
  match m.pc with
  | .received =>
    match getThingIdFromTopic m.topic, m.payload with
    | .ok thingId, .ok resp => some (s.setMessage j m (.load ⟨thingId, resp⟩))
    | _, _ => some (s.setMessage j m .finished)
  | .load msg =>
    some (s.setMessage j m (if (Assoc.get msg.thingId s.pending).isSome then .find msg else .finished))
  | .find msg =>
    match s.pending.entry msg.thingId msg.resp.clientToken with
    | some k => some (s.setMessage j m (.send msg k))
    | none => some (s.setMessage j m .finished)
  | .send _ _ | .finished => none

def State.send (s : State) (j : Nat) (m : RespMessage) : Option State :=
  match m.pc with
  | .send msg k => do
    let c ← s.calls[k]?
    match c.pc with
    | .waitResp => some ((s.goto k c (.remove .pending .load (.ok (msg.resp, j)))).setMessage j m .finished)
    | _ => none
  | _ => none

def State.drop (s : State) (j : Nat) (m : RespMessage) : Option State :=
  match m.pc with
  | .send _ k => if (.pending, k) ∈ s.closes then some (s.setMessage j m .finished) else none
  | _ => none

def State.act (s : State) : Action → Option State
  | .invoke msg => some { s with calls := s.calls ++ [⟨msg, false, .check⟩] }
  | .call i err => s.calls[i]?.bind (s.call i err)
  | .timeout i => s.calls[i]?.bind (s.timeout i)
  | .ctxDone i => s.calls[i]?.bind (s.ctxDone i)
  | .connect thingId =>
    some { s with connected := thingId :: s.connected, events := s.events ++ [(.connected, thingId)] }
  | .disconnect thingId =>
    some { s with
      connected := s.connected.filter (· ≠ thingId)
      events := s.events ++ [(.disconnected, thingId)] }
  | .receive n => s.receive n s.loop
  | .loop => s.loopStep s.loop
  | .visit clientToken => s.visit clientToken s.loop
  | .signal => s.signal s.loop
  | .skip => s.skip s.loop
  | .response topic payload => some { s with messages := s.messages ++ [⟨topic, payload, .received⟩] }
  | .deliver j => s.messages[j]?.bind (s.deliver j)
  | .send j => s.messages[j]?.bind (s.send j)
  | .drop j => s.messages[j]?.bind (s.drop j)

def step (s : State) (a : Action) : Option State := if s.panicked then none else s.act a

end Tio.Shadow.Method
