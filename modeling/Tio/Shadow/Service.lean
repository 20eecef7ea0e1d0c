import Tio.Core.Run
import Tio.Shadow.Mirror

/-! The shadow service over the stored row of one thing (`service.go`,
`shadow_repo.go`, `shadow_entity.go`). A call reads the row, works on the decoded
shadow in memory, and writes the whole row back. -/

namespace Tio.Shadow

open Tio.Core Tio.Json

structure StateDR where
  desired : GoMap
  reported : GoMap

structure Metadata where
  desired : GoMap
  reported : GoMap

set_option linter.dupNamespace false in
structure Shadow where
  thingId : String
  state : StateDR
  metadata : Metadata
  version : Int
  tags : GoMap
  updatedAt : Int
  createdAt : Int

/-- The stored row. A column of JSON text is the map it decodes to; the text of
a `nil` map decodes to `nil` again. -/
structure Entity where
  thingId : String
  desired : GoMap
  reported : GoMap
  metadata : Metadata
  tags : GoMap
  version : Int
  updatedAt : Int
  createdAt : Int

inductive Failure where
  | notFound
  | versionConflict (detail : String)
  | shadowFormat
  | panic (cause : Panic)
  deriving DecidableEq

/-- The code and the text of an error; a panic is no error value. A version
conflict wraps its detail around the common text. -/
def Failure.describe : Failure → Option (Int × String)
  | .notFound => some (404, "entity not found")
  | .versionConflict detail => some (409, detail ++ ": version conflict")
  | .shadowFormat => some (400, "invalid shadow format")
  | .panic _ => none

structure StateReq where
  desired : Option Document
  reported : Option Document
  clientToken : String
  version : Int

structure TagsReq where
  tags : Option Document
  version : Int

/-- An `omitempty` map leaves no text when it is empty, and none is read back. -/
def omitEmpty : GoMap → GoMap
  | some [] => none
  | fields => fields

/-- `autoUpdateTime` fills in the time of the write. -/
def toEntity (now : Int) (s : Shadow) : Entity where
  thingId := s.thingId
  desired := s.state.desired
  reported := s.state.reported
  metadata := ⟨omitEmpty s.metadata.desired, omitEmpty s.metadata.reported⟩
  tags := s.tags
  version := s.version
  updatedAt := now
  createdAt := s.createdAt

def toShadow (en : Entity) : Shadow where
  thingId := en.thingId
  state := ⟨en.desired, en.reported⟩
  metadata := en.metadata
  version := en.version
  tags := en.tags
  updatedAt := en.updatedAt
  createdAt := en.createdAt

/-- The row as `Create` inserts it. -/
def create (thingId : String) (now : Int) : Entity :=
  toEntity now {
    thingId := thingId
    state := ⟨some [], some []⟩
    metadata := ⟨none, none⟩
    version := 1
    tags := none
    updatedAt := now
    createdAt := now }

/-- `Repo.Get` and the check of what it found. -/
def get (row : Option Entity) : Except Failure Shadow :=
  match row with
  | some en => .ok (toShadow en)
  | none => .error .notFound

/-- `Repo.Update`: only a positive version is asked of the stored row. -/
def update (now version : Int) (s : Shadow) (row : Option Entity) : Except Failure Entity :=
  if version > 0 ∧ row.map Entity.version ≠ some version then .error (.versionConflict "")
  else .ok (toEntity now s)

def matchVersion (version : Int) (ss : Shadow) : Except Failure Unit :=
  if version ≠ 0 ∧ ss.version ≠ version then
    .error (.versionConflict ("expect version " ++ toString ss.version ++ " but got " ++ toString version))
  else .ok ()

def cloneStateValue (src : GoMap) : GoMap := some (deepCopyMap (src.getD []))

/-- Of the two maps of the source only the desired one is copied. -/
def cloneMetadata (src : Metadata) : Metadata where
  desired := some (deepCopyMap (src.desired.getD []))
  reported := some []

/-- The tags of the current shadow changed in place: null deletes. -/
def mergeTags (current expect : GoMap) : GoMap :=
  some ((expect.getD []).foldl (fun tags entry => match entry.2 with
    | .null => Assoc.erase entry.1 (Assoc.set entry.1 .null tags)
    | value => Assoc.set entry.1 value tags) (current.getD []))

/-- What the wall clock answers in the course of one call. -/
structure Times where
  merge : Clock
  saved : Int
  delta : Int
  updated : Int
  answered : Int

/-- What `setState` has in hand between its read and its write. -/
structure Prepared where
  pre : Shadow
  next : Shadow
  updatedMeta : GoMap

def requested : Option Document → Except Failure Fields
  | some document => .ok document.fields
  | none => .error .shadowFormat

def prepareState (clock : Clock) (sr : StateReq) (isDesired : Bool) (row : Option Entity) :
    Except Failure Prepared := do
  let ss ← get row
  matchVersion sr.version ss
  let pre : Shadow := { ss with
    state := ⟨cloneStateValue ss.state.desired, cloneStateValue ss.state.reported⟩
    metadata := cloneMetadata ss.metadata
    tags := none }
  if isDesired then
    let src ← requested sr.desired
    let (desired, metadata, updatedMeta) ←
      (mergeState clock ss.state.desired src ss.metadata.desired none).mapError .panic
    .ok ⟨pre, { ss with
      state := { ss.state with desired := desired }
      metadata := { ss.metadata with desired := metadata }
      version := ss.version + 1 }, updatedMeta⟩
  else
    let src ← requested sr.reported
    let (reported, metadata, updatedMeta) ←
      (mergeState clock ss.state.reported src ss.metadata.reported none).mapError .panic
    .ok ⟨pre, { ss with
      state := { ss.state with reported := reported }
      metadata := { ss.metadata with reported := metadata }
      version := ss.version + 1 }, updatedMeta⟩

def prepareTag (t : TagsReq) (row : Option Entity) : Except Failure Shadow := do
  let cur ← get row
  matchVersion t.version cur
  .ok { cur with version := cur.version + 1, tags := mergeTags cur.tags (t.tags.map Document.fields) }

structure StatePrevious where
  state : StateDR
  metadata : Metadata
  version : Int

structure StateUpdatedNotice where
  previous : StatePrevious
  current : StatePrevious
  timestamp : Int
  clientToken : String

structure DeltaStateNotice where
  state : GoMap
  metadata : GoMap
  timestamp : Int
  clientToken : String
  version : Int

def isStateValueEmpty (s : GoMap) : Bool := (s.getD []).isEmpty

def notifyStateUpdate (now : Int) (clientToken : String) (pre rs : Shadow) : StateUpdatedNotice where
  previous := ⟨pre.state, pre.metadata, pre.version⟩
  current := ⟨rs.state, rs.metadata, rs.version⟩
  timestamp := now
  clientToken := clientToken

def notifyDeltaState (now : Int) (clientToken : String) (rs : Shadow) :
    Except Panic (Option DeltaStateNotice) := do
  let (delta, deltaMeta) ← deltaState rs.state.desired rs.state.reported rs.metadata.desired
  if isStateValueEmpty delta then .ok none
  else .ok (some ⟨delta, deltaMeta, now, clientToken, rs.version⟩)

/-- What a set call returns and what it hands to its subscribers. -/
structure Answer where
  shadow : Shadow
  updatedMeta : GoMap
  delta : Option DeltaStateNotice
  updated : StateUpdatedNotice

/-- The notices go out after the transaction was committed. -/
def notify (times : Times) (clientToken : String) (prepared : Prepared) (cur : Shadow) :
    Except Failure Answer := do
  let delta ← (notifyDeltaState times.delta clientToken cur).mapError .panic
  .ok ⟨cur, prepared.updatedMeta, delta, notifyStateUpdate times.updated clientToken prepared.pre cur⟩

/-- The transaction of `setState`: read, merge, write. -/
def transact (times : Times) (sr : StateReq) (isDesired : Bool) (row : Option Entity) :
    Except Failure (Prepared × Entity) := do
  let prepared ← prepareState times.merge sr isDesired row
  let en ← update times.saved sr.version prepared.next row
  .ok (prepared, en)

/-- The row afterwards and the result. -/
def setState (times : Times) (sr : StateReq) (isDesired : Bool) (row : Option Entity) :
    Option Entity × Except Failure Answer :=
  match transact times sr isDesired row with
  | .ok (prepared, en) => (some en, notify times sr.clientToken prepared (toShadow en))
  | .error failure => (row, .error failure)

def setTag (times : Times) (t : TagsReq) (row : Option Entity) :
    Option Entity × Except Failure Unit :=
  match prepareTag t row >>= fun next => update times.saved t.version next row with
  | .ok en => (some en, .ok ())
  | .error failure => (row, .error failure)

/-- What a device is answered to the state it reported. -/
inductive Response where
  | accepted (reported metadata : GoMap) (timestamp : Int) (clientToken : String) (version : Int)
  | rejected (code : Int) (message : String) (timestamp : Int) (clientToken : String)

def setReported (times : Times) (sr : StateReq) (row : Option Entity) :
    Option Entity × Except Failure Answer × Option Response :=
  match setState times sr false row with
  | (next, .ok answer) => (next, .ok answer, some (.accepted (sr.reported.map Document.fields)
      answer.updatedMeta times.answered sr.clientToken answer.shadow.version))
  | (next, .error failure) => (next, .error failure, failure.describe.map fun (code, message) =>
      .rejected code message times.answered sr.clientToken)

inductive Request where
  | desired (sr : StateReq)
  | reported (sr : StateReq)
  | tag (t : TagsReq)

/-- A call of the service with the times it will read. -/
structure Call where
  times : Times
  request : Request

/-- The side, the version and the document of a set request. -/
def Request.set? : Request → Option (Bool × StateReq)
  | .desired sr => some (true, sr)
  | .reported sr => some (false, sr)
  | .tag _ => none

/-- One call as one transaction: the row afterwards, and its answer. -/
def serve (row : Entity) (call : Call) : Entity × Except Failure (Option Answer) :=
  match call.request with
  | .desired sr =>
    let (next, result) := setState call.times sr true (some row)
    (next.getD row, result.map some)
  | .reported sr =>
    let (next, result, _) := setReported call.times sr (some row)
    (next.getD row, result.map some)
  | .tag t =>
    let (next, result) := setTag call.times t (some row)
    (next.getD row, result.map fun _ => none)

/-- The row after a sequence of calls. -/
def serveAll (row : Entity) (calls : List Call) : Entity :=
  calls.foldl (fun row call => (serve row call).1) row

/-- A call can always be made. -/
def serveStep (row : Entity) (call : Call) : Option Entity := some (serve row call).1

theorem execute_serveStep (row : Entity) (calls : List Call) :
    execute serveStep row calls = some (serveAll row calls) := by
  induction calls generalizing row with
  | nil => rfl
  | cons call rest ih => exact ih _

end Tio.Shadow
