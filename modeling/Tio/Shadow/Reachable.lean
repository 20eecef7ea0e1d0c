import Tio.Shadow.Service

namespace Tio.Shadow

open Tio.Core Tio.Json

/-- A stored document, with every key once, and metadata that mirrors it. -/
def Mirrored (document metadata : GoMap) : Prop :=
  ∃ fields, document = some fields ∧ Unique fields ∧ MirrorsMap fields metadata

structure Sound (row : Entity) : Prop where
  desired : Mirrored row.desired row.metadata.desired
  reported : Mirrored row.reported row.metadata.reported
  version : 1 ≤ row.version

def Entity.document (row : Entity) : Bool → GoMap
  | true => row.desired
  | false => row.reported

def Entity.stamps (row : Entity) : Bool → GoMap
  | true => row.metadata.desired
  | false => row.metadata.reported

def StateReq.document (sr : StateReq) : Bool → Option Document
  | true => sr.desired
  | false => sr.reported

/-- The request asks for no version or for the stored one. -/
def Accepted (version : Int) (row : Entity) : Prop := version = 0 ∨ row.version = version

instance (version : Int) (row : Entity) : Decidable (Accepted version row) :=
  inferInstanceAs (Decidable (_ ∨ _))

/-- The call is a set call that the stored version lets through. -/
def Sets (row : Entity) (call : Call) (isDesired : Bool) (document : Document) : Prop :=
  ∃ sr, call.request.set? = some (isDesired, sr) ∧ sr.document isDesired = some document ∧
    Accepted sr.version row

theorem Sound.mirrored {row : Entity} (sound : Sound row) (isDesired : Bool) :
    Mirrored (row.document isDesired) (row.stamps isDesired) := by
  cases isDesired
  · exact sound.reported
  · exact sound.desired

@[simp] theorem getD_omitEmpty (fields : GoMap) : (omitEmpty fields).getD [] = fields.getD [] := by
  rcases fields with _ | _ | _ <;> rfl

theorem Mirrored.omitEmpty {document metadata : GoMap} (mirrored : Mirrored document metadata) :
    Mirrored document (omitEmpty metadata) := by
  obtain ⟨fields, found, unique, mirrors⟩ := mirrored
  refine ⟨fields, found, unique, fun key => ?_⟩
  rw [getD_omitEmpty]
  exact mirrors key

theorem sound_create (thingId : String) (now : Int) : Sound (create thingId now) where
  desired := ⟨[], rfl, unique_nil, fun _ => .absent⟩
  reported := ⟨[], rfl, unique_nil, fun _ => .absent⟩
  version := Int.le_refl 1

/-- The shadow that the notice calls the previous one. -/
def previous (row : Entity) : Shadow := { toShadow row with
  state := ⟨cloneStateValue row.desired, cloneStateValue row.reported⟩
  metadata := cloneMetadata row.metadata
  tags := none }

/-- What a set call that takes effect does to the row. -/
structure Applied (isDesired : Bool) (src : Fields) (row : Entity) (prepared : Prepared)
    (en : Entity) : Prop where
  pre : prepared.pre = previous row
  document : en.document isDesired = (row.document isDesired).map (overlaid src)
  stamps : Mirrored (en.document isDesired) (en.stamps isDesired)
  otherDocument : en.document (!isDesired) = row.document (!isDesired)
  otherStamps : en.stamps (!isDesired) = omitEmpty (row.stamps (!isDesired))
  updatedMeta : MirrorsMap src prepared.updatedMeta
  version : en.version = row.version + 1

theorem matchVersion_accepted {version : Int} {row : Entity} (accepted : Accepted version row) :
    matchVersion version (toShadow row) = .ok () := by
  rw [matchVersion, if_neg]
  rintro ⟨given, different⟩
  rcases accepted with none | same
  · exact given none
  · exact different same

theorem matchVersion_refused {version : Int} {row : Entity} (refused : ¬ Accepted version row) :
    ∃ detail, matchVersion version (toShadow row) = .error (.versionConflict detail) := by
  rw [matchVersion, if_pos]
  · exact ⟨_, rfl⟩
  · exact not_or.mp refused

theorem update_accepted {now version : Int} {s : Shadow} {row : Entity}
    (accepted : Accepted version row) : update now version s (some row) = .ok (toEntity now s) := by
  rw [update, if_neg]
  rintro ⟨positive, different⟩
  rcases accepted with rfl | same
  · exact absurd positive (by decide)
  · exact different (congrArg some same)

theorem transact_refused (times : Times) {sr : StateReq} {isDesired : Bool} {row : Entity}
    (refused : ¬ (Accepted sr.version row ∧ ∃ document, sr.document isDesired = some document)) :
    ∃ failure, transact times sr isDesired (some row) = .error failure ∧
      ∀ cause, failure ≠ .panic cause := by
  by_cases accepted : Accepted sr.version row
  · refine ⟨.shadowFormat, ?_, by simp⟩
    have missing : sr.document isDesired = none := by
      cases found : sr.document isDesired with
      | none => rfl
      | some document => exact absurd ⟨accepted, document, found⟩ refused
    simp only [transact, prepareState, get, matchVersion_accepted accepted, bind, Except.bind]
    cases isDesired
    · replace missing : sr.reported = none := missing
      simp [missing, requested]
    · replace missing : sr.desired = none := missing
      simp [missing, requested]
  · obtain ⟨detail, conflict⟩ := matchVersion_refused accepted
    refine ⟨.versionConflict detail, ?_, by simp⟩
    simp only [transact, prepareState, get, conflict, bind, Except.bind]

/-- The shadow with one document and its metadata replaced, one version on. -/
def replaced (isDesired : Bool) (document metadata : GoMap) (ss : Shadow) : Shadow :=
  if isDesired then { ss with
    state := { ss.state with desired := document }
    metadata := { ss.metadata with desired := metadata }
    version := ss.version + 1 }
  else { ss with
    state := { ss.state with reported := document }
    metadata := { ss.metadata with reported := metadata }
    version := ss.version + 1 }

theorem prepareState_accepted {clock : Clock} {sr : StateReq} {isDesired : Bool} {row : Entity}
    {document : Document} {merged stamps updatedMeta : GoMap} (accepted : Accepted sr.version row)
    (given : sr.document isDesired = some document)
    (done : mergeState clock (row.document isDesired) document.fields (row.stamps isDesired) none =
      .ok (merged, stamps, updatedMeta)) :
    prepareState clock sr isDesired (some row) =
      .ok ⟨previous row, replaced isDesired merged stamps (toShadow row), updatedMeta⟩ := by
  cases isDesired
  · replace given : sr.reported = some document := given
    replace done : mergeState clock (toShadow row).state.reported document.fields
      (toShadow row).metadata.reported none = .ok (merged, stamps, updatedMeta) := done
    simp only [prepareState, get, matchVersion_accepted accepted, given, requested, done,
      Except.mapError, bind, Except.bind, Bool.false_eq_true, ↓reduceIte]
    rfl
  · replace given : sr.desired = some document := given
    replace done : mergeState clock (toShadow row).state.desired document.fields
      (toShadow row).metadata.desired none = .ok (merged, stamps, updatedMeta) := done
    simp only [prepareState, get, matchVersion_accepted accepted, given, requested, done,
      Except.mapError, bind, Except.bind, ↓reduceIte]
    rfl

theorem transact_accepted (times : Times) {sr : StateReq} {isDesired : Bool} {row : Entity}
    {document : Document} (sound : Sound row) (accepted : Accepted sr.version row)
    (given : sr.document isDesired = some document) :
    ∃ prepared en, transact times sr isDesired (some row) = .ok (prepared, en) ∧
      Applied isDesired document.fields row prepared en := by
  obtain ⟨fields, found, unique, mirrors⟩ := sound.mirrored isDesired
  obtain ⟨am, um, merged, kept, fresh⟩ := mergeState_mirrors document.unique mirrors times.merge
  rw [← found] at merged
  have prepared := prepareState_accepted accepted given merged
  have stored : Mirrored (some (overlaid document.fields fields)) (some am) :=
    ⟨_, rfl, overlaid_unique document.fields fields document.unique unique, kept⟩
  refine ⟨_, _, bind_eq_ok.mpr ⟨_, prepared, bind_eq_ok.mpr ⟨_, update_accepted accepted, rfl⟩⟩, ?_⟩
  exact {
    pre := rfl
    document := by
      rw [found]
      cases isDesired <;> rfl
    stamps := by
      cases isDesired <;> exact stored.omitEmpty
    otherDocument := by cases isDesired <;> rfl
    otherStamps := by cases isDesired <;> rfl
    updatedMeta := fresh
    version := by cases isDesired <;> rfl }

theorem Applied.sound {isDesired : Bool} {src : Fields} {row en : Entity} {prepared : Prepared}
    (applied : Applied isDesired src row prepared en) (sound : Sound row) : Sound en := by
  have here := applied.stamps
  have there := (sound.mirrored (!isDesired)).omitEmpty
  rw [← applied.otherDocument, ← applied.otherStamps] at there
  have later : 1 ≤ en.version := by
    rw [applied.version]
    have := sound.version
    omega
  cases isDesired
  · exact ⟨there, here, later⟩
  · exact ⟨here, there, later⟩

/-- The answer to a set call, given what the transaction left. -/
def Answers (times : Times) (prepared : Prepared) (en : Entity) (answer : Answer) : Prop :=
  answer.shadow = toShadow en ∧ answer.updatedMeta = prepared.updatedMeta ∧
    ∃ clientToken, answer.updated =
      notifyStateUpdate times.updated clientToken prepared.pre (toShadow en)

theorem notify_sound {en : Entity} (sound : Sound en) (times : Times) (clientToken : String)
    (prepared : Prepared) : ∃ answer,
      notify times clientToken prepared (toShadow en) = .ok answer ∧ Answers times prepared en answer := by
  obtain ⟨desired, foundDesired, unique, mirrors⟩ := sound.desired
  obtain ⟨reported, foundReported, -, -⟩ := sound.reported
  obtain ⟨deltaMeta, told⟩ := deltaState_mirrors reported unique mirrors
  have noticed : ∃ notice, notifyDeltaState times.delta clientToken (toShadow en) = .ok notice := by
    rw [notifyDeltaState]
    simp only [toShadow, foundDesired, foundReported, told, bind, Except.bind]
    split <;> exact ⟨_, rfl⟩
  obtain ⟨notice, noticed⟩ := noticed
  refine ⟨⟨toShadow en, prepared.updatedMeta, notice,
    notifyStateUpdate times.updated clientToken prepared.pre (toShadow en)⟩, ?_, ?_⟩
  · rw [notify, noticed]
    rfl
  · exact ⟨rfl, rfl, clientToken, rfl⟩

/-- What one call does: it is refused and changes nothing, it changes the tags,
or it merges its document into one of the two. -/
inductive Served (row : Entity) (call : Call) : Entity × Except Failure (Option Answer) → Prop where
  | refused {failure : Failure} (calm : ∀ cause, failure ≠ .panic cause)
      (unset : ∀ isDesired document, ¬ Sets row call isDesired document) :
      Served row call (row, .error failure)
  | tagged {en : Entity} (unset : ∀ isDesired document, ¬ Sets row call isDesired document)
      (documents : ∀ isDesired, en.document isDesired = row.document isDesired)
      (stamps : ∀ isDesired, en.stamps isDesired = omitEmpty (row.stamps isDesired))
      (version : en.version = row.version + 1) : Served row call (en, .ok none)
  | set {isDesired : Bool} {document : Document} {prepared : Prepared} {en : Entity}
      {answer : Answer} (sets : Sets row call isDesired document)
      (applied : Applied isDesired document.fields row prepared en)
      (answers : Answers call.times prepared en answer) : Served row call (en, .ok (some answer))

private theorem served_setState {row : Entity} {call : Call} {sr : StateReq} {isDesired : Bool}
    (sound : Sound row) (asked : call.request.set? = some (isDesired, sr)) :
    Served row call (((setState call.times sr isDesired (some row)).1).getD row,
      (setState call.times sr isDesired (some row)).2.map some) := by
  by_cases effective : Accepted sr.version row ∧ ∃ document, sr.document isDesired = some document
  · obtain ⟨accepted, document, given⟩ := effective
    obtain ⟨prepared, en, done, applied⟩ := transact_accepted call.times sound accepted given
    obtain ⟨answer, told, answers⟩ :=
      notify_sound (applied.sound sound) call.times sr.clientToken prepared
    rw [setState, done]
    simp only [told, Except.map, Option.getD_some]
    exact .set ⟨sr, asked, given, accepted⟩ applied answers
  · obtain ⟨failure, failed, calm⟩ := transact_refused call.times effective
    rw [setState, failed]
    refine .refused calm ?_
    rintro side document ⟨other, asked', given, accepted⟩
    rw [asked] at asked'
    cases asked'
    exact effective ⟨accepted, document, given⟩

private theorem served_setTag (row : Entity) {call : Call} {t : TagsReq}
    (asked : call.request = .tag t) :
    Served row call (((setTag call.times t (some row)).1).getD row,
      (setTag call.times t (some row)).2.map fun _ => none) := by
  have unset : ∀ isDesired document, ¬ Sets row call isDesired document := by
    rintro isDesired document ⟨sr, asked', -⟩
    rw [asked] at asked'
    cases asked'
  by_cases accepted : Accepted t.version row
  · simp only [setTag, prepareTag, get, matchVersion_accepted accepted, update_accepted accepted,
      bind, Except.bind]
    exact .tagged unset (by rintro (_ | _) <;> rfl) (by rintro (_ | _) <;> rfl) rfl
  · obtain ⟨detail, conflict⟩ := matchVersion_refused accepted
    simp only [setTag, prepareTag, get, conflict, bind, Except.bind]
    exact .refused (by simp) unset

theorem served {row : Entity} (sound : Sound row) (call : Call) : Served row call (serve row call) := by
  cases asked : call.request with
  | desired sr =>
    have sets : call.request.set? = some (true, sr) := by rw [asked]; rfl
    have whole := served_setState sound sets
    simpa [serve, asked] using whole
  | reported sr =>
    have sets : call.request.set? = some (false, sr) := by rw [asked]; rfl
    have whole := served_setState sound sets
    have same : (setReported call.times sr (some row)).1 = (setState call.times sr false (some row)).1 ∧
        (setReported call.times sr (some row)).2.1 = (setState call.times sr false (some row)).2 := by
      rw [setReported]
      split <;> rename_i answered <;> rw [answered] <;> exact ⟨rfl, rfl⟩
    simp only [serve, asked]
    rw [same.1, same.2]
    exact whole
  | tag t =>
    have whole := served_setTag row asked
    simpa [serve, asked] using whole

theorem Served.sound {row : Entity} {call : Call} {next : Entity × Except Failure (Option Answer)}
    (served : Served row call next) (sound : Sound row) : Sound next.1 := by
  cases served with
  | refused => exact sound
  | @tagged en _ documents stamps version =>
    have each : ∀ isDesired, Mirrored (en.document isDesired) (en.stamps isDesired) := by
      intro isDesired
      rw [documents, stamps]
      exact (sound.mirrored isDesired).omitEmpty
    refine ⟨each true, each false, ?_⟩
    change 1 ≤ en.version
    have := sound.version
    omega
  | set _ applied => exact applied.sound sound

theorem sound_serveStep (row : Entity) (call : Call) (next : Entity) (sound : Sound row)
    (taken : serveStep row call = some next) : Sound next := by
  cases taken
  exact (served sound call).sound sound

theorem sound_serveAll {row : Entity} (sound : Sound row) (calls : List Call) :
    Sound (serveAll row calls) :=
  execute_preserves sound_serveStep sound (execute_serveStep row calls)

end Tio.Shadow
