import Tio.Shadow.Convergence
import Tio.Shadow.NullFree
import Tio.Shadow.Reachable

namespace Tio.Shadow

open Tio.Core Tio.Json

/-- A leaf of the document stands at the path. -/
def HasLeaf (document : GoMap) (path : List String) : Prop :=
  ∃ fields leaf, document = some fields ∧ LeafAt (.obj fields) path leaf

theorem MirrorsMap.hasLeaf_iff {fields : Fields} {metadata : GoMap}
    (mirrors : MirrorsMap fields metadata) (path : List String) :
    HasLeaf (some fields) path ↔ Stamped (metadata.map .obj) path := by
  rw [mirrors.stamped_iff path]
  simp [HasLeaf]

/-- The call fails on no type assertion. If it is a set call that the stored version lets
through, its document is merged into the stored one, and it is answered with metadata that
is stamped at the leaves of its document. -/
structure AnswerMirrors (row : Entity) (call : Call) : Prop where
  calm : ∀ cause, (serve row call).2 ≠ .error (.panic cause)
  answered : ∀ isDesired document, Sets row call isDesired document →
    (serve row call).1.document isDesired = (row.document isDesired).map (overlaid document.fields) ∧
    ∃ answer, (serve row call).2 = .ok (some answer) ∧
      ∀ path, HasLeaf (some document.fields) path ↔ Stamped (answer.updatedMeta.map .obj) path
  stamped : ∀ answer isDesired sr path, (serve row call).2 = .ok (some answer) →
    call.request.set? = some (isDesired, sr) →
      (HasLeaf ((sr.document isDesired).map Document.fields) path ↔
        Stamped (answer.updatedMeta.map .obj) path)

theorem Sets.determined {row : Entity} {call : Call} {isDesired isDesired' : Bool}
    {document document' : Document} (sets : Sets row call isDesired document)
    (sets' : Sets row call isDesired' document') :
    isDesired' = isDesired ∧ document' = document := by
  obtain ⟨sr, asked, given, -⟩ := sets
  obtain ⟨sr', asked', given', -⟩ := sets'
  rw [asked] at asked'
  cases asked'
  rw [given] at given'
  cases given'
  exact ⟨rfl, rfl⟩

theorem answerMirrors {row : Entity} (sound : Sound row) (call : Call) : AnswerMirrors row call := by
  have done := served sound call
  constructor
  · intro cause failed
    generalize serve row call = result at done failed
    cases done with
    | refused calm =>
      cases failed
      exact calm cause rfl
    | tagged => cases failed
    | set => cases failed
  · intro isDesired document asked
    generalize serve row call = result at done
    cases done with
    | refused _ unset => exact absurd asked (unset isDesired document)
    | tagged unset => exact absurd asked (unset isDesired document)
    | set sets applied answers =>
      obtain ⟨rfl, rfl⟩ := sets.determined asked
      refine ⟨applied.document, _, rfl, fun path => ?_⟩
      rw [answers.2.1]
      exact applied.updatedMeta.hasLeaf_iff path
  · intro answer isDesired sr path answered asked
    generalize serve row call = result at done answered
    cases done with
    | refused => cases answered
    | tagged => cases answered
    | set sets applied answers =>
      cases answered
      obtain ⟨other, asked', given, -⟩ := sets
      rw [asked] at asked'
      cases asked'
      rw [given, answers.2.1]
      exact applied.updatedMeta.hasLeaf_iff path

/-- Metadata mirrors state in every reachable row, and every call on the way is
answered with metadata that mirrors its request. -/
theorem metadata_mirrors_state (thingId : String) (now : Int) (calls : List Call) :
    (∀ isDesired path, HasLeaf ((serveAll (create thingId now) calls).document isDesired) path ↔
      Stamped (((serveAll (create thingId now) calls).stamps isDesired).map .obj) path) ∧
    Always serveStep (fun row call _ => AnswerMirrors row call) (create thingId now) calls := by
  constructor
  · intro isDesired path
    obtain ⟨fields, found, -, mirrors⟩ :=
      (sound_serveAll (sound_create thingId now) calls).mirrored isDesired
    rw [found]
    exact mirrors.hasLeaf_iff path
  · refine Meets.always Sound ?_ (meets_true _ _) (sound_create thingId now)
    intro row call next sound _ taken
    exact ⟨answerMirrors sound call, sound_serveStep row call next sound taken⟩

/-- A call at time zero that asks for no version. -/
def plainCall (isDesired : Bool) (document : Document) : Call where
  times := ⟨⟨fun _ => 0, fun _ => 0⟩, 0, 0, 0, 0⟩
  request := if isDesired then .desired ⟨some document, none, "", 0⟩
    else .reported ⟨none, some document, "", 0⟩

/-- A lamp is set, and reports with one field taken back and one more nested. -/
def lampDesired : Document := ⟨[("color", .str "red"), ("power", .obj [("level", .num 1)])], by decide⟩

def lampReported : Document := ⟨[("color", .null), ("power", .obj [("level", .obj [("now", .num 2)])])], by decide⟩

theorem lamp_mirrored : ∃ answer,
    (serve (serveAll (create "lamp" 0) [plainCall true lampDesired, plainCall false lampDesired])
      (plainCall false lampReported)).2 = .ok (some answer) ∧
    Stamped (answer.updatedMeta.map .obj) ["power", "level", "now"] ∧
    ¬ Stamped (answer.updatedMeta.map .obj) ["color"] ∧
    (serveAll (create "lamp" 0) [plainCall true lampDesired, plainCall false lampDesired,
      plainCall false lampReported]).reported = some [("power", .obj [("level", .obj [("now", .num 2)])])] := by
  have always := (metadata_mirrors_state "lamp" 0 [plainCall true lampDesired, plainCall false lampDesired,
    plainCall false lampReported]).2
  have mirrors := (((always _ rfl).2 _ rfl).2 _ rfl).1
  obtain ⟨-, answer, answered, stamps⟩ := mirrors.answered false lampReported ⟨_, rfl, rfl, .inl rfl⟩
  refine ⟨answer, answered, (stamps _).mp ⟨_, .num 2, rfl, rfl, rfl⟩, fun stamped => ?_, rfl⟩
  obtain ⟨_, leaf, ⟨⟩, reached, fine⟩ := (stamps _).mpr stamped
  cases reached
  cases fine

/-- Neither document holds a null. -/
def NullFreeRow (row : Entity) : Prop :=
  ∀ isDesired fields, row.document isDesired = some fields → NullFree (.obj fields)

/-- The call takes effect and its document plants a null in the stored one. -/
def StoresNull (row : Entity) (call : Call) : Prop :=
  ∃ isDesired document held, Sets row call isDesired document ∧
    row.document isDesired = some held ∧ PlantsNull (.obj document.fields) (some (.obj held))

theorem nullFreeRow_create (thingId : String) (now : Int) : NullFreeRow (create thingId now) := by
  rintro (_ | _) fields found <;> cases found <;> exact nullFree_obj_iff.mpr (by simp)

/-- A row without nulls gets one exactly by a call that plants it. -/
theorem nullFreeRow_serve_iff {row : Entity} (sound : Sound row) (free : NullFreeRow row)
    (call : Call) : NullFreeRow (serve row call).1 ↔ ¬ StoresNull row call := by
  have done := served sound call
  generalize serve row call = result at done
  cases done with
  | refused _ unset =>
    refine iff_of_true free ?_
    rintro ⟨isDesired, document, held, sets, -⟩
    exact unset isDesired document sets
  | tagged unset documents =>
    refine iff_of_true (fun isDesired fields found => ?_) ?_
    · rw [documents] at found
      exact free isDesired fields found
    · rintro ⟨isDesired, document, held, sets, -⟩
      exact unset isDesired document sets
  | @set isDesired document prepared en answer sets applied =>
    obtain ⟨held, found, -, -⟩ := sound.mirrored isDesired
    have merged := applied.document
    rw [found] at merged
    have planted : StoresNull row call ↔ PlantsNull (.obj document.fields) (some (.obj held)) := by
      constructor
      · rintro ⟨isDesired', document', held', sets', found', planted⟩
        obtain ⟨rfl, rfl⟩ := sets.determined sets'
        rw [found] at found'
        cases found'
        exact planted
      · intro planted
        exact ⟨isDesired, document, held, sets, found, planted⟩
    rw [planted, ← nullFree_overlaid_iff document.unique (free isDesired held found)]
    constructor
    · intro free'
      exact free' isDesired _ merged
    · intro here isDesired' fields found'
      by_cases same : isDesired' = isDesired
      · subst same
        rw [merged] at found'
        cases found'
        exact here
      · obtain rfl : isDesired' = !isDesired := Bool.eq_not.mpr same
        rw [applied.otherDocument] at found'
        exact free _ fields found'

/-- Along every history no null is stored exactly when no call plants one. -/
theorem no_null_stored_iff (thingId : String) (now : Int) (calls : List Call) :
    Always serveStep (fun _ _ next => NullFreeRow next) (create thingId now) calls ↔
      Meets serveStep (fun row call => ¬ StoresNull row call) (create thingId now) calls := by
  refine always_iff_meets (fun row => Sound row ∧ NullFreeRow row) ?_ ?_ calls
    ⟨sound_create thingId now, nullFreeRow_create thingId now⟩
  · rintro row call next ⟨sound, free⟩ taken
    cases taken
    exact nullFreeRow_serve_iff sound free call
  · rintro row call next ⟨sound, free⟩ calm taken
    refine ⟨sound_serveStep row call next sound taken, ?_⟩
    cases taken
    exact (nullFreeRow_serve_iff sound free call).mpr calm

/-- What the delta is after the device has merged the delta it was told into its
reported document. -/
def reportDelta (clock : Clock) (row : Entity) : Except Panic GoMap := do
  let (delta, _) ← deltaState row.desired row.reported row.metadata.desired
  let (reported, _, _) ← mergeState clock row.reported (delta.getD []) row.metadata.reported none
  let (left, _) ← deltaState row.desired reported row.metadata.desired
  .ok left

/-- Wherever the desired document holds an object without leaves, the reported
document holds an object. -/
def AnchoredRow (row : Entity) : Prop :=
  ∀ desired reported, row.desired = some desired → row.reported = some reported →
    Anchored (.obj desired) (some (.obj reported))

/-- In every reachable row the device converges exactly when it is anchored. -/
theorem converges_iff_anchored (thingId : String) (now : Int) (calls : List Call) (clock : Clock) :
    (∃ left, reportDelta clock (serveAll (create thingId now) calls) = .ok left ∧
      isStateValueEmpty left = true) ↔ AnchoredRow (serveAll (create thingId now) calls) := by
  have sound := sound_serveAll (sound_create thingId now) calls
  generalize serveAll (create thingId now) calls = row at sound
  obtain ⟨desired, foundDesired, unique, mirrors⟩ := sound.desired
  obtain ⟨reported, foundReported, -, mirrorsReported⟩ := sound.reported
  obtain ⟨_, told⟩ := deltaState_mirrors reported unique mirrors
  obtain ⟨am, um, merged, -, -⟩ := mergeState_mirrors
    (differences_unique desired reported unique) mirrorsReported clock
  obtain ⟨_, left⟩ := deltaState_mirrors
    (overlaid (differences desired reported) reported) unique mirrors
  have outcome : reportDelta clock row =
      .ok (some (differences desired (overlaid (differences desired reported) reported))) := by
    rw [reportDelta]
    simp only [foundDesired, foundReported, told, merged, left, Option.getD_some, bind, Except.bind]
  have anchored : AnchoredRow row ↔ Anchored (.obj desired) (some (.obj reported)) := by
    simp [AnchoredRow, foundDesired, foundReported]
  rw [outcome, anchored, ← differences_caughtUp_iff unique]
  simp [isStateValueEmpty]

/-- A map that is `nil` and a map without entries are the same document. -/
def SameMap (left right : GoMap) : Prop := left.getD [] = right.getD []

structure SameDocuments (told : StatePrevious) (state : StateDR) (metadata : Metadata)
    (version : Int) : Prop where
  desired : SameMap told.state.desired state.desired
  reported : SameMap told.state.reported state.reported
  desiredMeta : SameMap told.metadata.desired metadata.desired
  reportedMeta : SameMap told.metadata.reported metadata.reported
  version : told.version = version

def Tells (told : StatePrevious) (row : Entity) : Prop :=
  SameDocuments told ⟨row.desired, row.reported⟩ row.metadata row.version

/-- The notice of a set call names the row before it and the row after it. -/
def Faithful (row : Entity) (call : Call) (next : Entity) : Prop :=
  ∀ answer, (serve row call).2 = .ok (some answer) →
    Tells answer.updated.previous row ∧ Tells answer.updated.current next ∧
      answer.updated.current.version = answer.updated.previous.version + 1

/-- A set call takes effect where metadata of the reported document is stored. -/
def DropsReported (row : Entity) (call : Call) : Prop :=
  row.metadata.reported.getD [] ≠ [] ∧ ∃ isDesired document, Sets row call isDesired document

theorem tells_previous_iff (row : Entity) :
    Tells ⟨(previous row).state, (previous row).metadata, (previous row).version⟩ row ↔
      row.metadata.reported.getD [] = [] := by
  constructor
  · intro told
    exact told.reportedMeta.symm
  · intro empty
    exact {
      desired := by simp [SameMap, previous, cloneStateValue, deepCopyMap_eq]
      reported := by simp [SameMap, previous, cloneStateValue, deepCopyMap_eq]
      desiredMeta := by simp [SameMap, previous, cloneMetadata, deepCopyMap_eq]
      reportedMeta := empty.symm
      version := rfl }

theorem tells_toShadow (en : Entity) :
    Tells ⟨(toShadow en).state, (toShadow en).metadata, (toShadow en).version⟩ en :=
  ⟨rfl, rfl, rfl, rfl, rfl⟩

theorem faithful_iff {row : Entity} (sound : Sound row) (call : Call) :
    Faithful row call (serve row call).1 ↔ ¬ DropsReported row call := by
  have done := served sound call
  rw [Faithful]
  generalize serve row call = result at done
  cases done with
  | refused _ unset | tagged unset =>
    refine iff_of_true (by simp) ?_
    rintro ⟨-, isDesired, document, sets⟩
    exact unset isDesired document sets
  | @set isDesired document prepared en answer sets applied answers =>
    obtain ⟨-, -, clientToken, notice⟩ := answers
    have before : Tells answer.updated.previous row ↔ row.metadata.reported.getD [] = [] := by
      rw [notice, notifyStateUpdate, applied.pre]
      exact tells_previous_iff row
    have after : Tells answer.updated.current en := by
      rw [notice]
      exact tells_toShadow en
    have later : answer.updated.current.version = answer.updated.previous.version + 1 := by
      rw [notice, notifyStateUpdate, applied.pre]
      exact applied.version
    have drops : DropsReported row call ↔ row.metadata.reported.getD [] ≠ [] :=
      ⟨And.left, fun stored => ⟨stored, isDesired, document, sets⟩⟩
    rw [drops, not_not, ← before]
    constructor
    · intro told
      exact (told answer rfl).1
    · rintro told other ⟨⟩
      exact ⟨told, after, later⟩

theorem serve_refused {row : Entity} (sound : Sound row) {call : Call} {failure : Failure}
    (refused : (serve row call).2 = .error failure) : (serve row call).1 = row := by
  have done := served sound call
  generalize serve row call = result at done refused
  cases done with
  | refused => rfl
  | tagged | set => cases refused

/-- Calls that fail leave the row as it was. -/
theorem serveAll_refused {row : Entity} (sound : Sound row) {calls : List Call}
    (refused : Always serveStep (fun row call _ => ∃ failure, (serve row call).2 = .error failure)
      row calls) : serveAll row calls = row := by
  induction calls with
  | nil => rfl
  | cons call rest ih =>
    obtain ⟨⟨failure, failed⟩, later⟩ := refused _ rfl
    have same := serve_refused sound failed
    rw [same] at later
    change serveAll (serve row call).1 rest = row
    rw [same]
    exact ih later

theorem serveAll_append (row : Entity) (first second : List Call) :
    serveAll row (first ++ second) = serveAll (serveAll row first) second :=
  List.foldl_append

/-- What one notice calls current, the next one calls previous. -/
def Chained (start : Entity) (calls : List Call) : Prop :=
  ∀ before first between second after earlier later,
    calls = before ++ first :: (between ++ second :: after) →
    (serve (serveAll start before) first).2 = .ok (some earlier) →
    Always serveStep (fun row call _ => ∃ failure, (serve row call).2 = .error failure)
      (serve (serveAll start before) first).1 between →
    (serve (serveAll (serve (serveAll start before) first).1 between) second).2 = .ok (some later) →
    SameDocuments later.updated.previous earlier.updated.current.state
      earlier.updated.current.metadata earlier.updated.current.version

theorem Tells.trans {earlier later : StatePrevious} {row : Entity} (ends : Tells earlier row)
    (starts : Tells later row) :
    SameDocuments later earlier.state earlier.metadata earlier.version where
  desired := starts.desired.trans ends.desired.symm
  reported := starts.reported.trans ends.reported.symm
  desiredMeta := starts.desiredMeta.trans ends.desiredMeta.symm
  reportedMeta := starts.reportedMeta.trans ends.reportedMeta.symm
  version := starts.version.trans ends.version.symm

theorem chained_of_faithful {start : Entity} (sound : Sound start) {calls : List Call}
    (faithful : Always serveStep Faithful start calls) : Chained start calls := by
  rintro before first between second after earlier later rfl answered refused answered'
  have onward := faithful.after (execute_serveStep start before)
  obtain ⟨here, rest⟩ := onward _ rfl
  obtain ⟨there, -⟩ := rest.after (execute_serveStep _ between) _ rfl
  have kept := serveAll_refused ((served (sound_serveAll sound before) first).sound
    (sound_serveAll sound before)) refused
  have ends := (here earlier answered).2.1
  have starts := (there later answered').1
  rw [kept] at starts
  exact ends.trans starts

/-- Along every history all notices are faithful exactly when no set call takes
effect on stored metadata of the reported document; then they are chained too. -/
theorem notices_faithful_iff (thingId : String) (now : Int) (calls : List Call) :
    (Always serveStep Faithful (create thingId now) calls ↔
      Meets serveStep (fun row call => ¬ DropsReported row call) (create thingId now) calls) ∧
    (Meets serveStep (fun row call => ¬ DropsReported row call) (create thingId now) calls →
      Chained (create thingId now) calls) := by
  have same : Always serveStep Faithful (create thingId now) calls ↔
      Meets serveStep (fun row call => ¬ DropsReported row call) (create thingId now) calls := by
    refine always_iff_meets Sound ?_ ?_ calls (sound_create thingId now)
    · intro row call next sound taken
      cases taken
      exact faithful_iff sound call
    · intro row call next sound _ taken
      exact sound_serveStep row call next sound taken
  exact ⟨same, fun meets => chained_of_faithful (sound_create thingId now) (same.mpr meets)⟩

/-- An empty object is stored as null. -/
theorem empty_object_stored_as_null : ¬ ∀ (thingId : String) (now : Int) (calls : List Call),
    Always serveStep (fun _ _ next => NullFreeRow next) (create thingId now) calls := by
  intro always
  have stored := (always "lamp" 0 [plainCall true ⟨[("a", .obj [])], by decide⟩] _ rfl).1
  exact stored true [("a", .null)] rfl ["a"] rfl

/-- A device that reports the delta of an object emptied by a deletion is told
the same delta again. -/
theorem emptied_object_told_again : ¬ ∀ (thingId : String) (now : Int) (calls : List Call)
    (clock : Clock), ∃ left, reportDelta clock (serveAll (create thingId now) calls) = .ok left ∧
      isStateValueEmpty left = true := by
  intro always
  obtain ⟨left, told, empty⟩ := always "lamp" 0
    [plainCall true ⟨[("a", .obj [("b", .num 1)])], by decide⟩,
      plainCall true ⟨[("a", .obj [("b", .null)])], by decide⟩] ⟨fun _ => 0, fun _ => 0⟩
  have again : reportDelta ⟨fun _ => 0, fun _ => 0⟩ (serveAll (create "lamp" 0)
    [plainCall true ⟨[("a", .obj [("b", .num 1)])], by decide⟩,
      plainCall true ⟨[("a", .obj [("b", .null)])], by decide⟩]) =
        .ok (some [("a", .obj [])]) := rfl
  rw [again] at told
  cases told
  cases empty

/-- After the device has reported once, the next notice has lost the timestamps
of what it reported. -/
theorem reported_metadata_dropped : ¬ ∀ (thingId : String) (now : Int) (calls : List Call),
    Always serveStep Faithful (create thingId now) calls := by
  intro always
  have second := ((always "lamp" 0 [plainCall false ⟨[("a", .num 1)], by decide⟩,
    plainCall true ⟨[("a", .num 1)], by decide⟩] _ rfl).2 _ rfl).1
  have told := (second _ rfl).1.reportedMeta
  cases told

end Tio.Shadow
