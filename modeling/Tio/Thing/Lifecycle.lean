import Tio.Core.Keyed
import Tio.Presence.Sync
import Tio.Shadow.Interleaving
import Tio.Thing.Acl
import Tio.Thing.Query

/-! The life of a thing in the database (`thing/service.go`, `thing/thing_repo.go`). Its
row, the row of its shadow and that of its connection status are created in one
transaction and deleted in one. A request on the shadow reads the row in one step and
writes it in a later one (`shadow/shadow_repo.go`). -/

namespace Tio.ThingRepo

open Tio.Core Tio.Presence

structure Tables where
  things : Keyed Entity.id
  shadows : Keyed Shadow.Entity.thingId
  connStatuses : Keyed ConnStatus.thingId

def authTypePassword : String := "password"

/-- The times of a row that has none yet are filled in when it is inserted. -/
def toEntity (now : Int) (th : Thing) : Entity :=
  { id := th.id, enabled := th.enabled, authType := th.authType, authValue := th.authValue
    updatedAt := now, createdAt := now }

/-- Every column of the first row of a shadow is the text of an empty object. -/
def firstShadow (now : Int) (thingId : String) : Shadow.Entity where
  thingId := thingId
  desired := some []
  reported := some []
  metadata := ⟨none, none⟩
  tags := some []
  version := 1
  updatedAt := now
  createdAt := now

def firstConnStatus (now : Int) (thingId : String) : ConnStatus :=
  ⟨thingId, false, none, none, [], "", now⟩

/-- `thingRepo.Create`: when one of the three rows is refused, none is inserted. -/
def create (now : Int) (th : Thing) (t : Tables) : Option Tables := do
  let things ← t.things.insert (toEntity now th)
  let shadows ← t.shadows.insert (firstShadow now th.id)
  let connStatuses ← t.connStatuses.insert (firstConnStatus now th.id)
  some ⟨things, shadows, connStatuses⟩

def Entity.enable (now : Int) (id : String) (enabled : Bool) (en : Entity) : Entity :=
  if en.id = id then { en with enabled := enabled, updatedAt := now } else en

theorem map_enable (now : Int) (id : String) (enabled : Bool) (table : Keyed Entity.id) :
    (table.rows.map (Entity.enable now id enabled)).map Entity.id = table.keys := by
  rw [List.map_map, Keyed.keys]
  refine List.map_congr_left fun en _ => ?_
  rw [Function.comp_apply, Entity.enable]
  split <;> rfl

/-- `thingRepo.Update` -/
def update (now : Int) (id : String) (enabled : Option Bool) (t : Tables) : Tables :=
  match enabled with
  | none => t
  | some enabled => { t with things := t.things.change _ (map_enable now id enabled t.things) }

/-- `thingRepo.Delete`; a statement without a condition is refused. -/
def delete (id : String) (t : Tables) : Option Tables :=
  if id = "" then none
  else some ⟨t.things.delete id, t.shadows.delete id, t.connStatuses.delete id⟩

theorem thingId_write (clock : Int) (c : ClientInfo) (row : ConnStatus) :
    (row.write clock c).thingId = row.thingId := by
  rw [ConnStatus.write]
  split
  · split <;> rfl
  · rfl

theorem map_updateConnStatus (clock : Int) (clients : List ClientInfo) (rows : List ConnStatus) :
    (updateConnStatus clock clients rows).map ConnStatus.thingId = rows.map ConnStatus.thingId := by
  rw [updateConnStatus]
  induction clients generalizing rows with
  | nil => rfl
  | cons c rest ih =>
    rw [List.foldl_cons, ih, List.map_map]
    exact List.map_congr_left fun row _ => thingId_write clock c row

theorem map_updateAll (clock before : Int) (rows : List ConnStatus) :
    (updateAllConnStatusDisconnect clock before rows).map ConnStatus.thingId =
      rows.map ConnStatus.thingId := by
  rw [updateAllConnStatusDisconnect, List.map_map]
  refine List.map_congr_left fun row _ => ?_
  rw [Function.comp_apply, ConnStatus.disconnect]
  split <;> rfl

/-- A request on a shadow between its read and its write. -/
structure Draft where
  thingId : String
  call : Shadow.Call
  draft : Shadow.Shadow

/-- Assumed of the database: `Save` writes the whole row, it refuses a row whose version is
not the one asked for, and a row that its update does not find is inserted. -/
def Draft.write (d : Draft) (t : Tables) : Tables :=
  match t.shadows.find d.thingId with
  | some row =>
    match Shadow.commit d.call d.draft row with
    | .ok en => { t with shadows := t.shadows.save en }
    | .error _ => t
  | none => { t with shadows := t.shadows.save (Shadow.toEntity d.call.times.saved d.draft) }

inductive Refusal where
  | idGenerate
  | invalidParams
  | getThing
  | duplicated
  | secretGenerate
  | insert
  deriving DecidableEq

/-- The id of a new thing: one is generated when the request names none. -/
def newId (t : Tables) (generated : Option String) (answered : Bool) (th : Thing) : Except Refusal String :=
  if th.id = "" then
    match generated with
    | some id => .ok id
    | none => .error .idGenerate
  else if Tio.Thing.idValid th.id = false then .error .invalidParams
  else if answered = false then .error .getThing
  else if (t.things.find th.id).isSome then .error .duplicated
  else .ok th.id

/-- A thing with a password gets a secret when it brings none. -/
def credential (secret : Option String) (th : Thing) : Except Refusal Thing :=
  if th.authType = authTypePassword ∧ th.authValue = "" then
    match secret with
    | some secret => .ok { th with authValue := secret }
    | none => .error .secretGenerate
  else .ok th

/-- What `Create` of the service has in hand before the insertion. -/
def prepare (t : Tables) (generated secret : Option String) (answered : Bool) (th : Thing) :
    Except Refusal Thing := do
  let id ← newId t generated answered th
  let authType := if th.authType = "" then authTypePassword else th.authType
  credential secret { th with id := id, authType := authType }

theorem credential_id {secret : Option String} {th th' : Thing} (done : credential secret th = .ok th') :
    th'.id = th.id := by
  unfold credential at done
  split at done
  · cases secret with
    | none => cases done
    | some secret =>
      cases done
      rfl
  · cases done
    rfl

theorem credential_answers {secret : Option String} (generated : secret.isSome = true) (th : Thing) :
    ∃ th', credential secret th = .ok th' := by
  obtain ⟨text, rfl⟩ := Option.isSome_iff_exists.mp generated
  unfold credential
  split
  · exact ⟨_, rfl⟩
  · exact ⟨_, rfl⟩

structure State where
  tables : Tables
  /-- The creations that passed their check. -/
  creating : List Thing
  drafts : List Draft

inductive Action where
  | create (th : Thing) (generated secret : Option String) (answered : Bool)
  | insert (i : Nat) (now : Int) (answered : Bool)
  | update (now : Int) (id : String) (enabled : Option Bool)
  | delete (id : String)
  | read (thingId : String) (call : Shadow.Call)
  | write (i : Nat)
  | connStatus (clock : Int) (clients : List ClientInfo)
  | allDisconnect (clock before : Int)

def step (s : State) : Action → Option State
  | .create th generated secret answered =>
    match prepare s.tables generated secret answered th with
    | .ok th => some { s with creating := s.creating ++ [th] }
    | .error _ => some s
  | .insert i now answered => do
    let th ← s.creating[i]?
    let tables := if answered then (ThingRepo.create now th s.tables).getD s.tables else s.tables
    some { s with tables := tables, creating := s.creating.eraseIdx i }
  | .update now id enabled => some { s with tables := ThingRepo.update now id enabled s.tables }
  | .delete id => some { s with tables := (ThingRepo.delete id s.tables).getD s.tables }
  | .read thingId call => do
    let row ← s.tables.shadows.find thingId
    match Shadow.prepare call row with
    | .ok draft => some { s with drafts := s.drafts ++ [⟨thingId, call, draft⟩] }
    | .error _ => some s
  | .write i => do
    let d ← s.drafts[i]?
    some { s with tables := d.write s.tables, drafts := s.drafts.eraseIdx i }
  | .connStatus clock clients => some { s with tables := { s.tables with
      connStatuses := s.tables.connStatuses.change _
        (map_updateConnStatus clock clients s.tables.connStatuses.rows) } }
  | .allDisconnect clock before => some { s with tables := { s.tables with
      connStatuses := s.tables.connStatuses.change _
        (map_updateAll clock before s.tables.connStatuses.rows) } }

/-- Every thing has its shadow and its connection status, nothing else has one, and
the metadata of every shadow mirrors its documents. -/
structure Lockstep (t : Tables) : Prop where
  shadows : ∀ id, id ∈ t.shadows.keys ↔ id ∈ t.things.keys
  connStatuses : ∀ id, id ∈ t.connStatuses.keys ↔ id ∈ t.things.keys
  sound : ∀ row ∈ t.shadows.rows, Shadow.Sound row

/-- A request writes the shadow of a thing that was deleted since it read it. -/
def Resurrects (s : State) : Action → Prop
  | .write i => ∃ d, s.drafts[i]? = some d ∧ d.thingId ∉ s.tables.shadows.keys
  | _ => False

instance (s : State) : DecidablePred (Resurrects s)
  | .write i => decidable_of_iff ((s.drafts[i]?).any (fun d => d.thingId ∉ s.tables.shadows.keys) = true)
      (by simp [Resurrects, Option.any_eq_true])
  | .create .. | .insert .. | .update .. | .delete _ | .read .. | .connStatus .. | .allDisconnect .. =>
    inferInstanceAs (Decidable False)

/-- The draft comes from a row as the tables hold them. -/
def Draft.Read (d : Draft) : Prop :=
  ∃ row, row.thingId = d.thingId ∧ Shadow.Sound row ∧ Shadow.prepare d.call row = .ok d.draft

structure Working (s : State) : Prop where
  lockstep : Lockstep s.tables
  drafts : ∀ d ∈ s.drafts, d.Read

theorem prepare_thingId {call : Shadow.Call} {row : Shadow.Entity} {draft : Shadow.Shadow}
    (done : Shadow.prepare call row = .ok draft) : draft.thingId = row.thingId := by
  rw [Shadow.prepare] at done
  cases asked : call.request with
  | desired sr | reported sr =>
    rw [asked] at done
    obtain ⟨prepared, made, rfl⟩ := Shadow.map_eq_ok.mp done
    obtain ⟨ss, found, matching⟩ := Shadow.bind_eq_ok.mp made
    cases found
    obtain ⟨_, -, merging⟩ := Shadow.bind_eq_ok.mp matching
    simp only [Bool.false_eq_true, ↓reduceIte] at merging
    obtain ⟨src, -, merging⟩ := Shadow.bind_eq_ok.mp merging
    obtain ⟨⟨document, metadata, updatedMeta⟩, -, last⟩ := Shadow.bind_eq_ok.mp merging
    cases last
    rfl
  | tag t =>
    rw [asked] at done
    obtain ⟨cur, found, matching⟩ := Shadow.bind_eq_ok.mp done
    cases found
    obtain ⟨_, -, last⟩ := Shadow.bind_eq_ok.mp matching
    cases last
    rfl

section

variable {t t' : Tables} {now : Int} {id : String}

theorem Draft.Read.sound {d : Draft} (read : d.Read) :
    (Shadow.toEntity d.call.times.saved d.draft).thingId = d.thingId ∧
      Shadow.Sound (Shadow.toEntity d.call.times.saved d.draft) := by
  obtain ⟨row, same, sound, prepared⟩ := read
  refine ⟨(prepare_thingId prepared).trans same, ?_⟩
  -- The write is that of the whole call on the row it read.
  have committed : Shadow.commit d.call d.draft row = .ok (Shadow.toEntity d.call.times.saved d.draft) := by
    refine Shadow.commit_eq_ok.mpr ⟨fun positive => ?_, rfl⟩
    rcases (Shadow.prepare_version prepared).1 with none | same
    · omega
    · exact same
  rw [← Shadow.serve_of_commit prepared committed]
  exact (Shadow.served sound d.call).sound sound

theorem sound_firstShadow (now : Int) (thingId : String) : Shadow.Sound (firstShadow now thingId) where
  desired := ⟨[], rfl, Json.unique_nil, fun _ => .absent⟩
  reported := ⟨[], rfl, Json.unique_nil, fun _ => .absent⟩
  version := Int.le_refl 1

theorem lockstep_create {th : Thing} (lockstep : Lockstep t) (created : create now th t = some t') :
    Lockstep t' := by
  obtain ⟨things, inThings, created⟩ := Option.bind_eq_some_iff.mp created
  obtain ⟨shadows, inShadows, created⟩ := Option.bind_eq_some_iff.mp created
  obtain ⟨connStatuses, inStatuses, created⟩ := Option.bind_eq_some_iff.mp created
  cases created
  refine ⟨fun id => ?_, fun id => ?_, fun row member => ?_⟩
  · rw [Keyed.mem_keys_insert inShadows, Keyed.mem_keys_insert inThings, lockstep.shadows]
    rfl
  · rw [Keyed.mem_keys_insert inStatuses, Keyed.mem_keys_insert inThings, lockstep.connStatuses]
    rfl
  · rw [(Keyed.insert_eq_some_iff.mp inShadows).2, List.mem_append, List.mem_singleton] at member
    rcases member with old | rfl
    · exact lockstep.sound row old
    · exact sound_firstShadow now th.id

theorem lockstep_update (lockstep : Lockstep t) (enabled : Option Bool) :
    Lockstep (update now id enabled t) := by
  cases enabled with
  | none => exact lockstep
  | some enabled =>
    refine ⟨fun other => ?_, fun other => ?_, lockstep.sound⟩
    · simp only [update, Keyed.keys_change]
      exact lockstep.shadows other
    · simp only [update, Keyed.keys_change]
      exact lockstep.connStatuses other

theorem lockstep_delete (lockstep : Lockstep t) (deleted : delete id t = some t') : Lockstep t' := by
  rw [delete] at deleted
  split at deleted
  · cases deleted
  · cases deleted
    refine ⟨fun other => ?_, fun other => ?_, fun row member => ?_⟩
    · rw [Keyed.mem_keys_delete, Keyed.mem_keys_delete, lockstep.shadows]
    · rw [Keyed.mem_keys_delete, Keyed.mem_keys_delete, lockstep.connStatuses]
    · exact lockstep.sound row (Keyed.mem_delete member)

theorem lockstep_status (lockstep : Lockstep t) (rows : List ConnStatus)
    (same : rows.map ConnStatus.thingId = t.connStatuses.keys) :
    Lockstep { t with connStatuses := t.connStatuses.change rows same } :=
  ⟨lockstep.shadows, fun id => by rw [Keyed.keys_change]; exact lockstep.connStatuses id, lockstep.sound⟩

theorem lockstep_write {d : Draft} (lockstep : Lockstep t) (read : d.Read)
    (held : d.thingId ∈ t.shadows.keys) : Lockstep (d.write t) := by
  rw [Draft.write]
  split
  · split
    · rename_i en written
      obtain ⟨same, sound⟩ := read.sound
      obtain ⟨-, rfl⟩ := Shadow.commit_eq_ok.mp written
      refine ⟨fun id => ?_, lockstep.connStatuses, fun row member => ?_⟩
      · rw [Keyed.mem_keys_save, same, ← lockstep.shadows]
        exact ⟨fun either => either.elim (fun known => known) fun new => new ▸ held, .inl⟩
      · rcases Keyed.mem_save member with rfl | old
        · exact sound
        · exact lockstep.sound row old
    · exact lockstep
  · rename_i missing
    exact absurd held (Keyed.find_eq_none_iff.mp missing)

/-- The row of a thing that is gone comes back without the thing. -/
theorem not_lockstep_write {d : Draft} (lockstep : Lockstep t) (read : d.Read)
    (gone : d.thingId ∉ t.shadows.keys) : ¬ Lockstep (d.write t) := by
  intro after
  rw [Draft.write, Keyed.find_eq_none_iff.mpr gone] at after
  have back := (after.shadows d.thingId).mp (Keyed.mem_keys_save.mpr (.inr read.sound.1.symm))
  exact gone ((lockstep.shadows d.thingId).mpr back)

end

section

variable {s s' : State} {a : Action}

theorem Working.write {d : Draft} {i : Nat} (working : Working s) (found : s.drafts[i]? = some d)
    (held : d.thingId ∈ s.tables.shadows.keys) :
    Working { s with tables := d.write s.tables, drafts := s.drafts.eraseIdx i } :=
  ⟨lockstep_write working.lockstep (working.drafts d (List.mem_of_getElem? found)) held,
    fun other member => working.drafts other (List.mem_of_mem_eraseIdx member)⟩

/-- Every step but the resurrection of a row keeps the tables in step. -/
theorem working_step (working : Working s) (calm : ¬ Resurrects s a) (taken : step s a = some s') :
    Working s' := by
  cases a with
  | create th generated secret answered =>
    simp only [step] at taken
    split at taken <;> cases taken <;> exact ⟨working.lockstep, working.drafts⟩
  | insert i now answered =>
    obtain ⟨th, -, taken⟩ := Option.bind_eq_some_iff.mp taken
    cases taken
    refine ⟨?_, working.drafts⟩
    cases answered with
    | false => exact working.lockstep
    | true =>
      cases made : ThingRepo.create now th s.tables with
      | none => simpa [made] using working.lockstep
      | some tables => simpa [made] using lockstep_create working.lockstep made
  | update now id enabled =>
    cases taken
    exact ⟨lockstep_update working.lockstep enabled, working.drafts⟩
  | delete id =>
    cases taken
    refine ⟨?_, working.drafts⟩
    cases deleted : ThingRepo.delete id s.tables with
    | none => exact working.lockstep
    | some tables => exact lockstep_delete working.lockstep deleted
  | read thingId call =>
    obtain ⟨row, found, taken⟩ := Option.bind_eq_some_iff.mp taken
    obtain ⟨member, same⟩ := Keyed.find_mem found
    split at taken
    · rename_i draft prepared
      cases taken
      refine ⟨working.lockstep, fun d inside => ?_⟩
      rcases List.mem_append.mp inside with old | new
      · exact working.drafts d old
      · rw [List.mem_singleton.mp new]
        exact ⟨row, same, working.lockstep.sound row member, prepared⟩
    · cases taken
      exact working
  | write i =>
    obtain ⟨d, found, taken⟩ := Option.bind_eq_some_iff.mp taken
    cases taken
    refine working.write found ?_
    by_contra gone
    exact calm ⟨d, found, gone⟩
  | connStatus clock clients =>
    cases taken
    exact ⟨lockstep_status working.lockstep _ _, working.drafts⟩
  | allDisconnect clock before =>
    cases taken
    exact ⟨lockstep_status working.lockstep _ _, working.drafts⟩

theorem not_lockstep_of_resurrects (working : Working s) (resurrects : Resurrects s a)
    (taken : step s a = some s') : ¬ Lockstep s'.tables := by
  cases a with
  | write i =>
    obtain ⟨d, found, gone⟩ := resurrects
    obtain ⟨d', found', taken⟩ := Option.bind_eq_some_iff.mp taken
    rw [found] at found'
    cases found'
    cases taken
    exact not_lockstep_write working.lockstep (working.drafts d (List.mem_of_getElem? found)) gone
  | _ => exact resurrects.elim

end

/-- Nothing is in flight. -/
def boot (t : Tables) : State := ⟨t, [], []⟩

def noThings : Tables := ⟨.empty _, .empty _, .empty _⟩

theorem lockstep_noThings : Lockstep noThings :=
  ⟨fun _ => Iff.rfl, fun _ => Iff.rfl, by simp [noThings, Keyed.empty]⟩

/-- However the transactions interleave, the three tables stay in step along a run
precisely as long as no request writes the shadow of a thing that was deleted since
it read it. -/
theorem lockstep_iff {t : Tables} (lockstep : Lockstep t) (labels : List Action) :
    Always step (fun _ _ next => Lockstep next.tables) (boot t) labels ↔
      Meets step (fun s a => ¬ Resurrects s a) (boot t) labels := by
  refine always_iff_meets Working (fun s a s' working taken => ?_)
    (fun s a s' working calm taken => working_step working calm taken) labels ⟨lockstep, by simp [boot]⟩
  constructor
  · exact fun after resurrects => not_lockstep_of_resurrects working resurrects taken after
  · exact fun calm => (working_step working calm taken).lockstep

def lamp : Thing := ⟨"lamp", true, "", "secret", 0, 0⟩

def lampCall : Shadow.Call where
  times := ⟨⟨fun _ => 0, fun _ => 0⟩, 0, 0, 0, 0⟩
  request := .desired ⟨some ⟨[("on", .bool true)], by decide⟩, none, "", 0⟩

/-- The shadow of a lamp is read and later written, while another thing is deleted. -/
def lampRun : List Action :=
  [.create lamp none none true, .insert 0 1000 true, .create { lamp with id := "bulb" } none none true,
    .insert 0 1000 true, .read "lamp" lampCall, .update 2000 "lamp" (some false), .delete "bulb", .write 0]

theorem lamp_in_lockstep :
    (execute step (boot noThings) lampRun).map (fun s =>
      (s.tables.things.keys, s.tables.shadows.rows.map fun row => (row.thingId, row.version))) =
        some (["lamp"], [("lamp", 2)]) ∧
    Always step (fun _ _ next => Lockstep next.tables) (boot noThings) lampRun :=
  ⟨by decide +kernel, (lockstep_iff lockstep_noThings lampRun).mpr (by decide +kernel)⟩

end Tio.ThingRepo
