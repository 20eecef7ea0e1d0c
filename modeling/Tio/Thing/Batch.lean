import Tio.Thing.Lifecycle

/-! The creation of many things by one request (`CreateBatchHandler` of
`thing/api/http.go`): each is checked and created on its own, and the answer lists the
ones that were created beside the ones that were not. -/

namespace Tio.ThingRepo

open Tio.Core

structure CreateReq where
  thingId : String
  password : String
  deriving DecidableEq

structure InvalidCreate where
  thingId : String
  errorCode : String
  errorMsg : String

structure CreateBatchResp where
  invalidList : List InvalidCreate
  validList : List Thing

/-- The white space of Unicode. -/
def isSpace (c : Char) : Bool :=
  c.toNat ∈ [0x09, 0x0A, 0x0B, 0x0C, 0x0D, 0x20, 0x85, 0xA0, 0x1680, 0x2028, 0x2029, 0x202F, 0x205F, 0x3000] ||
    (0x2000 ≤ c.toNat && c.toNat ≤ 0x200A)

/-- `strings.TrimSpace` leaves the text as it is. -/
def isTrimmed (text : String) : Bool :=
  !text.toList.head?.any isSpace && !text.toList.getLast?.any isSpace

def CreateReq.validate (req : CreateReq) : Except String Unit :=
  if 64 < req.thingId.utf8ByteSize then .error "thingId length must be less than 64"
  else if 64 < req.password.utf8ByteSize then .error "password length must be less than 64"
  else if !isTrimmed req.thingId || !isTrimmed req.password then
    .error "thingId and password can't contain space character"
  else .ok ()

def CreateReq.batchValidate (req : CreateReq) : Except String Unit :=
  if req.thingId = "" then .error "batch create thingId can't be empty" else req.validate

/-- What the parts outside of the service answer to one creation. -/
structure Env where
  now : Int
  generated : Option String
  secret : Option String
  getAnswered : Bool
  insertAnswered : Bool

/-- The texts that other packages put into an error. -/
structure Texts where
  quote : String → String
  database : String
  generator : String

def Refusal.text (texts : Texts) (id : String) : Refusal → String
  | .idGenerate => "id generate: " ++ texts.generator
  | .invalidParams => "id " ++ texts.quote id ++ ": invalid parameters"
  | .getThing => "get thing " ++ id ++ ": " ++ texts.database
  | .duplicated => "entity already exists"
  | .secretGenerate => "secret generate: " ++ texts.generator
  | .insert => texts.database

/-- `Create` of the service with nothing between its check and its insertion. -/
def svcCreate (env : Env) (th : Thing) (t : Tables) : Except Refusal (Tables × Thing) := do
  let th ← prepare t env.generated env.secret env.getAnswered th
  match if env.insertAnswered then create env.now th t else none with
  | some next => .ok (next, toThing (toEntity env.now th))
  | none => .error .insert

def CreateReq.thing (req : CreateReq) : Thing :=
  { id := req.thingId, enabled := true, authType := authTypePassword, authValue := req.password
    updatedAt := 0, createdAt := 0 }

/-- One turn of the loop. -/
def createNext (texts : Texts) (req : CreateReq) (env : Env) (t : Tables) (resp : CreateBatchResp) :
    Tables × CreateBatchResp :=
  match req.batchValidate with
  | .error msg => (t, { resp with invalidList := resp.invalidList ++
      [⟨req.thingId, "Illegal", "Invalid request for create thing: " ++ msg⟩] })
  | .ok () =>
    match svcCreate env req.thing t with
    | .error refusal => (t, { resp with invalidList := resp.invalidList ++
        [⟨req.thingId, "InternalFailureException", refusal.text texts req.thingId⟩] })
    | .ok (next, th) => (next, { resp with validList := resp.validList ++ [th] })

def createLoop (texts : Texts) : List (CreateReq × Env) → Tables → CreateBatchResp → Tables × CreateBatchResp
  | [], t, resp => (t, resp)
  | (req, env) :: rest, t, resp =>
    createLoop texts rest (createNext texts req env t resp).1 (createNext texts req env t resp).2

/-- `none` is the answer to a request that is too long. -/
def createBatch (texts : Texts) (reqs : List (CreateReq × Env)) (t : Tables) :
    Option (Tables × CreateBatchResp) :=
  if 1000 < reqs.length then none else some (createLoop texts reqs t ⟨[], []⟩)

def ids (reqs : List (CreateReq × Env)) : List String := reqs.map fun entry => entry.1.thingId

def CreateBatchResp.created (resp : CreateBatchResp) : List String := resp.validList.map Thing.id

def CreateBatchResp.refused (resp : CreateBatchResp) : List String := resp.invalidList.map InvalidCreate.thingId

/-- The request passes the check of the handler and that of the service. -/
def Acceptable (req : CreateReq) : Prop := req.batchValidate = .ok () ∧ Tio.Thing.idValid req.thingId = true

/-- The database and the generator of secrets answer. -/
def Env.answers (env : Env) : Prop :=
  env.getAnswered = true ∧ env.insertAnswered = true ∧ env.secret.isSome = true

/-- What the loop makes of the tables and of the answer. -/
structure Batched (reqs : List (CreateReq × Env)) (t : Tables) (resp : CreateBatchResp)
    (t' : Tables) (resp' : CreateBatchResp) : Prop where
  lockstep : Lockstep t'
  /-- The new rows are those of the answer, in its order. -/
  things : ∃ rows, t'.things.rows = t.things.rows ++ rows ∧
    resp'.validList = resp.validList ++ rows.map toThing
  /-- Every request is in one of the two lists, which are in the order of the requests. -/
  shared : ∃ created refused, resp'.created = resp.created ++ created ∧
    resp'.refused = resp.refused ++ refused ∧ (created ++ refused).Perm (ids reqs) ∧
      created.Sublist (ids reqs) ∧ refused.Sublist (ids reqs)
  /-- A thing is created for an acceptable request whose id is new. -/
  only : ∀ id ∈ resp'.created, id ∈ resp.created ∨
    id ∉ t.things.keys ∧ ∃ entry ∈ reqs, entry.1.thingId = id ∧ Acceptable entry.1
  /-- It is created when everything answers. -/
  every : (∀ entry ∈ reqs, entry.2.answers) → ∀ entry ∈ reqs, Acceptable entry.1 →
    entry.1.thingId ∉ t.things.keys → entry.1.thingId ∈ resp'.created

section

variable {t next t' : Tables} {th : Thing} {env : Env} {req : CreateReq} {texts : Texts}
  {resp resp' : CreateBatchResp}

theorem mem_batch_keys (t : Tables) (id : String) : id ∈ t.things.keys ↔ (t.things.find id).isSome = true := by
  rw [← not_iff_not, ← Keyed.find_eq_none_iff, Bool.not_eq_true, Option.isSome_eq_false_iff,
    Option.isNone_iff_eq_none]

theorem newId_eq_ok (named : req.thingId ≠ "") {id : String} :
    newId t env.generated env.getAnswered req.thing = .ok id ↔
      Tio.Thing.idValid req.thingId = true ∧ env.getAnswered = true ∧ req.thingId ∉ t.things.keys ∧
        id = req.thingId := by
  have same : req.thing.id = req.thingId := rfl
  rw [newId.eq_def, same, if_neg named, mem_batch_keys]
  cases Tio.Thing.idValid req.thingId with
  | false => simp
  | true =>
    cases env.getAnswered with
    | false => simp
    | true =>
      cases (t.things.find req.thingId).isSome with
      | true => simp
      | false => simp [eq_comm]

/-- The thing that the service hands to the insertion has the id of the request. -/
theorem prepare_eq_ok (named : req.thingId ≠ "")
    (done : prepare t env.generated env.secret env.getAnswered req.thing = .ok th) :
    Tio.Thing.idValid req.thingId = true ∧ req.thingId ∉ t.things.keys ∧ th.id = req.thingId := by
  obtain ⟨id, named', rest⟩ := Shadow.bind_eq_ok.mp done
  obtain ⟨valid, -, fresh, rfl⟩ := (newId_eq_ok named).mp named'
  exact ⟨valid, fresh, credential_id rest⟩

theorem prepare_answers (named : req.thingId ≠ "") (answers : env.answers)
    (valid : Tio.Thing.idValid req.thingId = true) (fresh : req.thingId ∉ t.things.keys) :
    ∃ th, prepare t env.generated env.secret env.getAnswered req.thing = .ok th := by
  have named' : newId t env.generated env.getAnswered req.thing = .ok req.thingId :=
    (newId_eq_ok named).mpr ⟨valid, answers.1, fresh, rfl⟩
  obtain ⟨th, done⟩ := credential_answers answers.2.2 { req.thing with
    id := req.thingId, authType := if req.thing.authType = "" then authTypePassword else req.thing.authType }
  exact ⟨th, Shadow.bind_eq_ok.mpr ⟨_, named', done⟩⟩

theorem create_things {now : Int} (created : create now th t = some next) :
    next.things.rows = t.things.rows ++ [toEntity now th] := by
  obtain ⟨things, inThings, created⟩ := Option.bind_eq_some_iff.mp created
  obtain ⟨shadows, inShadows, created⟩ := Option.bind_eq_some_iff.mp created
  obtain ⟨connStatuses, inStatuses, created⟩ := Option.bind_eq_some_iff.mp created
  cases created
  exact (Keyed.insert_eq_some_iff.mp inThings).2

/-- In tables that are in step the transaction goes through when the id is new. -/
theorem create_of_fresh (now : Int) (lockstep : Lockstep t) (fresh : th.id ∉ t.things.keys) :
    ∃ next, create now th t = some next := by
  have inserts : ∀ {Row : Type} {key : Row → String} (table : Keyed key) (row : Row), key row ∉ table.keys →
      ∃ next, table.insert row = some next := fun table row new => ⟨_, by rw [Keyed.insert, dif_neg new]⟩
  obtain ⟨things, inThings⟩ := inserts t.things (toEntity now th) fresh
  obtain ⟨shadows, inShadows⟩ := inserts t.shadows (firstShadow now th.id)
    fun held => fresh ((lockstep.shadows _).mp held)
  obtain ⟨connStatuses, inStatuses⟩ := inserts t.connStatuses (firstConnStatus now th.id)
    fun held => fresh ((lockstep.connStatuses _).mp held)
  exact ⟨_, by rw [create, inThings, inShadows, inStatuses]; rfl⟩

/-- One turn refuses the request and leaves the tables, or creates a thing whose id is new. -/
inductive Turn (req : CreateReq) (t : Tables) (resp : CreateBatchResp) : Tables → CreateBatchResp → Prop
  | refused (invalid : InvalidCreate) (same : invalid.thingId = req.thingId) :
      Turn req t resp t { resp with invalidList := resp.invalidList ++ [invalid] }
  | created (row : Entity) (next : Tables) (acceptable : Acceptable req) (fresh : req.thingId ∉ t.things.keys)
      (same : row.id = req.thingId) (lockstep : Lockstep next)
      (things : next.things.rows = t.things.rows ++ [row]) :
      Turn req t resp next { resp with validList := resp.validList ++ [toThing row] }

theorem named_of_batchValidate (checked : req.batchValidate = .ok ()) : req.thingId ≠ "" := by
  intro empty
  rw [CreateReq.batchValidate, if_pos empty] at checked
  cases checked

theorem turn_createNext (lockstep : Lockstep t) :
    Turn req t resp (createNext texts req env t resp).1 (createNext texts req env t resp).2 := by
  rw [createNext]
  split
  · exact .refused _ rfl
  · rename_i checked
    split
    · exact .refused _ rfl
    · rename_i next th done
      obtain ⟨made, prepared, rest⟩ := Shadow.bind_eq_ok.mp done
      obtain ⟨valid, fresh, same⟩ := prepare_eq_ok (named_of_batchValidate checked) prepared
      split at rest
      · rename_i inserted
        cases rest
        split at inserted
        · exact .created (toEntity env.now made) _ ⟨checked, valid⟩ fresh same
            (lockstep_create lockstep inserted) (create_things inserted)
        · cases inserted
      · cases rest

theorem created_createNext (lockstep : Lockstep t) (answers : env.answers) (acceptable : Acceptable req)
    (fresh : req.thingId ∉ t.things.keys) : req.thingId ∈ (createNext texts req env t resp).2.created := by
  obtain ⟨checked, valid⟩ := acceptable
  have named := named_of_batchValidate checked
  obtain ⟨made, prepared⟩ := prepare_answers named answers valid fresh
  obtain ⟨-, -, same⟩ := prepare_eq_ok named prepared
  obtain ⟨next, inserted⟩ := create_of_fresh env.now lockstep (same ▸ fresh)
  have done : svcCreate env req.thing t = .ok (next, toThing (toEntity env.now made)) := by
    simp only [svcCreate, prepared, bind, Except.bind, answers.2.1, ↓reduceIte, inserted]
  rw [createNext, checked, done]
  simp [CreateBatchResp.created, toThing, toEntity, same]

/-- A turn before a loop; what it creates is what its request asks for. -/
theorem Batched.cons {entry : CreateReq × Env} {rest : List (CreateReq × Env)} {resp'' : CreateBatchResp}
    (turn : Turn entry.1 t resp next resp'') (later : Batched rest next resp'' t' resp')
    (answered : entry.2.answers → Acceptable entry.1 → entry.1.thingId ∉ t.things.keys →
      entry.1.thingId ∈ resp''.created) :
    Batched (entry :: rest) t resp t' resp' := by
  obtain ⟨rows, onThings, onValid⟩ := later.things
  obtain ⟨created, refused, isCreated, isRefused, shared, createdIn, refusedIn⟩ := later.shared
  cases turn with
  | refused invalid same =>
    refine ⟨later.lockstep, ⟨rows, onThings, onValid⟩, ⟨created, invalid.thingId :: refused, isCreated, ?_⟩, ?_, ?_⟩
    · refine ⟨?_, ?_, createdIn.cons _, ?_⟩
      · simpa [CreateBatchResp.refused] using isRefused
      · rw [same]
        exact List.perm_middle.trans (shared.cons _)
      · rw [same]
        exact refusedIn.cons_cons _
    · intro id inside
      rcases later.only id inside with before | ⟨fresh, other, member, asked⟩
      · exact .inl before
      · exact .inr ⟨fresh, other, List.mem_cons_of_mem _ member, asked⟩
    · intro answers other member acceptable fresh
      rcases List.mem_cons.mp member with rfl | later'
      · rw [isCreated]
        exact List.mem_append_left _ (answered (answers other List.mem_cons_self) acceptable fresh)
      · exact later.every (fun e inside => answers e (List.mem_cons_of_mem _ inside)) other later' acceptable fresh
  | created row next acceptable fresh same lockstep things =>
    have keys : ∀ id, id ∈ next.things.keys ↔ id ∈ t.things.keys ∨ id = entry.1.thingId := by
      intro id
      rw [Keyed.keys, things, List.map_append, List.mem_append, List.map_cons, List.map_nil,
        List.mem_singleton, same, Keyed.keys]
    have front : CreateBatchResp.created { resp with validList := resp.validList ++ [toThing row] } =
        resp.created ++ [entry.1.thingId] := by
      simp [CreateBatchResp.created, toThing, same]
    rw [front, List.append_assoc, List.singleton_append] at isCreated
    refine ⟨later.lockstep, ⟨row :: rows, ?_, ?_⟩, ⟨entry.1.thingId :: created, refused, isCreated, isRefused,
      shared.cons _, createdIn.cons_cons _, refusedIn.cons _⟩, ?_, ?_⟩
    · rw [onThings, things, List.append_assoc, List.singleton_append]
    · rw [onValid, List.append_assoc, List.singleton_append, List.map_cons]
    · intro id inside
      rcases later.only id inside with before | ⟨fresh', other, member, asked⟩
      · rw [front, List.mem_append, List.mem_singleton] at before
        rcases before with before | rfl
        · exact .inl before
        · exact .inr ⟨fresh, entry, List.mem_cons_self, rfl, acceptable⟩
      · exact .inr ⟨fun held => fresh' ((keys id).mpr (.inl held)), other, List.mem_cons_of_mem _ member, asked⟩
    · intro answers other member acceptable' fresh'
      by_cases twin : other.1.thingId = entry.1.thingId
      · rw [isCreated, twin]
        exact List.mem_append_right _ List.mem_cons_self
      · rcases List.mem_cons.mp member with rfl | later'
        · exact absurd rfl twin
        · exact later.every (fun e inside => answers e (List.mem_cons_of_mem _ inside)) other later' acceptable'
            fun held => ((keys _).mp held).elim fresh' twin

theorem batched_createLoop (texts : Texts) (reqs : List (CreateReq × Env)) (lockstep : Lockstep t)
    (resp : CreateBatchResp) :
    Batched reqs t resp (createLoop texts reqs t resp).1 (createLoop texts reqs t resp).2 := by
  induction reqs generalizing t resp with
  | nil =>
    refine ⟨lockstep, ⟨[], by simp [createLoop], by simp [createLoop]⟩,
      ⟨[], [], by simp [createLoop], by simp [createLoop], by simp [ids], by simp, by simp⟩, ?_, ?_⟩
    · exact fun id inside => .inl inside
    · exact fun _ entry member => absurd member List.not_mem_nil
  | cons entry rest ih =>
    have turn : Turn entry.1 t resp (createNext texts entry.1 entry.2 t resp).1
        (createNext texts entry.1 entry.2 t resp).2 := turn_createNext lockstep
    refine Batched.cons turn (ih ?_ _) fun answers acceptable fresh =>
      created_createNext lockstep answers acceptable fresh
    cases made : createNext texts entry.1 entry.2 t resp with
    | mk next resp'' =>
      rw [made] at turn
      cases turn with
      | refused => exact lockstep
      | created row next acceptable fresh same after things => exact after

/-- The batch creates one thing for each id that an acceptable request names and no row
has, once, whatever else is asked; every request is answered in one of the two lists, and
the tables hold exactly the things of the answer on top of what they held. -/
theorem batch_created (texts : Texts) {reqs : List (CreateReq × Env)} {t t' : Tables} {resp : CreateBatchResp}
    (lockstep : Lockstep t) (done : createBatch texts reqs t = some (t', resp)) :
    Lockstep t' ∧ (∃ rows, t'.things.rows = t.things.rows ++ rows ∧ resp.validList = rows.map toThing) ∧
      resp.created.Nodup ∧ (resp.created ++ resp.refused).Perm (ids reqs) ∧
      resp.created.Sublist (ids reqs) ∧ resp.refused.Sublist (ids reqs) ∧
      ((∀ entry ∈ reqs, entry.2.answers) → ∀ id, id ∈ resp.created ↔
        id ∉ t.things.keys ∧ ∃ entry ∈ reqs, entry.1.thingId = id ∧ Acceptable entry.1) := by
  rw [createBatch] at done
  split at done
  · cases done
  · obtain ⟨rfl, rfl⟩ := Prod.ext_iff.mp (Option.some.inj done)
    have batched := batched_createLoop texts reqs lockstep ⟨[], []⟩
    obtain ⟨rows, onThings, onValid⟩ := batched.things
    obtain ⟨created, refused, isCreated, isRefused, shared, createdIn, refusedIn⟩ := batched.shared
    replace isCreated : (createLoop texts reqs t ⟨[], []⟩).2.created = created := isCreated
    replace isRefused : (createLoop texts reqs t ⟨[], []⟩).2.refused = refused := isRefused
    refine ⟨batched.lockstep, ⟨rows, onThings, by rw [onValid, List.nil_append]⟩, ?_,
      by rw [isCreated, isRefused]; exact shared, by rw [isCreated]; exact createdIn,
      by rw [isRefused]; exact refusedIn, fun answers id => ⟨fun inside => ?_, ?_⟩⟩
    · -- the ids of the new rows are keys of the table
      have distinct := (createLoop texts reqs t ⟨[], []⟩).1.things.primaryKey
      rw [onThings, List.map_append] at distinct
      rw [CreateBatchResp.created, onValid, List.nil_append, List.map_map]
      exact (List.nodup_append.mp distinct).2.1
    · exact (batched.only id inside).resolve_left List.not_mem_nil
    · rintro ⟨fresh, entry, member, rfl, acceptable⟩
      exact batched.every answers entry member acceptable fresh

def lampTwice : List (CreateReq × Env) :=
  List.replicate 2 (⟨"lamp", ""⟩, ⟨1000, none, some "secret", true, true⟩)

/-- A batch that names an id twice creates one thing and refuses the other. -/
theorem lamp_created_once : ∃ t' resp, createBatch ⟨id, "", ""⟩ lampTwice noThings = some (t', resp) ∧
    resp.created.Nodup ∧ (resp.created ++ resp.refused).Perm ["lamp", "lamp"] := by
  refine ⟨_, _, rfl, ?_⟩
  obtain ⟨-, -, once, shared, -⟩ := batch_created ⟨id, "", ""⟩ lockstep_noThings
    (rfl : createBatch ⟨id, "", ""⟩ lampTwice noThings = some (_, _))
  exact ⟨once, shared⟩

end

end Tio.ThingRepo
