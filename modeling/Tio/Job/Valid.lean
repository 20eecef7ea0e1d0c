import Tio.Job.Contexts
import Tio.Job.RateLimit

/-! The checks that a request to the management service passes (`types_valid.go`), and
what they promise for as long as the program runs: every window, limit and timeout that
the loops work with is one that was accepted. -/

namespace Tio.Job

open Tio.Core

/-- The zero value of `time.Time`, in milliseconds. -/
def zeroTime : Int := -62135596800000

structure SchedulingReq where
  startTime : Int
  endTime : Option Int
  endBehavior : String

structure RetryConfigItem where
  failureType : String
  numberOfRetries : Int

structure CreateReq where
  jobId : String
  operation : String
  description : String
  /-- The length of the document as JSON; nothing when it cannot be written. -/
  jobDoc : Option Nat
  targetType : String
  things : List String
  schedulingConfig : Option SchedulingReq
  rolloutConfig : Option RolloutConfig
  timeoutConfig : Option TimeoutConfig
  retryConfig : Option (List RetryConfigItem)

structure UpdateReq where
  description : Option String
  timeoutConfig : Option TimeoutConfig
  retryConfig : Option (List RetryConfigItem)

structure CancelReq where
  reasonCode : Option String
  comment : Option String

/-- `ScheduleEndBehavior.Of`. -/
def endBehaviorOf : String → Option ScheduleEndBehavior
  | "STOP_ROLLOUT" => some .stopRollout
  | "CANCEL" => some .cancel
  | "FORCE_CANCEL" => some .forceCancel
  | _ => none

def nameRegexp : String := "^[0-9a-zA-Z_-]{1,64}$"

/-- The text matches the expression. -/
def nameValid (text : String) : Bool :=
  0 < text.length && text.length ≤ 64 && text.toList.all fun c => c.isAlphanum || c = '_' || c = '-'

def SchedulingReq.valid (s : SchedulingReq) : Except String Unit :=
  if s.startTime = zeroTime ∨ s.endBehavior = "" then
    .error "scheduleConfig startTime and endBehavior can't be empty"
  else if endBehaviorOf s.endBehavior = none then
    .error "scheduleConfig endBehavior value is invalid: ScheduleEndBehavior: unknown enum"
  else if s.endTime.any fun finish => finish < s.startTime then
    .error "scheduleConfig startTime should before endTime"
  else .ok ()

def RolloutConfig.valid (c : RolloutConfig) : Except String Unit :=
  if c.maxPerMinute ≤ 0 then .error "rolloutConfig maxPerMinute must be positive" else .ok ()

def TimeoutConfig.valid (c : TimeoutConfig) : Except String Unit :=
  if c.inProgressMinutes < 1 ∨ 10080 < c.inProgressMinutes then
    .error "timoutConfig inProgressMinutes should between 1 and 10080"
  else .ok ()

/-- The loop over the criteria, with the failure types that it has seen. -/
def retryTypes : List RetryConfigItem → List String → Except String (List String)
  | [], typeList => .ok typeList
  | l :: rest, typeList =>
    if l.failureType ≠ "FAILED" ∧ l.failureType ≠ "TIMED_OUT" ∧ l.failureType ≠ "ALL" then
      .error "retryConfig failureType should be ALL, FAILED or TIMED_OUT"
    else if l.numberOfRetries < 0 ∨ 10 < l.numberOfRetries then
      .error "retryConfig numberOfRetries should between 0 and 10"
    else if l.failureType ∈ typeList then
      .error ("retryConfig duplicated failure type " ++ l.failureType)
    else retryTypes rest (typeList ++ [l.failureType])

def retryValid (criteria : List RetryConfigItem) : Except String Unit :=
  if criteria.length = 0 ∨ 2 < criteria.length then
    .error ("retryConfig wrong failure type count " ++ toString criteria.length)
  else
    match retryTypes criteria [] with
    | .error text => .error text
    | .ok typeList =>
      if 1 < typeList.length ∧ "ALL" ∈ typeList then
        .error "retryConfig failure type can't contain \"ALL\" and other"
      else .ok ()

/-- A config that is not there is valid. -/
def validIf {Config : Type} (valid : Config → Except String Unit) : Option Config → Except String Unit
  | some config => valid config
  | none => .ok ()

/-- What `valid` asks of the fields that are no configs. -/
def CreateReq.fieldsValid (r : CreateReq) : Except String Unit :=
  if r.jobId ≠ "" ∧ nameValid r.jobId = false then .error ("field `jobId` should match regex: " ++ nameRegexp)
  else if r.operation = "" then .error "field `operation` can't be empty"
  else if isSysOp r.operation = false ∧ "$".toList.isPrefixOf r.operation.toList = true then
    .error "only the system retention `operation` allows the beginning of the $ character"
  else if isSysOp r.operation = false ∧ nameValid r.operation = false then
    .error ("`operation` should match regex: " ++ nameRegexp)
  else if 250 < r.description.utf8ByteSize then
    .error "field `description` length should be less than 250"
  else
    match r.jobDoc with
    | none => .error "field `jobDoc` is not a json object"
    | some size =>
      if 60000 < size then .error "field `jobDoc` size should be less than 60000 byte"
      else if r.targetType = "" then .error "targetConfig type can't be empty"
      else if r.targetType ≠ "THING_ID" then .error "targetConfig type can only be \"THING_ID\" at present"
      else if r.things = [] then .error "targetConfig things can't be empty"
      else .ok ()

def CreateReq.valid (r : CreateReq) : Except String Unit := do
  r.fieldsValid
  validIf SchedulingReq.valid r.schedulingConfig
  validIf RolloutConfig.valid r.rolloutConfig
  validIf TimeoutConfig.valid r.timeoutConfig
  validIf retryValid r.retryConfig

def UpdateReq.valid (r : UpdateReq) : Except String Unit :=
  if r.description.any fun text => 250 < text.utf8ByteSize then
    .error "field `description` length should be less than 250"
  else do
    validIf TimeoutConfig.valid r.timeoutConfig
    validIf retryValid r.retryConfig

def CancelReq.valid (r : CancelReq) : Except String Unit :=
  if r.reasonCode.any fun text => 64 < text.utf8ByteSize then .error "reasonCode length should be less than 64"
  else if r.comment.any fun text => 250 < text.utf8ByteSize then .error "comment length should be less than 250"
  else .ok ()

def SchedulingReq.config (s : SchedulingReq) : Option SchedulingConfig :=
  (endBehaviorOf s.endBehavior).map fun endBehavior => ⟨s.startTime, s.endTime, endBehavior⟩

def UpdateReq.fields (r : UpdateReq) : UpdateFields :=
  if r.timeoutConfig.isNone && r.retryConfig.isNone then .description else .configs r.timeoutConfig

/-- The service takes the request on. The id of a job that has none is generated, and an
update of nothing goes no further. -/
inductive Accepted : Request → Prop
  | createJob (r : CreateReq) (jobId : String) (named : r.jobId ≠ "" → jobId = r.jobId) (checked : r.valid = .ok ()) :
      Accepted (.createJob jobId r.operation r.things (r.schedulingConfig.bind SchedulingReq.config)
        r.rolloutConfig r.timeoutConfig)
  | updateJob (jobId : String) (r : UpdateReq) (checked : r.valid = .ok ()) (changes : r ≠ ⟨none, none, none⟩) :
      Accepted (.updateJob jobId r.fields)
  | cancelJob (jobId : String) (force : Bool) (r : CancelReq) (checked : r.valid = .ok ()) :
      Accepted (.cancelJob jobId force)
  | deleteJob (jobId : String) (force : Bool) : Accepted (.deleteJob jobId force)
  | cancelTask (thingId jobId : String) (version : Int) (force : Bool) :
      Accepted (.cancelTask thingId jobId version force)
  | deleteTask (thingId jobId : String) (taskId : Int) (force : Bool) :
      Accepted (.deleteTask thingId jobId taskId force)

/-- Every request of the run was accepted. -/
def Action.Accepted : Action → Prop
  | .call r => Job.Accepted r
  | _ => True

def SchedulingConfig.Valid (c : SchedulingConfig) : Prop :=
  c.startTime ≠ zeroTime ∧ ∀ finish ∈ c.endTime, c.startTime ≤ finish

def RolloutConfig.Valid (c : RolloutConfig) : Prop := 0 < c.maxPerMinute

def TimeoutConfig.Valid (c : TimeoutConfig) : Prop := 1 ≤ c.inProgressMinutes ∧ c.inProgressMinutes ≤ 10080

/-- The configs of one job, where there are any. -/
structure ValidConfigs (scheduling : Option SchedulingConfig) (rollout : Option RolloutConfig)
    (timeout : Option TimeoutConfig) : Prop where
  scheduling : ∀ c ∈ scheduling, c.Valid
  rollout : ∀ c ∈ rollout, c.Valid
  timeout : ∀ c ∈ timeout, c.Valid

def JobEntity.Valid (j : JobEntity) : Prop := ValidConfigs j.scheduling j.rollout j.timeout

def JobContext.Valid (context : JobContext) : Prop :=
  ValidConfigs context.scheduling context.rollout context.timeout

def Request.Valid : Request → Prop
  | .createJob _ _ _ scheduling rollout timeout => ValidConfigs scheduling rollout timeout
  | .updateJob _ fields => ∀ c ∈ fields.timeout, c.Valid
  | _ => True

/-- Every config that is stored or worked with is valid. -/
structure Configured (s : State) : Prop where
  rows : ∀ jobId j, Assoc.get jobId s.db.jobs = some j → j.Valid
  works : ∀ jobId, Works JobContext.Valid jobId s.memory
  calls : ∀ call ∈ s.memory.calls, call.request.Valid
  contexts : ∀ jobId context, Assoc.get jobId s.memory.contexts = some context → context.Valid

/-- What the loops rely on for an item: its window does not end before its start, its
timeout is never ignored, and one pass hands over as many tasks as the limit still lets
through in this minute, or all of them. -/
structure Governed (now : Int) (v : PendingJobItem) : Prop where
  window : ∀ config ∈ v.context.scheduling, ∀ finish ∈ config.endTime, config.startTime ≤ finish
  minutes : timeoutMinutes v.context = v.context.timeout.map TimeoutConfig.inProgressMinutes
  timeout : ∀ limit ∈ timeoutMinutes v.context, 1 ≤ limit ∧ limit ≤ 10080
  rollout : ∀ config ∈ v.context.rollout, rolloutCount now v =
    min (config.maxPerMinute.toNat - Window.after (now - minute) v.rolloutStat) v.tasks.length
  unlimited : v.context.rollout = none → rolloutCount now v = v.tasks.length

section

variable {s s' : State} {a : Action} {jobId : String}

theorem validIf_eq_ok {Config : Type} {valid : Config → Except String Unit} {config : Option Config} :
    validIf valid config = .ok () ↔ ∀ c ∈ config, valid c = .ok () := by
  cases config <;> simp [validIf]

theorem seq_eq_ok {first next : Except String Unit} :
    (do first; next) = .ok () ↔ first = .ok () ∧ next = .ok () := by
  cases first <;> simp [bind, Except.bind]

theorem SchedulingReq.valid_of_checked {s : SchedulingReq} (checked : s.valid = .ok ()) {c : SchedulingConfig}
    (made : s.config = some c) : c.Valid := by
  obtain ⟨behavior, -, rfl⟩ := Option.map_eq_some_iff.mp made
  rw [SchedulingReq.valid] at checked
  split at checked
  · cases checked
  · rename_i given
    split at checked
    · cases checked
    · split at checked
      · cases checked
      · rename_i ordered
        refine ⟨fun zero => given (.inl zero), fun finish ends => ?_⟩
        by_contra before
        refine ordered ?_
        have ends : s.endTime = some finish := ends
        simpa [ends] using before

theorem RolloutConfig.valid_eq_ok {c : RolloutConfig} : c.valid = .ok () ↔ c.Valid := by
  rw [RolloutConfig.valid, RolloutConfig.Valid]
  split
  · rename_i none
    exact iff_of_false (by simp) (by omega)
  · rename_i some
    exact iff_of_true rfl (by omega)

theorem TimeoutConfig.valid_eq_ok {c : TimeoutConfig} : c.valid = .ok () ↔ c.Valid := by
  rw [TimeoutConfig.valid, TimeoutConfig.Valid]
  split
  · rename_i outside
    exact iff_of_false (by simp) (by omega)
  · rename_i inside
    exact iff_of_true rfl (by omega)

theorem UpdateReq.timeout_fields (r : UpdateReq) : r.fields.timeout = r.timeoutConfig := by
  rw [UpdateReq.fields]
  split
  · rename_i neither
    rw [Option.isNone_iff_eq_none.mp (Bool.and_eq_true_iff.mp neither).1, UpdateFields.timeout]
  · rfl

/-- What the service takes on has valid configs. -/
theorem Accepted.valid {r : Request} (accepted : Accepted r) : r.Valid := by
  cases accepted with
  | createJob r id named checked =>
    simp only [CreateReq.valid, seq_eq_ok, validIf_eq_ok] at checked
    obtain ⟨-, scheduling, rollout, timeout, -⟩ := checked
    refine ⟨fun c made => ?_, fun c asked => RolloutConfig.valid_eq_ok.mp (rollout c asked),
      fun c asked => TimeoutConfig.valid_eq_ok.mp (timeout c asked)⟩
    obtain ⟨asked, given, made⟩ := Option.bind_eq_some_iff.mp made
    exact SchedulingReq.valid_of_checked (scheduling asked given) made
  | updateJob id r checked changes =>
    rw [UpdateReq.valid] at checked
    split at checked
    · cases checked
    · simp only [seq_eq_ok, validIf_eq_ok] at checked
      obtain ⟨timeout, -⟩ := checked
      exact fun c asked => TimeoutConfig.valid_eq_ok.mp (timeout c (r.timeout_fields ▸ asked))
  | _ => trivial

/-- The item of the job keeps its timeout when the update has none. -/
theorem updateContext_or (other : String) (timeout : Option TimeoutConfig) (m : Memory) :
    m.updateContext other timeout = m ∨ ∃ i v, m.pendingJobs[i]? = some v ∧
      m.updateContext other timeout = { m with
        pendingJobs := m.pendingJobs.set i (v.withTimeout (timeout.or v.context.timeout))
        contexts := Assoc.set v.context.jobId (v.withTimeout (timeout.or v.context.timeout)).context m.contexts } := by
  rw [Memory.updateContext]
  split
  · split
    · rename_i v found
      exact .inr ⟨_, v, found, rfl⟩
    · exact .inl rfl
  · exact .inl rfl

theorem JobContext.Valid.withTimeout {context : JobContext} (valid : context.Valid) {timeout : Option TimeoutConfig}
    (fits : ∀ c ∈ timeout, c.Valid) : JobContext.Valid { context with timeout := timeout.or context.timeout } := by
  refine ⟨valid.scheduling, valid.rollout, fun c chosen => ?_⟩
  rcases Option.or_eq_some_iff.mp chosen with given | ⟨-, kept⟩
  · exact fits c given
  · exact valid.timeout c kept

/-- The timeout that an update of a row sets comes from a request. -/
theorem valid_change (calls : ∀ call ∈ s.memory.calls, call.request.Valid) {change : JobChange}
    (sent : Requests s.clock s.memory a (.updateJob jobId change)) : ∀ c ∈ change.timeout, c.Valid := by
  generalize same : DbOp.updateJob jobId change = op at sent
  cases sent with
  | updateJob ok k id timeout here =>
    cases same
    have fits := calls _ (List.mem_of_getElem? here)
    exact fits
  | preload _ _ _ _ _ _ finishes | drained _ _ _ _ _ _ _ finishes | checked _ _ _ _ _ _ finishes =>
    cases finishes <;> cases same
    simp
  | start | endJob | canceled =>
    cases same
    simp
  | _ => cases same

theorem configured_rows (configured : Configured s) (taken : step s a = some s') {j' : JobEntity}
    (stored' : Assoc.get jobId s'.db.jobs = some j') : j'.Valid := by
  rcases step_rowFrom taken stored' with same | ⟨op, sent, -, source⟩
  · exact configured.rows jobId j' same
  · cases source with
    | kept _ _ stored => exact configured.rows jobId j' stored
    | created _ missing =>
      cases sent with
      | createJob ok k _ operation things scheduling rollout timeout here =>
        have fits := configured.calls _ (List.mem_of_getElem? here)
        exact fits
      | preload _ _ _ _ _ _ finishes | drained _ _ _ _ _ _ _ finishes | checked _ _ _ _ _ _ finishes =>
        cases finishes
    | updated change j stored =>
      have old := configured.rows jobId j stored
      refine ⟨old.scheduling, old.rollout, fun c chosen => ?_⟩
      rcases Option.or_eq_some_iff.mp chosen with given | ⟨-, kept⟩
      · exact valid_change configured.calls sent c given
      · exact old.timeout c kept
    | canceled force j stored => exact configured.rows jobId j stored

theorem configured_calls (configured : Configured s) (accepted : a.Accepted) (taken : step s a = some s') :
    ∀ call ∈ s'.memory.calls, call.request.Valid := by
  intro call member
  obtain ⟨k, found⟩ := List.getElem?_of_mem member
  cases resume_calls (step_resume taken) found with
  | before _ _ _ here => exact configured.calls call (List.mem_of_getElem? here)
  | started r => exact Accepted.valid accepted
  | updated k id timeout here =>
    have fits := configured.calls _ (List.mem_of_getElem? here)
    exact fits
  | removed k r operation id force here =>
    have fits := configured.calls _ (List.mem_of_getElem? here)
    exact fits
  | served k ok old pc here => exact configured.calls old (List.mem_of_getElem? here)

/-- An update reaches the item and the context with a timeout from its request. -/
theorem configured_update {k : Nat} (configured : Configured s) (taken : step s (.recvUpdate k) = some s') :
    (∀ v ∈ s'.memory.pendingJobs, v.context.Valid) ∧
      ∀ jobId context, Assoc.get jobId s'.memory.contexts = some context → context.Valid := by
  have pending : ∀ v ∈ s.memory.pendingJobs, v.context.Valid :=
    fun v member => (configured.works v.context.jobId).pending v member rfl
  obtain ⟨other, timeout, idle, sender, same⟩ := resume_recvUpdate (step_resume taken)
  have fits : ∀ c ∈ timeout, c.Valid := configured.calls _ (List.mem_of_getElem? sender)
  rw [same]
  rcases updateContext_or other timeout s.memory with still | ⟨i, v, found, changed⟩
  · rw [still]
    exact ⟨pending, configured.contexts⟩
  · have valid : (v.withTimeout (timeout.or v.context.timeout)).context.Valid :=
      (pending v (List.mem_of_getElem? found)).withTimeout fits
    rw [changed]
    constructor
    · intro u member
      rcases List.mem_or_eq_of_mem_set member with old | rfl
      · exact pending u old
      · exact valid
    · intro id context held
      have held : Assoc.get id (Assoc.set v.context.jobId (v.withTimeout (timeout.or v.context.timeout)).context
        s.memory.contexts) = some context := held
      rw [Assoc.get_set] at held
      split at held
      · cases held
        exact valid
      · exact configured.contexts id context held

theorem configured_pending (configured : Configured s) (taken : step s a = some s') :
    ∀ v ∈ s'.memory.pendingJobs, v.context.Valid := by
  intro u member
  have pending : ∀ v ∈ s.memory.pendingJobs, v.context.Valid :=
    fun v within => (configured.works v.context.jobId).pending v within rfl
  cases resume_items (step_resume taken) member with
  | kept _ v _ present same => exact same ▸ pending v present
  | checked _ _ _ _ v _ found | reloaded _ _ _ v _ _ found | starts _ _ _ v _ found | ended _ _ _ v _ _ found =>
    exact pending v (List.mem_of_getElem? found)
  | updated k v timeout present => exact (configured_update configured taken).1 _ member
  | received i item sender =>
    exact (configured.works u.context.jobId).closures _ (List.mem_of_getElem? sender) _ rfl rfl
  | preloaded ok id j tasks rest stop =>
    exact (configured.works id).preload _ stop j tasks List.mem_cons_self

theorem configured_contexts (configured : Configured s) (taken : step s a = some s') (context : JobContext)
    (held : Assoc.get jobId s'.memory.contexts = some context) : context.Valid := by
  cases resume_contexts jobId (step_resume taken) with
  | kept _ same => exact configured.contexts jobId context (same ▸ held)
  | published _ i l v here found named set =>
    rw [held] at set
    cases set
    exact (configured.works jobId).pending v (List.mem_of_getElem? found) named
  | updated k v timeout member named set => exact (configured_update configured taken).2 jobId context held
  | cleared _ _ _ _ _ _ _ _ gone | removed _ _ _ _ _ _ gone | finished _ _ gone | forgotten _ _ _ gone
  | dropped _ _ _ _ _ gone =>
    rw [held] at gone
    cases gone

theorem configured_step (grounded : Grounded s) (configured : Configured s) (accepted : a.Accepted)
    (taken : step s a = some s') : Configured s' := by
  refine ⟨fun jobId j stored => configured_rows configured taken stored, fun jobId => ?_,
    configured_calls configured accepted taken, fun jobId context => configured_contexts configured taken context⟩
  have works := configured.works jobId
  have row := configured.rows jobId
  exact ⟨making_step grounded works.toMaking (fun j stored _ => row j stored) (fun j stored _ _ => row j stored) taken,
    fun v member _ => configured_pending configured taken v member⟩

theorem configured_boot {db : Db} (rows : ∀ jobId j, Assoc.get jobId db.jobs = some j → j.Valid) (clock : Int) :
    Configured (boot db clock) :=
  ⟨rows, fun jobId => works_boot _ jobId db clock, by simp [boot], by simp [boot]⟩

theorem governed_of_valid {v : PendingJobItem} (valid : v.context.Valid) (now : Int) : Governed now v := by
  have minutes : timeoutMinutes v.context = v.context.timeout.map TimeoutConfig.inProgressMinutes := by
    rw [timeoutMinutes]
    cases limit : v.context.timeout with
    | none => rfl
    | some c =>
      have within := (valid.timeout c limit).1
      have positive : ¬c.inProgressMinutes ≤ 0 := by omega
      simp [positive]
  refine ⟨fun config scheduled => (valid.scheduling config scheduled).2, minutes, fun limit limits => ?_,
    fun config limits => ?_, fun none => by rw [rolloutCount, none]⟩
  · rw [minutes] at limits
    obtain ⟨c, given, rfl⟩ := Option.map_eq_some_iff.mp limits
    exact valid.timeout c given
  · have positive : 0 < config.maxPerMinute := valid.rollout config limits
    have limits : v.context.rollout = some config := limits
    rw [rolloutCount, limits]
    dsimp only
    rw [if_pos positive, jobNextRolloutCount, curMinuteCount_eq]
    split <;> omega

end

/-- In a run whose requests were all accepted, from a database whose jobs were, every config
that is stored or that a loop works with is valid, and every item of the pending list is
governed by its own. -/
theorem accepted_configs (db : {db : Db // (Keyed db ∧ (Assoc.keys db.jobs).Nodup) ∧
      ∀ jobId j, Assoc.get jobId db.jobs = some j → j.Valid}) (clock : Int) (actions : List Action)
    (accepted : ∀ a ∈ actions, a.Accepted) :
    Always step (fun _ _ s' => Configured s' ∧ ∀ v ∈ s'.memory.pendingJobs, Governed s'.clock v)
      (boot db.1 clock) actions := by
  have conditions : Meets step (fun _ a => a.Accepted) (boot db.1 clock) actions :=
    meets_of_labels (fun a member _ => accepted a member) _
  refine Meets.always (fun s => Grounded s ∧ Configured s) (fun s a s' kept fine taken => ?_) conditions
    ⟨grounded_boot db.2.1.1 db.2.1.2 clock, configured_boot db.2.2 clock⟩
  have configured := configured_step kept.1 kept.2 fine taken
  refine ⟨⟨configured, fun v member => governed_of_valid ?_ _⟩, grounded_step kept.1 taken, configured⟩
  exact (configured.works v.context.jobId).pending v member rfl

/-- The timeout of a stored job is set to five minutes. -/
def patientRun : List Action := List.flatten [
  List.replicate 4 (.rollout true), [.call (.updateJob "a" (.configs (some ⟨5⟩)))],
  List.replicate 2 (.serve 0 true), [.recvUpdate 0]]

theorem patient_configs :
    (execute step (boot pacedDb 0) patientRun).map (fun s => s.memory.pendingJobs.map fun v => timeoutMinutes v.context) =
      some [some 5] ∧
    Always step (fun _ _ s' => Configured s' ∧ ∀ v ∈ s'.memory.pendingJobs, Governed s'.clock v)
      (boot pacedDb 0) patientRun := by
  have rows : ∀ jobId j, Assoc.get jobId pacedDb.jobs = some j → j.Valid := by
    intro jobId j stored
    obtain ⟨-, rfl⟩ : jobId = "a" ∧ j = toEntity "$updateShadow/x" ["lamp", "door"] none (some ⟨1⟩) none := by
      simpa [pacedDb] using Assoc.mem_of_get stored
    refine ⟨by simp [toEntity], fun c limit => ?_, by simp [toEntity]⟩
    obtain rfl : (⟨1⟩ : RolloutConfig) = c := by simpa [toEntity] using limit
    exact Int.one_pos
  refine ⟨by decide +kernel, accepted_configs ⟨pacedDb, by decide, rows⟩ 0 patientRun fun a member => ?_⟩
  cases a with
  | call r =>
    obtain rfl : r = .updateJob "a" (.configs (some ⟨5⟩)) := by simpa [patientRun] using member
    exact .updateJob "a" ⟨none, some ⟨5⟩, none⟩ rfl (by simp)
  | _ => trivial

end Tio.Job
