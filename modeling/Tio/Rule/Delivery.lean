import Mathlib.Data.List.Perm.Basic
import Tio.Core.Run
import Tio.Json.Value

/-! Data integration rules (`rule/rule.go`, `rule/boot.go`). A rule gives each of its
sources a handler, and a source holds one handler, whichever rule gave it last. -/

namespace Tio.Rule

open Tio.Core Tio.Json

abbrev Bytes := List UInt8

structure Msg where
  thingId : String
  topic : String
  payload : Bytes
deriving DecidableEq

/-- How payloads are read and written. -/
structure Codec where
  unmarshal : Bytes → Option Value
  marshal : Value → Option Bytes

/-- A processor runs its query, which may fail. -/
inductive Process
  | filter (run : Value → Option Bool)
  | trans (run : Value → Option Value)

structure RuleImpl where
  name : String
  sources : List String
  processors : List Process
  sinks : List String

def msgToProcessInput (msg : Msg) (payload : Value) : Value :=
  .obj [("thingId", .str msg.thingId), ("topic", .str msg.topic), ("payload", payload)]

/-- The last input, and whether it was transformed; nothing when a processor stops. -/
def runProcessors : List Process → Value → Bool → Option (Value × Bool)
  | [], input, hasTrans => some (input, hasTrans)
  | .filter run :: rest, input, hasTrans =>
    match run input with
    | some true => runProcessors rest input hasTrans
    | _ => none
  | .trans run :: rest, input, _ =>
    match run input with
    | some o => runProcessors rest o true
    | none => none

def process (codec : Codec) (r : RuleImpl) (msg : Msg) : Option Bytes :=
  if r.processors.isEmpty then some msg.payload
  else do
    let payload ← codec.unmarshal msg.payload
    let (input, hasTrans) ← runProcessors r.processors (msgToProcessInput msg payload) false
    if hasTrans then codec.marshal input else some msg.payload

/-- What a handler submits to the pool: the message with the number, for its rule. -/
structure Task where
  number : Nat
  rule : RuleImpl
  msg : Msg

structure Published where
  number : Nat
  rule : String
  sink : String
  msg : Msg
deriving DecidableEq

/-- A message that arrived, and the rules that were running then. -/
structure Arrival where
  source : String
  msg : Msg
  running : List RuleImpl

structure State where
  handlers : List (String × RuleImpl)
  running : List RuleImpl
  arrivals : List Arrival
  tasks : List Task
  processed : List (Nat × String)
  published : List Published

inductive Action
  | start (r : RuleImpl)
  | stop (r : RuleImpl)
  /-- The pool takes the task of the handler, or it is full. -/
  | message (source : String) (msg : Msg) (accepted : Bool)
  | run (i : Nat)

def onMsg (source : String) (h : Option RuleImpl) (s : State) : State :=
  { s with handlers := Assoc.put source h s.handlers }

def others (r : RuleImpl) (running : List RuleImpl) : List RuleImpl := running.filter fun other => other.name ≠ r.name

def start (r : RuleImpl) (s : State) : State :=
  { r.sources.foldl (fun s source => onMsg source (some r) s) s with running := r :: others r s.running }

def stop (r : RuleImpl) (s : State) : State :=
  { r.sources.foldl (fun s source => onMsg source none s) s with running := others r s.running }

def handle (source : String) (msg : Msg) (accepted : Bool) (s : State) : State :=
  { s with
    arrivals := s.arrivals ++ [⟨source, msg, s.running⟩]
    tasks := match Assoc.get source s.handlers with
      | some r => if accepted then s.tasks ++ [⟨s.arrivals.length, r, msg⟩] else s.tasks
      | none => s.tasks }

/-- The task publishes to one sink after the other. -/
def publishAll (t : Task) : Option Bytes → List Published
  | some out => t.rule.sinks.map fun sink => ⟨t.number, t.rule.name, sink, { t.msg with payload := out }⟩
  | none => []

def runTask (codec : Codec) (i : Nat) (t : Task) (s : State) : State :=
  { s with
    tasks := s.tasks.eraseIdx i
    processed := s.processed ++ [(t.number, t.rule.name)]
    published := s.published ++ publishAll t (process codec t.rule t.msg) }

def step (codec : Codec) (s : State) : Action → Option State
  | .start r => some (start r s)
  | .stop r => some (stop r s)
  | .message source msg accepted => some (handle source msg accepted s)
  | .run i => (s.tasks[i]?).map fun t => runTask codec i t s

def empty : State := ⟨[], [], [], [], [], []⟩

/-- Every rule is started once, in the order in which the map is walked. -/
def boot (order : List RuleImpl) : State := order.foldl (fun s r => start r s) empty

def Task.key (t : Task) : Nat × String := (t.number, t.rule.name)

/-- The messages that a rule has taken or will take. -/
def State.keys (s : State) : List (Nat × String) := s.tasks.map Task.key ++ s.processed

/-- How often the rule published the message to the sink. -/
def State.publishedTo (s : State) (number : Nat) (rule sink : String) : Nat :=
  s.published.countP fun p => p.number = number && p.rule = rule && p.sink = sink

/-- Every rule that ran when a message arrived at one of its sources takes the message
once, and publishes it once to each of its sinks when its processors accept it. -/
def Delivered (codec : Codec) (s : State) : Prop :=
  ∀ number arrival, s.arrivals[number]? = some arrival →
    ∀ r ∈ arrival.running, arrival.source ∈ r.sources →
      s.keys.count (number, r.name) = 1 ∧
      ((number, r.name) ∈ s.processed → ∀ sink ∈ r.sinks,
        s.publishedTo number r.name sink = if (process codec r arrival.msg).isSome then 1 else 0)

/-- The rules that the configuration names; a name stands for one rule. -/
structure Config where
  rules : List RuleImpl
  distinct : (rules.map RuleImpl.name).Nodup

/-- The rules of the configuration are started and stopped, and the pool has room. -/
def Config.Admits (config : Config) : Action → Prop
  | .start r | .stop r => r ∈ config.rules
  | .message _ _ accepted => accepted = true
  | .run _ => True

/-- No source has two rules, and a rule with a source that can accept a message names
no sink twice. -/
structure Config.Unshared (codec : Codec) (config : Config) : Prop where
  sources : ∀ r ∈ config.rules, ∀ other ∈ config.rules, ∀ source ∈ r.sources,
    source ∈ other.sources → r = other
  sinks : ∀ r ∈ config.rules, r.sources ≠ [] → ∀ msg, (process codec r msg).isSome = true → r.sinks.Nodup

section

variable {codec : Codec} {config : Config} {s s' : State} {a : Action}

theorem get_foldl_onMsg (h : Option RuleImpl) (sources : List String) (s : State) (source : String) :
    Assoc.get source (sources.foldl (fun s source => onMsg source h s) s).handlers =
      if source ∈ sources then h else Assoc.get source s.handlers := by
  induction sources generalizing s with
  | nil => simp
  | cons first rest ih =>
    rw [List.foldl_cons, ih, onMsg, Assoc.get_put]
    by_cases later : source ∈ rest
    · simp [later]
    · by_cases here : first = source
      · simp [here]
      · simp [later, here, Ne.symm here]

theorem foldl_onMsg (h : Option RuleImpl) (sources : List String) (s : State) :
    sources.foldl (fun s source => onMsg source h s) s =
      { s with handlers := (sources.foldl (fun s source => onMsg source h s) s).handlers } := by
  induction sources generalizing s with
  | nil => rfl
  | cons first rest ih =>
    rw [List.foldl_cons, ih]
    rfl

/-- A running rule is one of the configuration, and has the handlers of its sources. -/
structure Wired (config : Config) (s : State) : Prop where
  running : ∀ r ∈ s.running, r ∈ config.rules
  handlers : ∀ source r, Assoc.get source s.handlers = some r → r ∈ config.rules ∧ r.sources ≠ []
  owned : ∀ r ∈ s.running, ∀ source ∈ r.sources, Assoc.get source s.handlers = some r

theorem mem_others {r other : RuleImpl} {running : List RuleImpl} :
    other ∈ others r running ↔ other ∈ running ∧ other.name ≠ r.name := by simp [others]

theorem wired_start (unshared : config.Unshared codec) (wired : Wired config s) {r : RuleImpl}
    (listed : r ∈ config.rules) : Wired config (start r s) := by
  refine ⟨fun other member => ?_, fun source other found => ?_, fun other member source own => ?_⟩
  · rcases List.mem_cons.mp member with rfl | old
    · exact listed
    · exact wired.running other (mem_others.mp old).1
  · simp only [start, get_foldl_onMsg] at found
    split at found
    · rename_i own
      cases found
      exact ⟨listed, List.ne_nil_of_mem own⟩
    · exact wired.handlers source other found
  · simp only [start, get_foldl_onMsg]
    rcases List.mem_cons.mp member with rfl | old
    · rw [if_pos own]
    · obtain ⟨ran, apart⟩ := mem_others.mp old
      have free : source ∉ r.sources := by
        intro shared
        exact apart (congrArg RuleImpl.name (unshared.sources other (wired.running other ran) r listed source own shared))
      rw [if_neg free]
      exact wired.owned other ran source own

theorem wired_stop (unshared : config.Unshared codec) (wired : Wired config s) {r : RuleImpl}
    (listed : r ∈ config.rules) : Wired config (stop r s) := by
  refine ⟨fun other member => ?_, fun source other found => ?_, fun other member source own => ?_⟩
  · exact wired.running other (mem_others.mp member).1
  · simp only [stop, get_foldl_onMsg] at found
    split at found
    · cases found
    · exact wired.handlers source other found
  · simp only [stop, get_foldl_onMsg]
    obtain ⟨ran, apart⟩ := mem_others.mp member
    have free : source ∉ r.sources := by
      intro shared
      exact apart (congrArg RuleImpl.name (unshared.sources other (wired.running other ran) r listed source own shared))
    rw [if_neg free]
    exact wired.owned other ran source own

/-- What is submitted, processed and published belongs to messages that arrived. -/
structure Accounted (codec : Codec) (config : Config) (s : State) : Prop where
  once : s.keys.Nodup
  tasks : ∀ t ∈ s.tasks, t.rule ∈ config.rules ∧
    ∃ arrival, s.arrivals[t.number]? = some arrival ∧ arrival.msg = t.msg ∧ t.rule.sources ≠ []
  past : ∀ key ∈ s.keys, key.1 < s.arrivals.length
  taken : ∀ number arrival, s.arrivals[number]? = some arrival → ∀ r ∈ arrival.running,
    arrival.source ∈ r.sources → r ∈ config.rules ∧ (number, r.name) ∈ s.keys
  published : ∀ number arrival, s.arrivals[number]? = some arrival → ∀ r ∈ config.rules,
    (number, r.name) ∈ s.processed → ∀ sink ∈ r.sinks,
      s.publishedTo number r.name sink = if (process codec r arrival.msg).isSome then 1 else 0
  unpublished : ∀ number rule, (number, rule) ∉ s.processed → ∀ sink, s.publishedTo number rule sink = 0

theorem delivered_of_accounted (accounted : Accounted codec config s) : Delivered codec s := by
  intro number arrival found r ran own
  obtain ⟨listed, member⟩ := accounted.taken number arrival found r ran own
  refine ⟨List.count_eq_one_of_mem accounted.once member, fun processed => ?_⟩
  exact accounted.published number arrival found r listed processed

theorem accounted_congr (accounted : Accounted codec config s) (arrivals : s'.arrivals = s.arrivals)
    (tasks : s'.tasks = s.tasks) (processed : s'.processed = s.processed)
    (published : s'.published = s.published) : Accounted codec config s' := by
  have keys : s'.keys = s.keys := by rw [State.keys, State.keys, tasks, processed]
  have publishedTo : s'.publishedTo = s.publishedTo := by
    funext number rule sink
    rw [State.publishedTo, State.publishedTo, published]
  obtain ⟨once, given, past, taken, shown, hidden⟩ := accounted
  constructor
  · rwa [keys]
  · rwa [tasks, arrivals]
  · rwa [keys, arrivals]
  · rwa [keys, arrivals]
  · rwa [arrivals, processed, publishedTo]
  · rwa [processed, publishedTo]

theorem handle_tasks (source : String) (msg : Msg) (s : State) :
    (handle source msg true s).tasks =
      s.tasks ++ (Assoc.get source s.handlers).toList.map fun r => ⟨s.arrivals.length, r, msg⟩ := by
  simp only [handle, if_true]
  cases Assoc.get source s.handlers with
  | none => simp
  | some r => rfl

theorem mem_handle_keys {source : String} {msg : Msg} {key : Nat × String} :
    key ∈ (handle source msg true s).keys ↔
      key ∈ s.keys ∨ ∃ r, Assoc.get source s.handlers = some r ∧ key = (s.arrivals.length, r.name) := by
  rw [State.keys, handle_tasks]
  simp only [State.keys, handle, List.map_append, List.map_map, List.mem_append, List.mem_map,
    Option.mem_toList, Function.comp_apply, Task.key, eq_comm (a := key)]
  exact or_right_comm

theorem arrival_cases {source : String} {msg : Msg} {number : Nat} {arrival : Arrival}
    (found : (handle source msg true s).arrivals[number]? = some arrival) :
    s.arrivals[number]? = some arrival ∨
      number = s.arrivals.length ∧ arrival = ⟨source, msg, s.running⟩ := by
  simp only [handle] at found
  by_cases inside : number < s.arrivals.length
  · rw [List.getElem?_append_left inside] at found
    exact .inl found
  · rw [List.getElem?_append_right (by omega)] at found
    right
    have here := List.mem_of_getElem? found
    obtain ⟨place, -⟩ := List.getElem?_eq_some_iff.mp found
    simp only [List.length_singleton] at place
    exact ⟨by omega, List.mem_singleton.mp here⟩

theorem accounted_handle (wired : Wired config s) (accounted : Accounted codec config s)
    (source : String) (msg : Msg) : Accounted codec config (handle source msg true s) := by
  have fresh : ∀ rule, (s.arrivals.length, rule) ∉ s.keys := by
    intro rule member
    exact Nat.lt_irrefl _ (accounted.past _ member)
  have old : ∀ (number : Nat) arrival, s.arrivals[number]? = some arrival →
      (handle source msg true s).arrivals[number]? = some arrival := by
    intro number arrival found
    obtain ⟨inside, -⟩ := List.getElem?_eq_some_iff.mp found
    rwa [handle, List.getElem?_append_left inside]
  have new : (handle source msg true s).arrivals[s.arrivals.length]? = some ⟨source, msg, s.running⟩ := by
    simp [handle]
  constructor
  · have split : (handle source msg true s).keys.Perm
        (((Assoc.get source s.handlers).toList.map fun r => (s.arrivals.length, r.name)) ++ s.keys) := by
      rw [State.keys, handle_tasks, List.map_append, List.map_map]
      exact List.perm_append_comm.append_right _ |>.trans (by simp [State.keys, handle, Task.key, Function.comp_def])
    rw [split.nodup_iff]
    cases found : Assoc.get source s.handlers with
    | none => simpa using accounted.once
    | some r => simpa using ⟨fresh r.name, accounted.once⟩
  · intro t member
    rw [handle_tasks] at member
    rcases List.mem_append.mp member with before | added
    · obtain ⟨listed, arrival, found, same, some⟩ := accounted.tasks t before
      exact ⟨listed, arrival, old _ _ found, same, some⟩
    · obtain ⟨r, found, rfl⟩ := List.mem_map.mp added
      obtain ⟨listed, some⟩ := wired.handlers source r (Option.mem_toList.mp found)
      exact ⟨listed, _, new, rfl, some⟩
  · intro key member
    have longer : (handle source msg true s).arrivals.length = s.arrivals.length + 1 := by simp [handle]
    rw [longer]
    rcases mem_handle_keys.mp member with before | ⟨r, -, rfl⟩
    · exact Nat.lt_succ_of_lt (accounted.past key before)
    · exact Nat.lt_succ_self _
  · intro number arrival found r ran own
    rcases arrival_cases found with before | ⟨rfl, rfl⟩
    · obtain ⟨listed, member⟩ := accounted.taken number arrival before r ran own
      exact ⟨listed, mem_handle_keys.mpr (.inl member)⟩
    · exact ⟨wired.running r ran, mem_handle_keys.mpr (.inr ⟨r, wired.owned r ran source own, rfl⟩)⟩
  · intro number arrival found r listed processed
    rcases arrival_cases found with before | ⟨rfl, rfl⟩
    · exact accounted.published number arrival before r listed processed
    · exact absurd (List.mem_append_right _ processed) (fresh r.name)
  · exact accounted.unpublished

theorem countP_publishAll (t : Task) (out : Option Bytes) (number : Nat) (rule sink : String) :
    (publishAll t out).countP (fun p => p.number = number && p.rule = rule && p.sink = sink) =
      if t.key = (number, rule) ∧ out.isSome = true then t.rule.sinks.count sink else 0 := by
  cases out with
  | none => simp [publishAll]
  | some out =>
    rw [publishAll, List.countP_map]
    by_cases same : t.key = (number, rule)
    · obtain ⟨rfl, rfl⟩ := Prod.mk.inj same
      simp [Task.key, List.count, Function.comp_def, BEq.beq]
    · have apart : ¬(t.number = number ∧ t.rule.name = rule) := by
        intro both
        exact same (Prod.ext both.1 both.2)
      rw [if_neg (fun both => same both.1)]
      apply List.countP_eq_zero.mpr
      intro other _
      simpa [Function.comp_def] using fun here there => absurd ⟨here, there⟩ apart

theorem keys_runTask (codec : Codec) {i : Nat} {t : Task} (found : s.tasks[i]? = some t) :
    (runTask codec i t s).keys.Perm s.keys := by
  obtain ⟨inside, here⟩ := List.getElem?_eq_some_iff.mp found
  have perm := (List.getElem_cons_eraseIdx_perm inside).map Task.key
  rw [here] at perm
  have whole := perm.append_right s.processed
  rw [List.map_cons, List.cons_append] at whole
  refine List.Perm.trans ?_ whole
  rw [State.keys, runTask, ← List.append_assoc]
  exact List.perm_append_singleton (t.number, t.rule.name) _

theorem publishedTo_runTask (i : Nat) (t : Task) (number : Nat) (rule sink : String) :
    (runTask codec i t s).publishedTo number rule sink = s.publishedTo number rule sink +
      if t.key = (number, rule) ∧ (process codec t.rule t.msg).isSome = true then t.rule.sinks.count sink
      else 0 := by
  rw [State.publishedTo, runTask, List.countP_append, countP_publishAll]
  rfl

theorem accounted_runTask (unshared : config.Unshared codec) (accounted : Accounted codec config s)
    {i : Nat} {t : Task} (found : s.tasks[i]? = some t) : Accounted codec config (runTask codec i t s) := by
  have keys := keys_runTask codec found
  have member : t ∈ s.tasks := List.mem_of_getElem? found
  have waiting : t.key ∈ s.tasks.map Task.key := List.mem_map.mpr ⟨t, member, rfl⟩
  have unprocessed : t.key ∉ s.processed := by
    intro processed
    exact (List.nodup_append.mp accounted.once).2.2 _ waiting _ processed rfl
  have processed : ∀ key, key ∈ (runTask codec i t s).processed ↔ key ∈ s.processed ∨ key = t.key := by
    intro key
    simp [runTask, Task.key]
  obtain ⟨listed, arrival, arrived, same, some⟩ := accounted.tasks t member
  constructor
  · exact keys.nodup_iff.mpr accounted.once
  · intro other still
    exact accounted.tasks other (List.mem_of_mem_eraseIdx still)
  · exact fun key inside => accounted.past key (keys.mem_iff.mp inside)
  · intro number arrival found r ran own
    obtain ⟨listed, inside⟩ := accounted.taken number arrival found r ran own
    exact ⟨listed, keys.mem_iff.mpr inside⟩
  · intro number arrival' found' r listed' done sink sinks
    rw [publishedTo_runTask]
    rcases (processed _).mp done with before | here
    · have other : t.key ≠ (number, r.name) := by
        intro same
        exact unprocessed (same ▸ before)
      rw [if_neg (fun both => other both.1)]
      exact accounted.published number arrival' found' r listed' before sink sinks
    · obtain ⟨rfl, named⟩ := Prod.mk.inj here
      obtain rfl : r = t.rule := List.inj_on_of_nodup_map config.distinct listed' listed named
      obtain rfl : arrival = arrival' := Option.some.inj (arrived.symm.trans found')
      rw [accounted.unpublished _ _ unprocessed, same]
      by_cases accepted : (process codec t.rule t.msg).isSome = true
      · have distinct := unshared.sinks t.rule listed some t.msg accepted
        rw [if_pos ⟨rfl, accepted⟩, if_pos accepted, List.count_eq_one_of_mem distinct sinks]
      · rw [if_neg (fun both => accepted both.2), if_neg accepted]
  · intro number rule undone sink
    have before : (number, rule) ∉ s.processed := fun inside => undone ((processed _).mpr (.inl inside))
    have other : t.key ≠ (number, rule) := fun same => undone ((processed _).mpr (.inr same.symm))
    rw [publishedTo_runTask, accounted.unpublished number rule before, if_neg (fun both => other both.1)]

/-- What the steps of a run keep while no source is shared. -/
def Fine (codec : Codec) (config : Config) (s : State) : Prop := Wired config s ∧ Accounted codec config s

theorem fine_start (unshared : config.Unshared codec) (fine : Fine codec config s) {r : RuleImpl}
    (listed : r ∈ config.rules) : Fine codec config (start r s) := by
  refine ⟨wired_start unshared fine.1 listed, accounted_congr fine.2 ?_ ?_ ?_ ?_⟩
  all_goals rw [start, foldl_onMsg]

theorem fine_step (unshared : config.Unshared codec) (fine : Fine codec config s) (admitted : config.Admits a)
    (taken : step codec s a = some s') : Fine codec config s' := by
  cases a with
  | start r =>
    cases taken
    exact fine_start unshared fine admitted
  | stop r =>
    cases taken
    refine ⟨wired_stop unshared fine.1 admitted, accounted_congr fine.2 ?_ ?_ ?_ ?_⟩
    all_goals rw [stop, foldl_onMsg]
  | message source msg accepted =>
    cases taken
    obtain rfl : accepted = true := admitted
    exact ⟨⟨fine.1.running, fine.1.handlers, fine.1.owned⟩, accounted_handle fine.1 fine.2 source msg⟩
  | run i =>
    obtain ⟨t, found, rfl⟩ := Option.map_eq_some_iff.mp taken
    exact ⟨⟨fine.1.running, fine.1.handlers, fine.1.owned⟩, accounted_runTask unshared fine.2 found⟩

theorem fine_boot (unshared : config.Unshared codec) {order : List RuleImpl}
    (listed : ∀ r ∈ order, r ∈ config.rules) : Fine codec config (boot order) := by
  have general : ∀ s, Fine codec config s → Fine codec config (order.foldl (fun s r => start r s) s) := by
    induction order with
    | nil => exact fun s fine => fine
    | cons r rest ih =>
      intro s fine
      obtain ⟨here, later⟩ := List.forall_mem_cons.mp listed
      exact ih later _ (fine_start unshared fine here)
  apply general
  refine ⟨⟨by simp [empty], by simp [empty], by simp [empty]⟩, ?_⟩
  constructor <;> simp [empty, State.keys, State.publishedTo]

theorem start_quiet (r : RuleImpl) (s : State) :
    (start r s).arrivals = s.arrivals ∧ (start r s).tasks = s.tasks ∧
      (start r s).processed = s.processed ∧ (start r s).published = s.published := by
  rw [start, foldl_onMsg]
  exact ⟨rfl, rfl, rfl, rfl⟩

/-- Nothing arrives while the rules are started. -/
theorem boot_quiet (order : List RuleImpl) :
    (boot order).arrivals = [] ∧ (boot order).tasks = [] ∧
      (boot order).processed = [] ∧ (boot order).published = [] := by
  have general : ∀ s : State, (order.foldl (fun s r => start r s) s).arrivals = s.arrivals ∧
      (order.foldl (fun s r => start r s) s).tasks = s.tasks ∧
      (order.foldl (fun s r => start r s) s).processed = s.processed ∧
      (order.foldl (fun s r => start r s) s).published = s.published := by
    induction order with
    | nil => exact fun s => ⟨rfl, rfl, rfl, rfl⟩
    | cons r rest ih =>
      intro s
      rw [List.foldl_cons, (ih _).1, (ih _).2.1, (ih _).2.2.1, (ih _).2.2.2]
      exact start_quiet r s
  exact general empty

/-- After the start every rule is running. -/
theorem mem_boot_running {order : List RuleImpl} (distinct : (order.map RuleImpl.name).Nodup)
    {r : RuleImpl} (member : r ∈ order) : r ∈ (boot order).running := by
  have general : ∀ s : State, r ∈ order ∨ r ∈ s.running ∧ r.name ∉ order.map RuleImpl.name →
      r ∈ (order.foldl (fun s r => start r s) s).running := by
    clear member
    induction order with
    | nil =>
      intro s ran
      exact (ran.resolve_left (by simp)).1
    | cons first rest ih =>
      intro s ran
      obtain ⟨fresh, distinct⟩ := List.nodup_cons.mp distinct
      apply ih distinct
      rcases ran with member | ⟨ran, other⟩
      · rcases List.mem_cons.mp member with rfl | later
        · right
          exact ⟨by simp [start], fresh⟩
        · exact .inl later
      · right
        obtain ⟨apart, later⟩ := not_or.mp (fun inside => other (List.mem_cons.mpr inside))
        exact ⟨List.mem_cons_of_mem _ (mem_others.mpr ⟨ran, apart⟩), later⟩
  exact general empty (.inl member)

theorem boot_handlers {order : List RuleImpl} {source : String} {r : RuleImpl}
    (found : Assoc.get source (boot order).handlers = some r) : r ∈ order := by
  have general : ∀ s : State, Assoc.get source (order.foldl (fun s r => start r s) s).handlers = some r →
      r ∈ order ∨ Assoc.get source s.handlers = some r := by
    clear found
    induction order with
    | nil => exact fun s found => .inr found
    | cons first rest ih =>
      intro s found
      rcases ih _ found with later | before
      · exact .inl (List.mem_cons_of_mem _ later)
      · simp only [start, get_foldl_onMsg] at before
        split at before
        · cases before
          exact .inl List.mem_cons_self
        · exact .inr before
  exact (general empty found).resolve_right (by simp [empty])

/-- A message at one of its sources reaches a rule only through the handler there. -/
theorem handler_of_delivered {order : List RuleImpl} {source : String} {msg : Msg} {r : RuleImpl}
    (delivered : Delivered codec (handle source msg true (boot order)))
    (ran : r ∈ (boot order).running) (own : source ∈ r.sources) :
    ∃ other, Assoc.get source (boot order).handlers = some other ∧ other.name = r.name := by
  obtain ⟨arrivals, tasks, processed, -⟩ := boot_quiet order
  have once := (delivered 0 ⟨source, msg, (boot order).running⟩ (by simp [handle, arrivals]) r ran own).1
  have member : (0, r.name) ∈ (handle source msg true (boot order)).keys :=
    List.one_le_count_iff.mp (Nat.le_of_eq once.symm)
  rcases mem_handle_keys.mp member with before | ⟨other, found, same⟩
  · simp [State.keys, tasks, processed] at before
  · exact ⟨other, found, (Prod.mk.inj same).2.symm⟩

theorem unshared_of_delivered
    (every : ∀ actions, (∀ a ∈ actions, config.Admits a) →
      Always (step codec) (fun _ _ s' => Delivered codec s') (boot config.rules) actions) :
    config.Unshared codec := by
  have ran : ∀ r ∈ config.rules, r ∈ (boot config.rules).running :=
    fun r listed => mem_boot_running config.distinct listed
  have arrives : ∀ source msg, Delivered codec (handle source msg true (boot config.rules)) := by
    intro source msg
    have run := every [.message source msg true] (by simp [Config.Admits])
    exact (run _ rfl).1
  constructor
  · intro r listed other listed' source own own'
    have delivered := arrives source ⟨"", "", []⟩
    obtain ⟨one, found, same⟩ := handler_of_delivered delivered (ran r listed) own
    obtain ⟨two, found', same'⟩ := handler_of_delivered delivered (ran other listed') own'
    rw [found] at found'
    cases found'
    exact List.inj_on_of_nodup_map config.distinct listed listed' (same.symm.trans same')
  · intro r listed some msg accepted
    obtain ⟨source, own⟩ := List.exists_mem_of_ne_nil _ some
    obtain ⟨other, found, same⟩ := handler_of_delivered (arrives source msg) (ran r listed) own
    obtain rfl : other = r := List.inj_on_of_nodup_map config.distinct (boot_handlers found) listed same
    obtain ⟨arrivals, tasks, processed, published⟩ := boot_quiet config.rules
    have submitted : (handle source msg true (boot config.rules)).tasks = [⟨0, other, msg⟩] := by
      rw [handle_tasks, found, tasks, arrivals]
      rfl
    have run := every [.message source msg true, .run 0] (by simp [Config.Admits])
    have delivered := ((run _ rfl).2 (runTask codec 0 ⟨0, other, msg⟩
      (handle source msg true (boot config.rules))) (by simp [step, submitted])).1
    have done := (delivered 0 ⟨source, msg, (boot config.rules).running⟩
      (by simp [runTask, handle, arrivals]) other (ran other listed) own).2 (by simp [runTask])
    apply List.nodup_iff_count_eq_one.mpr
    intro sink member
    have one := done sink member
    rw [publishedTo_runTask, if_pos accepted, if_pos ⟨rfl, accepted⟩] at one
    simpa [State.publishedTo, handle, published] using one

end

/-- Every started rule takes each message of its sources, and publishes it once to each
of its sinks, in every run after the start if and only if no source has two rules and
no sink is named twice by a rule that can accept a message. -/
theorem delivered_iff (codec : Codec) (config : Config) :
    (∀ order actions, order.Perm config.rules → (∀ a ∈ actions, config.Admits a) →
      Always (step codec) (fun _ _ s' => Delivered codec s') (boot order) actions) ↔
      config.Unshared codec := by
  constructor
  · intro every
    exact unshared_of_delivered fun actions admitted => every config.rules actions (.refl _) admitted
  · intro unshared order actions perm admitted
    have conditions : Meets (step codec) (fun _ a => config.Admits a) (boot order) actions :=
      meets_of_labels (fun a member _ => admitted a member) _
    refine Meets.always (Fine codec config) ?_ conditions
      (fine_boot unshared fun r member => perm.mem_iff.mp member)
    intro s a s' fine admits taken
    have next := fine_step unshared fine admits taken
    exact ⟨delivered_of_accounted next.2, next⟩

def plainCodec : Codec := ⟨fun _ => none, fun _ => none⟩

/-- Two rules without processors at one source. -/
def sharedConfig : Config where
  rules := [⟨"one", ["mqtt"], [], ["queue"]⟩, ⟨"two", ["mqtt"], [], ["other"]⟩]
  distinct := by decide

/-- The message goes to the rule that was started last, and to nobody when that stops. -/
theorem shared_source_undelivered :
    ((step plainCodec (boot sharedConfig.rules) (.message "mqtt" ⟨"a", "t", []⟩ true)).map fun s =>
      s.tasks.map Task.key) = some [(0, "two")] ∧
    ¬∀ order actions, order.Perm sharedConfig.rules → (∀ a ∈ actions, sharedConfig.Admits a) →
      Always (step plainCodec) (fun _ _ s' => Delivered plainCodec s') (boot order) actions := by
  refine ⟨by decide, fun every => ?_⟩
  have run := every sharedConfig.rules [.message "mqtt" ⟨"a", "t", []⟩ true] (.refl _) (by simp [Config.Admits])
  have delivered := (run _ rfl).1
  obtain ⟨other, found, same⟩ := handler_of_delivered delivered
    (mem_boot_running sharedConfig.distinct (List.mem_cons_self)) (by decide)
  have named : (Assoc.get "mqtt" (boot sharedConfig.rules).handlers).map RuleImpl.name = some "two" := by decide
  rw [found, Option.map_some, same] at named
  exact absurd named (by decide)

end Tio.Rule
