import Tio.Core.Loading
import Tio.Rule.Delivery
import Tio.Shadow.Interleaving

/-! The assembly of the rules from their configuration (`rule/boot.go`, with the
constructors of `rule/connector`, `rule/source`, `rule/sink` and `rule/process`). The
program ends at the first entry that does not fit. -/

namespace Tio.RuleBoot

open Tio.Core Tio.Json
open Tio.Rule (RuleImpl Process)
open Tio.Shadow (bind_eq_ok map_eq_ok)

abbrev Options := List (String × Value)

structure ConnectorConfig where
  name : String
  type : String
  options : Options

structure SinkConfig where
  name : String
  type : String
  connector : String
  options : Options

structure SourceConfig where
  name : String
  type : String
  connector : String
  options : Options

structure ProcessConfig where
  name : String
  type : String
  jq : String

structure RuleConfig where
  name : String
  sources : List String
  process : List ProcessConfig
  sinks : List String

structure Config where
  connectors : List ConnectorConfig
  sinks : List SinkConfig
  sources : List SourceConfig
  rules : List RuleConfig

/-- What lies outside: how options are decoded and queries compiled, whether the embedded
broker is there, and which filters it takes. -/
structure Env where
  decodeConnector : Options → Except String String
  decodeSink : Options → Except String (String × String)
  decodeSource : Options → Except String String
  compile : String → Except String (Value → List (Except String Value))
  quote : String → String
  broker : Bool
  validFilter : String → Bool
  /-- What an inline subscription makes of the table of the callbacks, in which a callback
  is known by its source. -/
  subscribe : String → Nat → List (String × Nat) → List (String × Nat)
  /-- Every subscription has the same identifier, so the broker keeps one for a filter, and
  it refuses a filter that is not valid. -/
  get_subscribe : ∀ topic source subscribed filter, Assoc.get filter (subscribe topic source subscribed) =
    if validFilter topic = true ∧ topic = filter then some source else Assoc.get filter subscribed

/-- What is logged before the program ends, or a nil pointer. -/
inductive Exit where
  | fatal (msg : String) (attrs : List (String × String))
  | panic
  deriving DecidableEq

/-- `connector.Amqp`. -/
structure Amqp where
  name : String
  url : String

/-- `amqpImpl` of the sinks. -/
structure AmqpSink where
  name : String
  exchange : String
  routingKey : String
  conn : Amqp

/-- What the loops fill. A source is known by its place among the ones that were made,
and a rule holds the sources and sinks that its names stand for. -/
structure Registry where
  conns : List (String × Amqp)
  sinks : List (String × AmqpSink)
  made : Nat
  sources : List (String × Nat)
  /-- The source whose callback the broker has for a filter. -/
  subscribed : List (String × Nat)
  rules : List (String × RuleImpl)

def Registry.empty : Registry := ⟨[], [], 0, [], [], []⟩

def typeAmqp : String := "amqp"

def typeEmbedMqtt : String := "embed-mqtt"

def typeFilter : String := "filter"

def typeTrans : String := "transform"

-- the connection does not keep its name
def newAmqp (_name url : String) : Amqp := ⟨"", url⟩

def newConnector (env : Env) (cfg : ConnectorConfig) : Except String Amqp :=
  if cfg.type = typeAmqp then (env.decodeConnector cfg.options).map (newAmqp cfg.name)
  else .error ("unsupported connector type: " ++ cfg.type)

def newSink (env : Env) (cfg : SinkConfig) (conn : Amqp) : Except String AmqpSink :=
  if cfg.type = typeAmqp then
    match env.decodeSink cfg.options with
    | .ok (exchange, routingKey) => .ok ⟨cfg.name, exchange, routingKey, conn⟩
    | .error err => .error ("decode sink amqp config, name=" ++ env.quote cfg.name ++ ", err=" ++ err)
  else .error ("unsupported sink type " ++ env.quote cfg.type)

/-- The topic to which the source subscribes. -/
def newSource (env : Env) (cfg : SourceConfig) : Except String String :=
  if cfg.type = typeEmbedMqtt then
    match env.decodeSource cfg.options with
    | .ok topic => .ok topic
    | .error err => .error ("decode inner-mqtt options:" ++ err)
  else .error ("unsupported source type " ++ env.quote cfg.type)

/-- The last output of a query. -/
def lastOutput : List (Except String Value) → Value → Option Value
  | [], output => some output
  | .error _ :: _, _ => none
  | .ok value :: rest, _ => lastOutput rest value

def newJqRunner (env : Env) (jq : String) : Except String (Value → Option Value) :=
  (env.compile jq).map fun code input => lastOutput (code input) .null

def newFilter (run : Value → Option Value) : Process :=
  .filter fun input =>
    match run input with
    | some (.bool value) => some value
    | _ => none

def newProcess (env : Env) (cfg : ProcessConfig) : Except String Process :=
  if cfg.type = typeFilter then (newJqRunner env cfg.jq).map newFilter
  else if cfg.type = typeTrans then (newJqRunner env cfg.jq).map .trans
  else .error ("unsupported process type " ++ env.quote cfg.type)

def initConn (env : Env) (reg : Registry) (cfg : ConnectorConfig) : Except Exit Registry :=
  match newConnector env cfg with
  | .error err =>
    .error (.fatal "Init rule connector" [("name", cfg.name), ("type", cfg.type), ("error", err)])
  | .ok c =>
    if (Assoc.get cfg.name reg.conns).isSome then
      .error (.fatal "Duplicated name for rule connector" [("name", cfg.name)])
    else .ok { reg with conns := Assoc.set cfg.name c reg.conns }

/-- A name is compared with the ones of the connectors, not of the sinks. -/
def initSink (env : Env) (reg : Registry) (cfg : SinkConfig) : Except Exit Registry :=
  match Assoc.get cfg.connector reg.conns with
  | none => .error (.fatal "Init sink got no connector for amqp sink"
      [("sinkName", cfg.name), ("connectorName", cfg.connector)])
  | some c =>
    match newSink env cfg c with
    | .error err =>
      .error (.fatal "Init rule connector" [("name", cfg.name), ("type", cfg.type), ("error", err)])
    | .ok s =>
      if (Assoc.get cfg.name reg.conns).isSome then
        .error (.fatal "Duplicated name for rule connector" [("name", cfg.name)])
      else .ok { reg with sinks := Assoc.set cfg.name s reg.sinks }

/-- Nobody looks at the broker's refusal of a filter. -/
def initSource (env : Env) (reg : Registry) (cfg : SourceConfig) : Except Exit Registry :=
  if cfg.connector ≠ "" ∧ Assoc.get cfg.connector reg.conns = none then
    .error (.fatal "Init sink got no connector for amqp sink"
      [("sinkName", cfg.name), ("connectorName", cfg.connector)])
  else
    match newSource env cfg with
    | .error err =>
      .error (.fatal "Init rule source" [("name", cfg.name), ("type", cfg.type), ("error", err)])
    | .ok topic =>
      if env.broker = false then .error .panic
      else if (Assoc.get cfg.name reg.conns).isSome then
        .error (.fatal "Duplicated name for rule source" [("name", cfg.name)])
      else .ok { reg with
        made := reg.made + 1
        sources := Assoc.set cfg.name reg.made reg.sources
        subscribed := env.subscribe topic reg.made reg.subscribed }

/-- Every name is one of the known. -/
def lookup (known : List String) (missing : String → Exit) : List String → Except Exit (List String)
  | [] => .ok []
  | name :: rest => if name ∈ known then (lookup known missing rest).map (name :: ·) else .error (missing name)

def newProcesses (env : Env) (rule : String) : List ProcessConfig → Except Exit (List Process)
  | [] => .ok []
  | cfg :: rest =>
    match newProcess env cfg with
    | .error err =>
      .error (.fatal "Rule init process failed" [("rule", rule), ("process", cfg.name), ("error", err)])
    | .ok p => (newProcesses env rule rest).map (p :: ·)

def initRule (env : Env) (reg : Registry) (rc : RuleConfig) : Except Exit Registry := do
  let sinks ← lookup (Assoc.keys reg.sinks)
    (fun name => .fatal "No sink for rule" [("rule", rc.name), ("sink", name)]) rc.sinks
  let sources ← lookup (Assoc.keys reg.sources)
    (fun name => .fatal "No source for rule" [("rule", rc.name), ("sink", name)]) rc.sources
  let processors ← newProcesses env rc.name rc.process
  if (Assoc.get rc.name reg.rules).isSome then
    .error (.fatal "Rule name duplicated" [("name", rc.name)])
  else .ok { reg with rules := Assoc.set rc.name ⟨rc.name, sources, processors, sinks⟩ reg.rules }

/-- The connectors, the sources, the sinks and the rules, in this order. -/
def assemble (env : Env) (cfg : Config) : Except Exit Registry := do
  let reg ← cfg.connectors.foldlM (initConn env) .empty
  let reg ← cfg.sources.foldlM (initSource env) reg
  let reg ← cfg.sinks.foldlM (initSink env) reg
  cfg.rules.foldlM (initRule env) reg

def Registry.ruleList (reg : Registry) : List RuleImpl := reg.rules.map Prod.snd

/-- The rule that takes what the broker hands to the callback of a filter, when the
handlers of the sources are those of a state. -/
def Registry.taker (reg : Registry) (s : Rule.State) (filter : String) : Option RuleImpl := do
  let source ← Assoc.get filter reg.subscribed
  let entry ← reg.sources.find? fun entry => entry.2 = source
  Assoc.get entry.1 s.handlers

def ConnectorConfig.Fits (env : Env) (c : ConnectorConfig) : Prop :=
  c.type = typeAmqp ∧ ∃ url, env.decodeConnector c.options = .ok url

def SourceConfig.Fits (env : Env) (conns : List String) (s : SourceConfig) : Prop :=
  (s.connector = "" ∨ s.connector ∈ conns) ∧ s.name ∉ conns ∧
    (s.type = typeEmbedMqtt ∧ ∃ topic, env.decodeSource s.options = .ok topic) ∧ env.broker = true

def SinkConfig.Fits (env : Env) (conns : List String) (s : SinkConfig) : Prop :=
  s.connector ∈ conns ∧ s.name ∉ conns ∧ s.type = typeAmqp ∧ ∃ keys, env.decodeSink s.options = .ok keys

def ProcessConfig.Fits (env : Env) (p : ProcessConfig) : Prop :=
  (p.type = typeFilter ∨ p.type = typeTrans) ∧ ∃ code, env.compile p.jq = .ok code

def RuleConfig.Fits (env : Env) (sinks sources : List String) (rc : RuleConfig) : Prop :=
  (∀ name ∈ rc.sinks, name ∈ sinks) ∧ (∀ name ∈ rc.sources, name ∈ sources) ∧ ∀ p ∈ rc.process, p.Fits env

def Config.connectorNames (cfg : Config) : List String := cfg.connectors.map ConnectorConfig.name

/-- What a configuration must meet. The names of the sources and of the sinks may repeat. -/
structure WellFormed (env : Env) (cfg : Config) : Prop where
  connectors : ∀ c ∈ cfg.connectors, c.Fits env
  connectorNames : cfg.connectorNames.Nodup
  sources : ∀ s ∈ cfg.sources, s.Fits env cfg.connectorNames
  sinks : ∀ s ∈ cfg.sinks, s.Fits env cfg.connectorNames
  rules : ∀ rc ∈ cfg.rules,
    rc.Fits env (cfg.sinks.map SinkConfig.name) (cfg.sources.map SourceConfig.name)
  ruleNames : (cfg.rules.map RuleConfig.name).Nodup

/-- What the entries stand for where they fit. -/
def connector (env : Env) (c : ConnectorConfig) : Amqp := (newConnector env c).toOption.getD ⟨"", ""⟩

def topicOf (env : Env) (s : SourceConfig) : String := (newSource env s).toOption.getD ""

def sink (env : Env) (conns : List (String × Amqp)) (s : SinkConfig) : AmqpSink :=
  ((Assoc.get s.connector conns).bind fun c => (newSink env s c).toOption).getD ⟨"", "", "", ⟨"", ""⟩⟩

def rule (env : Env) (rc : RuleConfig) : RuleImpl :=
  ⟨rc.name, rc.sources, (newProcesses env rc.name rc.process).toOption.getD [], rc.sinks⟩

/-- What the loops leave. A name stands for the last source or sink that has it, and the
broker has the callback of the last source with the topic. -/
structure Wired (env : Env) (cfg : Config) (reg : Registry) : Prop where
  conns : reg.conns = cfg.connectors.map fun c => (c.name, connector env c)
  sources : ∀ name i, Assoc.get name reg.sources = some i ↔ LastAt (fun s => s.name = name) cfg.sources i
  subscribed : ∀ filter i, Assoc.get filter reg.subscribed = some i ↔
    env.validFilter filter = true ∧ LastAt (fun s => topicOf env s = filter) cfg.sources i
  sinks : ∀ name s, Assoc.get name reg.sinks = some s ↔ ∃ i cfgSink,
    LastAt (fun s => s.name = name) cfg.sinks i ∧ cfg.sinks[i]? = some cfgSink ∧ sink env reg.conns cfgSink = s
  rules : reg.ruleList = cfg.rules.map (rule env)

/-- The messages of a filter go to the source of a name: the last source with the topic
is the last with the name. -/
def Serves (env : Env) (cfg : Config) (filter name : String) : Prop :=
  env.validFilter filter = true ∧ ∃ i, LastAt (fun s => topicOf env s = filter) cfg.sources i ∧
    LastAt (fun s => s.name = name) cfg.sources i

def addConn (env : Env) (reg : Registry) (c : ConnectorConfig) : Registry :=
  { reg with conns := Assoc.set c.name (connector env c) reg.conns }

def addSource (env : Env) (reg : Registry) (s : SourceConfig) : Registry :=
  { reg with
    made := reg.made + 1
    sources := Assoc.set s.name reg.made reg.sources
    subscribed := env.subscribe (topicOf env s) reg.made reg.subscribed }

def addSink (env : Env) (reg : Registry) (s : SinkConfig) : Registry :=
  { reg with sinks := Assoc.set s.name (sink env reg.conns s) reg.sinks }

def addRule (env : Env) (reg : Registry) (rc : RuleConfig) : Registry :=
  { reg with rules := Assoc.set rc.name (rule env rc) reg.rules }

/-- The registry that a configuration without a mistake leads to. -/
def wired (env : Env) (cfg : Config) : Registry :=
  cfg.rules.foldl (addRule env) (cfg.sinks.foldl (addSink env)
    (cfg.sources.foldl (addSource env) (cfg.connectors.foldl (addConn env) .empty)))

section

variable {env : Env} {cfg : Config} {reg reg' : Registry}

theorem get_isSome {Item : Type} {name : String} {entries : List (String × Item)} :
    (Assoc.get name entries).isSome = true ↔ name ∈ Assoc.keys entries := by
  rw [← not_iff_not, Bool.not_eq_true, Option.isSome_eq_false_iff, Option.isNone_iff_eq_none,
    Assoc.get_eq_none_iff]

theorem newConnector_isOk {c : ConnectorConfig} : (∃ a, newConnector env c = .ok a) ↔ c.Fits env := by
  rw [ConnectorConfig.Fits, newConnector]
  by_cases here : c.type = typeAmqp
  · cases env.decodeConnector c.options <;> simp [here, Except.map]
  · simp [here]

theorem newSink_isOk {s : SinkConfig} (conn : Amqp) :
    (∃ a, newSink env s conn = .ok a) ↔ s.type = typeAmqp ∧ ∃ keys, env.decodeSink s.options = .ok keys := by
  rw [newSink]
  by_cases here : s.type = typeAmqp
  · cases env.decodeSink s.options <;> simp [here]
  · simp [here]

theorem newSource_isOk {s : SourceConfig} :
    (∃ topic, newSource env s = .ok topic) ↔
      s.type = typeEmbedMqtt ∧ ∃ topic, env.decodeSource s.options = .ok topic := by
  rw [newSource]
  by_cases here : s.type = typeEmbedMqtt
  · cases env.decodeSource s.options <;> simp [here]
  · simp [here]

theorem newProcess_isOk {p : ProcessConfig} : (∃ made, newProcess env p = .ok made) ↔ p.Fits env := by
  rw [ProcessConfig.Fits, newProcess, newJqRunner]
  by_cases filters : p.type = typeFilter
  · cases env.compile p.jq <;> simp [filters, Except.map]
  · by_cases transforms : p.type = typeTrans
    · have other : typeTrans ≠ typeFilter := by decide
      cases env.compile p.jq <;> simp [transforms, other, Except.map]
    · simp [filters, transforms]

theorem newProcesses_isOk {name : String} {process : List ProcessConfig} :
    (∃ made, newProcesses env name process = .ok made) ↔ ∀ p ∈ process, p.Fits env := by
  induction process with
  | nil => simp [newProcesses]
  | cons p rest ih =>
    rw [newProcesses, List.forall_mem_cons, ← ih, ← newProcess_isOk]
    cases newProcess env p with
    | error err => simp
    | ok made => cases newProcesses env name rest <;> simp [Except.map]

theorem lookup_eq_ok {known : List String} {missing : String → Exit} {names found : List String} :
    lookup known missing names = .ok found ↔ (∀ name ∈ names, name ∈ known) ∧ names = found := by
  induction names generalizing found with
  | nil => simp [lookup]
  | cons name rest ih =>
    rw [lookup, List.forall_mem_cons]
    by_cases inside : name ∈ known
    · rw [if_pos inside, map_eq_ok]
      simp only [ih, inside, true_and]
      constructor
      · rintro ⟨_, ⟨every, rfl⟩, rfl⟩
        exact ⟨every, rfl⟩
      · rintro ⟨every, rfl⟩
        exact ⟨rest, ⟨every, rfl⟩, rfl⟩
    · simp [inside]

theorem initConn_eq_ok {c : ConnectorConfig} :
    initConn env reg c = .ok reg' ↔
      (c.Fits env ∧ c.name ∉ Assoc.keys reg.conns) ∧ addConn env reg c = reg' := by
  rw [initConn, ← newConnector_isOk, ← get_isSome, addConn, connector]
  cases newConnector env c with
  | error err => simp
  | ok made =>
    by_cases twin : (Assoc.get c.name reg.conns).isSome = true <;> simp [twin, Except.toOption]

theorem initSink_eq_ok {s : SinkConfig} :
    initSink env reg s = .ok reg' ↔ s.Fits env (Assoc.keys reg.conns) ∧ addSink env reg s = reg' := by
  rw [initSink, SinkConfig.Fits, ← get_isSome, ← get_isSome, addSink, sink]
  cases Assoc.get s.connector reg.conns with
  | none => simp
  | some c =>
    rw [← newSink_isOk c]
    cases built : newSink env s c with
    | error err => simp [built]
    | ok made => by_cases twin : (Assoc.get s.name reg.conns).isSome = true <;> simp [built, twin, Except.toOption]

theorem initSource_eq_ok {s : SourceConfig} :
    initSource env reg s = .ok reg' ↔ s.Fits env (Assoc.keys reg.conns) ∧ addSource env reg s = reg' := by
  rw [initSource, SourceConfig.Fits, ← newSource_isOk, ← get_isSome, ← get_isSome, addSource, topicOf]
  by_cases bound : s.connector = "" ∨ (Assoc.get s.connector reg.conns).isSome = true
  · have passes : ¬(s.connector ≠ "" ∧ Assoc.get s.connector reg.conns = none) := by
      rintro ⟨named, missing⟩
      rw [missing] at bound
      exact named (bound.resolve_right (by simp))
    rw [if_neg passes, and_iff_right bound]
    cases newSource env s with
    | error err => simp
    | ok topic =>
      cases env.broker with
      | false => simp
      | true => by_cases twin : (Assoc.get s.name reg.conns).isSome = true <;> simp [twin, Except.toOption]
  · obtain ⟨named, missing⟩ := not_or.mp bound
    rw [Bool.not_eq_true, Option.isSome_eq_false_iff, Option.isNone_iff_eq_none] at missing
    rw [if_pos ⟨named, missing⟩]
    simp [bound]

theorem initRule_eq_ok {rc : RuleConfig} :
    initRule env reg rc = .ok reg' ↔
      (rc.Fits env (Assoc.keys reg.sinks) (Assoc.keys reg.sources) ∧ rc.name ∉ Assoc.keys reg.rules) ∧
        addRule env reg rc = reg' := by
  rw [RuleConfig.Fits, ← newProcesses_isOk, ← get_isSome, addRule, rule]
  simp only [initRule, bind_eq_ok, lookup_eq_ok]
  cases newProcesses env rc.name rc.process with
  | error err => simp
  | ok made =>
    by_cases twin : (Assoc.get rc.name reg.rules).isSome = true
    · simp [twin]
    · simp [twin, Except.toOption]
      tauto

/-! What the loops leave. -/

theorem conns_foldl (connectors : List ConnectorConfig) : connectors.foldl (addConn env) .empty =
    { Registry.empty with conns := fill ConnectorConfig.name (fun _ => connector env) connectors } := by
  induction connectors using List.reverseRecOn with
  | nil => rfl
  | append_singleton connectors c ih => rw [List.foldl_concat, ih, fill_concat]; rfl

/-- The table of the callbacks after the sources have subscribed. -/
def callbacks (env : Env) (sources : List SourceConfig) : List (String × Nat) :=
  sources.zipIdx.foldl (fun table entry => env.subscribe (topicOf env entry.1) entry.2 table) []

theorem callbacks_concat (sources : List SourceConfig) (s : SourceConfig) :
    callbacks env (sources ++ [s]) = env.subscribe (topicOf env s) sources.length (callbacks env sources) := by
  simp [callbacks, List.zipIdx_append, List.foldl_append]

theorem get_callbacks {sources : List SourceConfig} {filter : String} {i : Nat} :
    Assoc.get filter (callbacks env sources) = some i ↔
      env.validFilter filter = true ∧ LastAt (fun s => topicOf env s = filter) sources i := by
  induction sources using List.reverseRecOn with
  | nil => simp [callbacks, LastAt]
  | append_singleton sources s ih =>
    rw [callbacks_concat, env.get_subscribe, lastAt_concat]
    by_cases own : topicOf env s = filter
    · subst own
      by_cases valid : env.validFilter (topicOf env s) = true
      · simp [valid, eq_comm]
      · simp [valid, ih]
    · simp [own, ih]

theorem sources_foldl (sources : List SourceConfig) (made : reg.made = 0) (none : reg.sources = [])
    (nothing : reg.subscribed = []) : sources.foldl (addSource env) reg =
      { reg with
        made := sources.length
        sources := fill SourceConfig.name (fun i _ => i) sources
        subscribed := callbacks env sources } := by
  induction sources using List.reverseRecOn with
  | nil =>
    cases reg
    cases made
    cases none
    cases nothing
    rfl
  | append_singleton sources s ih =>
    rw [List.foldl_concat, ih, fill_concat, callbacks_concat, addSource]
    simp only [List.length_append, List.length_singleton]

theorem sinks_foldl (sinks : List SinkConfig) (none : reg.sinks = []) : sinks.foldl (addSink env) reg =
    { reg with sinks := fill SinkConfig.name (fun _ => sink env reg.conns) sinks } := by
  induction sinks using List.reverseRecOn with
  | nil =>
    cases reg
    cases none
    rfl
  | append_singleton sinks s ih => rw [List.foldl_concat, ih, fill_concat]; rfl

theorem rules_foldl (rules : List RuleConfig) (none : reg.rules = []) : rules.foldl (addRule env) reg =
    { reg with rules := fill RuleConfig.name (fun _ => rule env) rules } := by
  induction rules using List.reverseRecOn with
  | nil =>
    cases reg
    cases none
    rfl
  | append_singleton rules rc ih => rw [List.foldl_concat, ih, fill_concat]; rfl

theorem mem_keys_conns (env : Env) {connectors : List ConnectorConfig} {name : String} :
    name ∈ Assoc.keys (connectors.foldl (addConn env) .empty).conns ↔
      name ∈ connectors.map ConnectorConfig.name := by
  rw [conns_foldl, mem_keys_fill]

/-! When the loops come to their end. -/

theorem conns_eq_ok {connectors : List ConnectorConfig} :
    connectors.foldlM (initConn env) .empty = .ok reg ↔
      ((∀ c ∈ connectors, c.Fits env) ∧ (connectors.map ConnectorConfig.name).Nodup) ∧
        connectors.foldl (addConn env) .empty = reg := by
  rw [foldlM_eq_ok fun _ _ _ => initConn_eq_ok, nodup_iff_fresh]
  refine and_congr_left fun _ => ⟨fun every => ⟨fun c member => ?_, fun before c after split => ?_⟩, ?_⟩
  · obtain ⟨before, after, split⟩ := List.append_of_mem member
    exact (every before c after split).1
  · rw [← mem_keys_conns env]
    exact (every before c after split).2
  · rintro ⟨fits, fresh⟩ before c after split
    exact ⟨fits c (split ▸ by simp), by rw [mem_keys_conns]; exact fresh before c after split⟩

theorem sources_eq_ok {sources : List SourceConfig} :
    sources.foldlM (initSource env) reg = .ok reg' ↔
      (∀ s ∈ sources, s.Fits env (Assoc.keys reg.conns)) ∧ sources.foldl (addSource env) reg = reg' := by
  have spec : ∀ (r : Registry) (s : SourceConfig) r', initSource env r s = .ok r' ↔
      s.Fits env (Assoc.keys r.conns) ∧ addSource env r s = r' := fun _ _ _ => initSource_eq_ok
  exact foldlM_eq_ok_of_steady spec fun _ _ _ => Iff.rfl

theorem sinks_eq_ok {sinks : List SinkConfig} :
    sinks.foldlM (initSink env) reg = .ok reg' ↔
      (∀ s ∈ sinks, s.Fits env (Assoc.keys reg.conns)) ∧ sinks.foldl (addSink env) reg = reg' := by
  have spec : ∀ (r : Registry) (s : SinkConfig) r', initSink env r s = .ok r' ↔
      s.Fits env (Assoc.keys r.conns) ∧ addSink env r s = r' := fun _ _ _ => initSink_eq_ok
  exact foldlM_eq_ok_of_steady spec fun _ _ _ => Iff.rfl

theorem rules_eq_ok {rules : List RuleConfig} (none : reg.rules = []) :
    rules.foldlM (initRule env) reg = .ok reg' ↔
      ((∀ rc ∈ rules, rc.Fits env (Assoc.keys reg.sinks) (Assoc.keys reg.sources)) ∧
        (rules.map RuleConfig.name).Nodup) ∧ rules.foldl (addRule env) reg = reg' := by
  have names : ∀ (before : List RuleConfig) name,
      name ∈ Assoc.keys (before.foldl (addRule env) reg).rules ↔ name ∈ before.map RuleConfig.name := by
    intro before name
    rw [rules_foldl before none, mem_keys_fill]
  have ends : ∀ before : List RuleConfig, (before.foldl (addRule env) reg).sinks = reg.sinks ∧
      (before.foldl (addRule env) reg).sources = reg.sources := by
    intro before
    rw [rules_foldl before none]
    exact ⟨rfl, rfl⟩
  rw [foldlM_eq_ok fun _ _ _ => initRule_eq_ok, nodup_iff_fresh]
  simp only [names, (ends _).1, (ends _).2]
  refine and_congr_left fun _ => ⟨fun every => ⟨fun rc member => ?_, fun before rc after split => ?_⟩, ?_⟩
  · obtain ⟨before, after, split⟩ := List.append_of_mem member
    exact (every before rc after split).1
  · exact (every before rc after split).2
  · rintro ⟨fits, fresh⟩ before rc after split
    exact ⟨fits rc (split ▸ by simp), fresh before rc after split⟩

/-- The registry after each of the first three loops. -/
theorem wired_eq (env : Env) (cfg : Config) :
    wired env cfg =
      let conns := fill ConnectorConfig.name (fun _ => connector env) cfg.connectors
      { conns := conns
        sinks := fill SinkConfig.name (fun _ => sink env conns) cfg.sinks
        made := cfg.sources.length
        sources := fill SourceConfig.name (fun i _ => i) cfg.sources
        subscribed := callbacks env cfg.sources
        rules := fill RuleConfig.name (fun _ => rule env) cfg.rules } := by
  rw [wired, conns_foldl, sources_foldl, sinks_foldl, rules_foldl]
  all_goals rfl

theorem SourceConfig.fits_congr {s : SourceConfig} {conns other : List String}
    (same : ∀ name, name ∈ conns ↔ name ∈ other) : s.Fits env conns ↔ s.Fits env other := by
  simp only [SourceConfig.Fits, same]

theorem SinkConfig.fits_congr {s : SinkConfig} {conns other : List String}
    (same : ∀ name, name ∈ conns ↔ name ∈ other) : s.Fits env conns ↔ s.Fits env other := by
  simp only [SinkConfig.Fits, same]

theorem RuleConfig.fits_congr {rc : RuleConfig} {sinks sinks' sources sources' : List String}
    (same : ∀ name, name ∈ sinks ↔ name ∈ sinks') (same' : ∀ name, name ∈ sources ↔ name ∈ sources') :
    rc.Fits env sinks sources ↔ rc.Fits env sinks' sources' := by
  simp only [RuleConfig.Fits, same, same']

theorem assemble_eq_ok : assemble env cfg = .ok reg ↔ WellFormed env cfg ∧ wired env cfg = reg := by
  let first := cfg.connectors.foldl (addConn env) .empty
  let second := cfg.sources.foldl (addSource env) first
  let third := cfg.sinks.foldl (addSink env) second
  have conns : first = { Registry.empty with
      conns := fill ConnectorConfig.name (fun _ => connector env) cfg.connectors } := conns_foldl _
  have sources : second = _ := sources_foldl cfg.sources (by rw [conns]; rfl) (by rw [conns]; rfl) (by rw [conns]; rfl)
  have sinks : third = _ := sinks_foldl cfg.sinks (by rw [sources, conns]; rfl)
  have bare : third.rules = [] := by rw [sinks, sources, conns]; rfl
  have inFirst : ∀ name, name ∈ Assoc.keys first.conns ↔ name ∈ cfg.connectorNames := fun _ => mem_keys_conns env
  have inSecond : ∀ name, name ∈ Assoc.keys second.conns ↔ name ∈ cfg.connectorNames := by
    rw [sources]
    exact inFirst
  have inSources : ∀ name, name ∈ Assoc.keys third.sources ↔ name ∈ cfg.sources.map SourceConfig.name := by
    intro name
    rw [sinks, sources, mem_keys_fill]
  have inSinks : ∀ name, name ∈ Assoc.keys third.sinks ↔ name ∈ cfg.sinks.map SinkConfig.name := by
    intro name
    rw [sinks, mem_keys_fill]
  simp only [assemble, bind_eq_ok, conns_eq_ok, sources_eq_ok, sinks_eq_ok]
  constructor
  · rintro ⟨_, ⟨⟨connectors, connectorNames⟩, rfl⟩, _, ⟨ofSources, rfl⟩, _, ⟨ofSinks, rfl⟩, last⟩
    obtain ⟨⟨rules, ruleNames⟩, rfl⟩ := (rules_eq_ok bare).mp last
    refine ⟨⟨connectors, connectorNames, fun s member => ?_, fun s member => ?_, fun rc member => ?_, ruleNames⟩, rfl⟩
    · exact (SourceConfig.fits_congr inFirst).mp (ofSources s member)
    · exact (SinkConfig.fits_congr inSecond).mp (ofSinks s member)
    · exact (RuleConfig.fits_congr inSinks inSources).mp (rules rc member)
  · rintro ⟨whole, rfl⟩
    refine ⟨first, ⟨⟨whole.connectors, whole.connectorNames⟩, rfl⟩, second, ⟨fun s member => ?_, rfl⟩,
      third, ⟨fun s member => ?_, rfl⟩, (rules_eq_ok bare).mpr ⟨⟨fun rc member => ?_, whole.ruleNames⟩, rfl⟩⟩
    · exact (SourceConfig.fits_congr inFirst).mpr (whole.sources s member)
    · exact (SinkConfig.fits_congr inSecond).mpr (whole.sinks s member)
    · exact (RuleConfig.fits_congr inSinks inSources).mpr (whole.rules rc member)

theorem wired_wired (whole : WellFormed env cfg) : Wired env cfg (wired env cfg) := by
  have connectors := fill_of_nodup (connector env) whole.connectorNames
  have rules := fill_of_nodup (rule env) whole.ruleNames
  rw [wired_eq]
  constructor
  · exact connectors
  · exact fun name i => get_fill_place
  · exact fun filter i => get_callbacks
  · intro name s
    simp only [get_fill]
  · rw [Registry.ruleList, rules, List.map_map]
    rfl

/-- A source has the handler of the rule that was started last. -/
theorem get_boot_handlers (order : List RuleImpl) (source : String) :
    Assoc.get source (Rule.boot order).handlers =
      (order.filter fun r => decide (source ∈ r.sources)).getLast? := by
  induction order using List.reverseRecOn with
  | nil => rfl
  | append_singleton order r ih =>
    rw [Rule.boot, List.foldl_concat, Rule.start, Rule.get_foldl_onMsg, List.filter_append]
    by_cases own : source ∈ r.sources
    · simp [own]
    · simp only [own, if_false]
      rw [show order.foldl (fun s r => Rule.start r s) Rule.empty = Rule.boot order from rfl, ih]
      simp [own]

theorem taker_eq_some {s : Rule.State} {filter : String} {r : RuleImpl} (whole : WellFormed env cfg) :
    (wired env cfg).taker s filter = some r ↔
      ∃ name, Serves env cfg filter name ∧ Assoc.get name s.handlers = some r := by
  have reg := wired_wired whole
  have distinct : (Assoc.keys (wired env cfg).sources).Nodup := by
    rw [wired_eq]
    change (Assoc.keys (fill SourceConfig.name (fun i _ => i) cfg.sources)).Nodup
    exact nodup_keys_fill
  simp only [Registry.taker, Option.bind_eq_bind, Option.bind_eq_some_iff, Serves]
  constructor
  · rintro ⟨i, held, ⟨name, j⟩, found, handled⟩
    obtain ⟨valid, last⟩ := (reg.subscribed filter i).mp held
    obtain rfl : j = i := by simpa using List.find?_some found
    have named := (reg.sources name j).mp (Assoc.get_of_mem distinct (List.mem_of_find?_eq_some found))
    exact ⟨name, ⟨valid, j, last, named⟩, handled⟩
  · rintro ⟨name, ⟨valid, i, last, named⟩, handled⟩
    have entry := Assoc.mem_of_get ((reg.sources name i).mpr named)
    obtain ⟨other, found⟩ : ∃ other : String × Nat, (wired env cfg).sources.find? (fun entry => entry.2 = i) = some other :=
      Option.isSome_iff_exists.mp (List.find?_isSome.mpr ⟨_, entry, by simp⟩)
    refine ⟨i, (reg.subscribed filter i).mpr ⟨valid, last⟩, other, found, ?_⟩
    obtain ⟨name', j⟩ := other
    obtain rfl : j = i := by simpa using List.find?_some found
    have named' := (reg.sources name' j).mp (Assoc.get_of_mem distinct (List.mem_of_find?_eq_some found))
    obtain ⟨⟨s, stands, rfl⟩, -⟩ := named
    obtain ⟨⟨s', stands', rfl⟩, -⟩ := named'
    obtain rfl : s = s' := Option.some.inj (stands.symm.trans stands')
    exact handled

/-- A rule that is started last has all of its sources. -/
theorem last_takes {rules : List RuleImpl} {r : RuleImpl} (member : r ∈ rules) {source : String}
    (own : source ∈ r.sources) :
    ∃ order, order.Perm rules ∧ Assoc.get source (Rule.boot order).handlers = some r := by
  obtain ⟨before, after, rfl⟩ := List.append_of_mem member
  refine ⟨before ++ after ++ [r], ?_, ?_⟩
  · rw [List.append_assoc]
    exact (List.perm_append_singleton r after).append_left before
  · rw [get_boot_handlers, List.filter_append]
    simp [own]

end

/-- The assembly comes to its end for the well-formed configurations and no others, and
wires what they say. -/
theorem assembled_iff (env : Env) (cfg : Config) :
    ((∃ reg, assemble env cfg = .ok reg) ↔ WellFormed env cfg) ∧
      ∀ reg, assemble env cfg = .ok reg → Wired env cfg reg := by
  constructor
  · constructor
    · rintro ⟨reg, done⟩
      exact (assemble_eq_ok.mp done).1
    · intro whole
      exact ⟨_, assemble_eq_ok.mpr ⟨whole, rfl⟩⟩
  · intro reg done
    obtain ⟨whole, rfl⟩ := assemble_eq_ok.mp done
    exact wired_wired whole

/-- Which rule takes the messages of a filter does not depend on the order in which the
map of the rules is walked if and only if no two rules name a source that a filter serves. -/
theorem wiring_determined_iff {env : Env} {cfg : Config} {reg : Registry} (assembled : assemble env cfg = .ok reg) :
    (∀ order other, order.Perm reg.ruleList → other.Perm reg.ruleList →
        ∀ filter, reg.taker (Rule.boot order) filter = reg.taker (Rule.boot other) filter) ↔
      ∀ filter name, Serves env cfg filter name → ∀ rc ∈ cfg.rules, ∀ rc' ∈ cfg.rules,
        name ∈ rc.sources → name ∈ rc'.sources → rc = rc' := by
  obtain ⟨whole, rfl⟩ := assemble_eq_ok.mp assembled
  have rules : (wired env cfg).ruleList = cfg.rules.map (rule env) := (wired_wired whole).rules
  rw [rules]
  constructor
  · intro determined filter name serves rc member rc' member' own own'
    obtain ⟨order, perm, takes⟩ := last_takes (List.mem_map_of_mem member) (r := rule env rc) own
    obtain ⟨other, perm', takes'⟩ := last_takes (List.mem_map_of_mem member') (r := rule env rc') own'
    have one := (taker_eq_some whole).mpr ⟨name, serves, takes⟩
    have two := (taker_eq_some whole).mpr ⟨name, serves, takes'⟩
    have same : rule env rc = rule env rc' := by
      rw [determined order other perm perm' filter, two] at one
      exact (Option.some.inj one).symm
    exact List.inj_on_of_nodup_map whole.ruleNames member member' (congrArg RuleImpl.name same)
  · intro alone
    have half : ∀ order other filter r, order.Perm (cfg.rules.map (rule env)) → other.Perm (cfg.rules.map (rule env)) →
        (wired env cfg).taker (Rule.boot order) filter = some r →
          (wired env cfg).taker (Rule.boot other) filter = some r := by
      intro order other filter r perm perm' taken
      obtain ⟨name, serves, takes⟩ := (taker_eq_some whole).mp taken
      rw [get_boot_handlers] at takes
      obtain ⟨inside, own⟩ := List.mem_filter.mp (List.mem_of_getLast? takes)
      have takers : (other.filter fun r => decide (name ∈ r.sources)) ≠ [] :=
        List.ne_nil_of_mem (List.mem_filter.mpr ⟨perm'.mem_iff.mpr (perm.mem_iff.mp inside), own⟩)
      have last := List.getLast?_eq_some_getLast takers
      obtain ⟨inside', own'⟩ := List.mem_filter.mp (List.mem_of_getLast? last)
      obtain ⟨rc, member, same⟩ := List.mem_map.mp (perm.mem_iff.mp inside)
      obtain ⟨rc', member', same'⟩ := List.mem_map.mp (perm'.mem_iff.mp inside')
      have one : rc = rc' := by
        rw [← same, decide_eq_true_iff] at own
        rw [← same', decide_eq_true_iff] at own'
        exact alone filter name serves rc member rc' member' own own'
      refine (taker_eq_some whole).mpr ⟨name, serves, ?_⟩
      rw [get_boot_handlers, last, ← same', ← one, same]
    intro order other perm perm' filter
    refine Option.ext fun r => ⟨half order other filter r perm perm', half other order filter r perm' perm⟩

/-- Options with one text, which is the topic, the address or the exchange. -/
def plainEnv : Env where
  decodeConnector
    | [("url", .str url)] => .ok url
    | _ => .error "url"
  decodeSink
    | [("exchange", .str exchange)] => .ok (exchange, "")
    | _ => .error "exchange"
  decodeSource
    | [("topic", .str topic)] => .ok topic
    | _ => .error "topic"
  compile _ := .error "query"
  quote text := text
  broker := true
  validFilter _ := true
  subscribe := Assoc.set
  get_subscribe topic source subscribed filter := by
    simp only [true_and]
    split
    case isTrue same => rw [same, Assoc.get_set_self]
    case isFalse apart => exact Assoc.get_set_other apart _ _

/-- The second source takes the topic of the first one over. -/
def twiceConfig : Config where
  connectors := [⟨"queue", "amqp", [("url", .str "amqp://localhost")]⟩]
  sinks := [⟨"out", "amqp", "queue", [("exchange", .str "things")]⟩]
  sources := [⟨"first", "embed-mqtt", "", [("topic", .str "things/#")]⟩,
    ⟨"second", "embed-mqtt", "", [("topic", .str "things/#")]⟩]
  rules := [⟨"one", ["first"], [], ["out"]⟩, ⟨"two", ["first", "second"], [], ["out"]⟩]

theorem twiceConfig_assembled : assemble plainEnv twiceConfig = .ok (wired plainEnv twiceConfig) := rfl

/-- Both rules name the first source, but no message goes there. -/
theorem twice_determined : (∀ rc ∈ twiceConfig.rules, "first" ∈ rc.sources) ∧
    ∀ order other, order.Perm (wired plainEnv twiceConfig).ruleList →
      other.Perm (wired plainEnv twiceConfig).ruleList → ∀ filter,
        (wired plainEnv twiceConfig).taker (Rule.boot order) filter =
          (wired plainEnv twiceConfig).taker (Rule.boot other) filter := by
  refine ⟨by decide, (wiring_determined_iff twiceConfig_assembled).mpr fun filter name serves => ?_⟩
  -- the only place that is the last with its topic is that of the second source
  obtain ⟨-, i, ⟨⟨s, stands, topic⟩, later⟩, ⟨⟨s', stands', named⟩, -⟩⟩ := serves
  match i, stands, stands' with
  | 0, stands, _ =>
    cases stands
    have clash := later 1 _ (by decide) rfl
    exact absurd topic clash
  | 1, _, stands' =>
    cases stands'
    subst named
    intro rc member rc' member' own own'
    simp only [twiceConfig, List.mem_cons, List.not_mem_nil, or_false] at member member'
    rcases member with rfl | rfl
    · exact absurd own (by decide)
    · rcases member' with rfl | rfl
      · exact absurd own' (by decide)
      · rfl

end Tio.RuleBoot
