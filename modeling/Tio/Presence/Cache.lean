import Tio.Core.Latest
import Tio.Presence.Emqx
import Tio.Presence.Status

namespace Tio.Presence

open Tio.Core

/-- The flag and the times of a cached client. -/
structure Stamp where
  connected : Bool
  connectedAt : Option Int
  disconnectedAt : Option Int
deriving DecidableEq

/-- What an event tells: the kind of the change and its time. -/
structure Report where
  connected : Bool
  time : Int
deriving DecidableEq

def Report.stamp (r : Report) : Stamp where
  connected := r.connected
  connectedAt := if r.connected then some r.time else none
  disconnectedAt := if r.connected then none else some r.time

def Stamp.lastTime (s : Stamp) : Option Int :=
  match s.connectedAt, s.disconnectedAt with
  | some connected, some disconnected =>
    if connected < disconnected then some disconnected else some connected
  | connected, _ => connected

/-- What a cache makes of a report, with the stamp that it holds. -/
def Stamp.receive (old : Option Stamp) (r : Report) : Option Stamp :=
  match old with
  | none => some r.stamp
  | some s =>
    if s.lastTime.any (r.time < ·) then some s
    else if r.connected then some r.stamp
    else some { r.stamp with connectedAt := s.connectedAt }

def received (reports : List Report) : Option Stamp := reports.foldl Stamp.receive none

/-- The stamp is from the report, and holds the time of a connect. -/
structure Stamp.HoldsReport (s : Stamp) (r : Report) : Prop where
  connected : s.connected = r.connected
  last : s.lastTime = some r.time
  since : ∃ t, s.connectedAt = some t ∧ t ≤ r.time

/-- The newest of the reports is a disconnect, and the newest of those from the first
connect on is a connect. -/
def Overtaken (reports : List Report) : Prop :=
  ∃ newest last, Latest Report.time reports newest ∧
    Latest Report.time (reports.dropWhile fun r => !r.connected) last ∧
    newest.connected = false ∧ last.connected = true

/-- The flag is that of the newest report. -/
def FlagOfNewest (reports : List Report) (flag : Option Bool) : Prop :=
  ∀ newest, Latest Report.time reports newest → flag = some newest.connected

section

variable {reports : List Report}

/-- The first connect is taken, whatever came before. -/
theorem receive_first {old : Option Stamp} (none : ∀ s, old = some s → s.connectedAt = none) {r : Report}
    (opens : r.connected = true) : ∃ s, Stamp.receive old r = some s ∧ s.HoldsReport r := by
  have holds : r.stamp.HoldsReport r := by
    constructor
    · rfl
    · simp [Report.stamp, Stamp.lastTime, opens]
    · exact ⟨r.time, by simp [Report.stamp, opens], Int.le_refl _⟩
  refine ⟨r.stamp, ?_, holds⟩
  cases old with
  | none => rfl
  | some s => simp [Stamp.receive, Stamp.lastTime, none s rfl, opens]

/-- From the first connect on the stamp is a register. -/
theorem register_receive :
    Register Report.time (fun _ => True) Stamp.receive
      fun old r => ∃ s, old = some s ∧ s.HoldsReport r := by
  constructor
  · intro old held r holds _ later
    obtain ⟨s, rfl, connected, last, t, opened, since⟩ := holds
    have timely : s.lastTime.any (r.time < ·) = false := by simp [last, Int.not_lt.mpr later]
    simp only [Stamp.receive, timely, Bool.false_eq_true, if_false]
    by_cases opens : r.connected = true
    · rw [if_pos opens]
      refine ⟨_, rfl, rfl, ?_, r.time, ?_, Int.le_refl _⟩
      · simp [Report.stamp, Stamp.lastTime, opens]
      · simp [Report.stamp, opens]
    · rw [if_neg opens]
      refine ⟨_, rfl, rfl, ?_, t, opened, Int.le_trans since later⟩
      simp only [Report.stamp, Stamp.lastTime, opened, opens, Bool.false_eq_true, if_false]
      split
      · rfl
      · have same : t = r.time := by omega
        rw [same]
  · intro old held r holds _ earlier
    obtain ⟨s, rfl, connected, last, -⟩ := holds
    have late : s.lastTime.any (r.time < ·) = true := by simp [last, earlier]
    simp [Stamp.receive, late]

/-- The stamp is from no connect, or it holds the newest report from the first connect on. -/
theorem received_cases (reports : List Report) (old : Option Stamp)
    (none : ∀ s, old = some s → s.connected = false ∧ s.connectedAt = none) :
    ((∀ r ∈ reports, r.connected = false) ∧
        ∀ s, reports.foldl Stamp.receive old = some s → s.connected = false) ∨
      ∃ last s, Latest Report.time (reports.dropWhile fun r => !r.connected) last ∧
        reports.foldl Stamp.receive old = some s ∧ s.HoldsReport last := by
  induction reports generalizing old with
  | nil =>
    left
    exact ⟨by simp, fun s same => (none s same).1⟩
  | cons r rest ih =>
    rw [List.foldl_cons]
    by_cases opens : r.connected = true
    · right
      obtain ⟨first, taken, holds⟩ := receive_first (fun s same => (none s same).2) opens
      have told : ∀ r ∈ rest, True := fun _ _ => trivial
      obtain ⟨last, latest, s, same, stored⟩ := register_receive.foldl ⟨first, taken, holds⟩ told
      refine ⟨last, s, ?_, same, stored⟩
      rwa [List.dropWhile_cons_of_neg (by simp [opens])]
    · have closed : r.connected = false := by simpa using opens
      rw [List.dropWhile_cons_of_pos (by simp [closed])]
      have still : ∀ s, Stamp.receive old r = some s → s.connected = false ∧ s.connectedAt = .none := by
        intro s same
        cases old with
        | none =>
          cases same
          simp [Report.stamp, closed]
        | some before =>
          obtain ⟨-, nothing⟩ := none before rfl
          simp only [Stamp.receive, Stamp.lastTime, nothing, closed, Option.any_none,
            Bool.false_eq_true, if_false, Option.some.injEq] at same
          simp [← same, Report.stamp, closed]
      rcases ih _ still with ⟨none, flag⟩ | found
      · exact .inl ⟨List.forall_mem_cons.mpr ⟨closed, none⟩, flag⟩
      · exact .inr found

theorem received_isSome {reports : List Report} (some : reports ≠ []) (old : Option Stamp) :
    (reports.foldl Stamp.receive old).isSome = true := by
  induction reports generalizing old with
  | nil => exact absurd rfl some
  | cons r rest ih =>
    rw [List.foldl_cons]
    by_cases last : rest = []
    · rw [last, List.foldl_nil]
      unfold Stamp.receive
      split
      · rfl
      · split
        · rfl
        · split <;> rfl
    · exact ih last _

/-- A connect is among the reports from the first connect on. -/
theorem mem_dropWhile_of_connected {r : Report} (member : r ∈ reports) (opens : r.connected = true) :
    r ∈ reports.dropWhile fun r => !r.connected := by
  induction reports with
  | nil => cases member
  | cons head rest ih =>
    by_cases here : head.connected = true
    · rwa [List.dropWhile_cons_of_neg (by simp [here])]
    · rw [List.dropWhile_cons_of_pos (by simpa using here)]
      apply ih
      rcases List.mem_cons.mp member with rfl | later
      · exact absurd opens here
      · exact later

/-- With distinct times the flag is right exactly when the newest report is not a
disconnect that a connect overtook. -/
theorem flagOfNewest_iff (distinct : (reports.map Report.time).Nodup) :
    FlagOfNewest reports ((received reports).map Stamp.connected) ↔ ¬Overtaken reports := by
  have alike : ∀ one ∈ reports, ∀ two ∈ reports, one.time = two.time → one = two :=
    fun one member two member' => List.inj_on_of_nodup_map distinct member member'
  have within : ∀ r ∈ reports.dropWhile fun r => !r.connected, r ∈ reports :=
    fun r member => (List.dropWhile_sublist _).subset member
  have cases := received_cases reports none (by simp)
  constructor
  · intro right overtaken
    obtain ⟨newest, last, latest, latest', closed, opened⟩ := overtaken
    have flag := right newest latest
    rcases cases with ⟨none, -⟩ | ⟨other, s, found, same, holds⟩
    · have never := none last (within last latest'.member)
      rw [never] at opened
      cases opened
    · have equal := found.unique
        (fun one member two member' => alike one (within one member) two (within two member')) latest'
      rw [received, same, Option.map_some, holds.connected, equal, opened, closed] at flag
      cases flag
  · intro fine newest latest
    rcases cases with ⟨none, flag⟩ | ⟨last, s, found, same, holds⟩
    · obtain ⟨s, same⟩ := Option.isSome_iff_exists.mp
        (received_isSome (List.ne_nil_of_mem latest.member) .none)
      rw [received, same, Option.map_some, flag s same, none newest latest.member]
    · rw [received, same, Option.map_some, holds.connected]
      by_cases opens : newest.connected = true
      · have member := mem_dropWhile_of_connected latest.member opens
        have equal := (latest.among within member).unique
          (fun one member two member' => alike one (within one member) two (within two member')) found
        rw [equal]
      · have closed : newest.connected = false := by simpa using opens
        have never : last.connected = false := by
          by_contra opened
          exact fine ⟨newest, last, latest, found, closed, by simpa using opened⟩
        rw [closed, never]

end

def ClientInfo.stamp (info : ClientInfo) : Stamp :=
  ⟨info.connected, info.connectedAt, info.disconnectedAt⟩

def Emqx.ClientInfo.stamp (info : Emqx.ClientInfo) : Stamp :=
  ⟨info.connected, info.connectedAt, info.disconnectedAt⟩

/-- What the hook tells the cache of the embedded broker. -/
structure HookEvent where
  clientId : String
  username : String
  remoteAddr : String
  connected : Bool
  time : Int
  err : Option (List UInt8)
deriving DecidableEq

def HookEvent.info (e : HookEvent) : ClientInfo :=
  if e.connected then toClientInfo e.clientId e.username e.remoteAddr true (some e.time) none none
  else toClientInfo e.clientId e.username e.remoteAddr false none (some e.time) e.err

def HookEvent.report (e : HookEvent) : Report := ⟨e.connected, e.time⟩

def Emqx.Event.report : Emqx.Event → Report
  | .connected d => ⟨true, ofUnixMilli d.connectedAt⟩
  | .disconnected d => ⟨false, ofUnixMilli d.disconnectedAt⟩

/-- The cached flag of the embedded broker after the events. -/
def embedFlag (x : String) (events : List HookEvent) : Option Bool :=
  (Assoc.get x (events.foldl (fun clients e => updateClient e.info clients) [])).map ClientInfo.connected

/-- What the adapter is told: the events that its callbacks do not ignore. -/
def emqxReports (messages : List (Int × Emqx.Event)) : List Report :=
  (messages.filter fun entry => !entry.2.ignored).map fun entry => entry.2.report

/-- The cached flag of the adapter after the messages, each with the time of its goroutine. -/
def emqxFlag (x : String) (messages : List (Int × Emqx.Event)) : Option Bool :=
  (Assoc.get x (messages.foldl (fun clients entry => Emqx.listenConnectivity entry.1 entry.2 clients) [])).map
    fun client => client.info.connected

section

theorem HookEvent.info_stamp (e : HookEvent) : e.info.stamp = e.report.stamp := by
  cases flag : e.connected <;> simp [HookEvent.info, ClientInfo.stamp, toClientInfo, report, Report.stamp, flag]

theorem HookEvent.info_clientId (e : HookEvent) : e.info.clientId = e.clientId := by
  cases flag : e.connected <;> simp [HookEvent.info, toClientInfo, flag]

theorem Emqx.Event.info_stamp (e : Emqx.Event) : e.info.stamp = e.report.stamp := by
  cases e <;> rfl

theorem report_time {connected : Bool} {connectedAt disconnectedAt : Option Int} {r : Report}
    (told : (⟨connected, connectedAt, disconnectedAt⟩ : Stamp) = r.stamp) :
    (if connected then connectedAt else disconnectedAt) = some r.time := by
  simp only [Report.stamp, Stamp.mk.injEq] at told
  obtain ⟨rfl, rfl, rfl⟩ := told
  cases r.connected <;> rfl

theorem outdated_iff {old c : ClientInfo} {r : Report} (told : c.stamp = r.stamp) :
    outdated old c = old.stamp.lastTime.any (r.time < ·) := by
  have last : old.stamp.lastTime = old.lastTime := rfl
  rw [last, outdated, report_time told]
  cases old.lastTime <;> rfl

theorem Emqx.outdated_iff {old c : Emqx.ClientInfo} {r : Report} (told : c.stamp = r.stamp) :
    Emqx.outdated old c = old.stamp.lastTime.any (r.time < ·) := by
  have last : old.stamp.lastTime = old.lastTime := rfl
  rw [last, Emqx.outdated, report_time told]
  cases old.lastTime <;> rfl

/-- What is stored for a change that is not outdated. -/
theorem receive_timely {old : Stamp} {r : Report} (timely : old.lastTime.any (r.time < ·) = false) :
    Stamp.receive (some old) r =
      some (if r.connected then r.stamp else { r.stamp with connectedAt := old.connectedAt }) := by
  simp only [Stamp.receive, timely, Bool.false_eq_true, if_false]
  split <;> rfl

/-- The embedded broker decides on the stamps. -/
theorem updateClient_receive {c : ClientInfo} {r : Report} (told : c.stamp = r.stamp)
    (clients : List (String × ClientInfo)) :
    (Assoc.get c.clientId (updateClient c clients)).map ClientInfo.stamp =
      Stamp.receive ((Assoc.get c.clientId clients).map ClientInfo.stamp) r := by
  unfold updateClient
  cases found : Assoc.get c.clientId clients with
  | none => simp [Assoc.get_set_self, Stamp.receive, told]
  | some old =>
    dsimp only
    rw [outdated_iff told]
    cases timely : old.stamp.lastTime.any (r.time < ·) with
    | true => simp [Stamp.receive, found, timely]
    | false =>
      have flag : c.connected = r.connected := congrArg Stamp.connected told
      rw [if_neg Bool.false_ne_true, Option.map_some, receive_timely timely, ← flag, ← told]
      split
      · rw [Assoc.get_set_self, Option.map_some]
      · rw [Assoc.get_set_self, Option.map_some]
        rfl

/-- So does the adapter. -/
theorem Emqx.updateClient_receive {c : Emqx.ClientInfo} {r : Report} (told : c.stamp = r.stamp)
    (now : Int) (clients : List (String × Emqx.Client)) :
    (Assoc.get c.clientId (Emqx.updateClient now c clients)).map (fun client => client.info.stamp) =
      Stamp.receive ((Assoc.get c.clientId clients).map fun client => client.info.stamp) r := by
  unfold Emqx.updateClient
  cases found : Assoc.get c.clientId clients with
  | none => simp [Assoc.get_set_self, Stamp.receive, told]
  | some old =>
    dsimp only
    rw [Emqx.outdated_iff told]
    cases timely : old.info.stamp.lastTime.any (r.time < ·) with
    | true => simp [Stamp.receive, found, timely]
    | false =>
      have flag : c.connected = r.connected := congrArg Stamp.connected told
      rw [if_neg Bool.false_ne_true, Option.map_some, receive_timely timely, ← flag, ← told]
      split
      · rw [Assoc.get_set_self, Option.map_some]
      · rw [Assoc.get_set_self, Option.map_some]
        rfl

theorem embed_received {x : String} {events : List HookEvent} (own : ∀ e ∈ events, e.clientId = x)
    (clients : List (String × ClientInfo)) :
    (Assoc.get x (events.foldl (fun clients e => updateClient e.info clients) clients)).map ClientInfo.stamp =
      (events.map HookEvent.report).foldl Stamp.receive ((Assoc.get x clients).map ClientInfo.stamp) := by
  induction events generalizing clients with
  | nil => rfl
  | cons e rest ih =>
    obtain ⟨here, later⟩ := List.forall_mem_cons.mp own
    have same : e.info.clientId = x := e.info_clientId.trans here
    have taken := updateClient_receive e.info_stamp clients
    rw [same] at taken
    rw [List.foldl_cons, List.map_cons, List.foldl_cons, ih later, taken]

theorem emqx_received {x : String} {messages : List (Int × Emqx.Event)}
    (own : ∀ entry ∈ messages, entry.2.info.clientId = x) (clients : List (String × Emqx.Client)) :
    (Assoc.get x (messages.foldl (fun clients entry => Emqx.listenConnectivity entry.1 entry.2 clients)
        clients)).map (fun client => client.info.stamp) =
      (emqxReports messages).foldl Stamp.receive
        ((Assoc.get x clients).map fun client => client.info.stamp) := by
  induction messages generalizing clients with
  | nil => rfl
  | cons entry rest ih =>
    obtain ⟨here, later⟩ := List.forall_mem_cons.mp own
    rw [List.foldl_cons, ih later]
    cases quiet : entry.2.ignored with
    | true =>
      rw [Emqx.listenConnectivity, if_pos quiet, emqxReports, emqxReports,
        List.filter_cons_of_neg (by simp [quiet])]
    | false =>
      have taken := Emqx.updateClient_receive entry.2.info_stamp entry.1 clients
      rw [here] at taken
      rw [Emqx.listenConnectivity, if_neg (by simp [quiet]), taken, emqxReports, emqxReports,
        List.filter_cons_of_pos (by simp [quiet]), List.map_cons, List.foldl_cons]

end

/-- Whatever the order of the events of one client, each with its own time, either
cache ends with the flag of the newest if and only if the newest is not a disconnect
that comes before every connect, with a connect as the newest from the first one on. -/
theorem order_insensitive_iff (x : String) (events : List HookEvent) (messages : List (Int × Emqx.Event))
    (own : ∀ e ∈ events, e.clientId = x) (distinct : (events.map fun e => e.report.time).Nodup)
    (own' : ∀ entry ∈ messages, entry.2.info.clientId = x)
    (distinct' : ((emqxReports messages).map Report.time).Nodup) :
    (FlagOfNewest (events.map HookEvent.report) (embedFlag x events) ↔
      ¬Overtaken (events.map HookEvent.report)) ∧
    (FlagOfNewest (emqxReports messages) (emqxFlag x messages) ↔
      ¬Overtaken (emqxReports messages)) := by
  have embed : embedFlag x events = (received (events.map HookEvent.report)).map Stamp.connected := by
    have same := embed_received own []
    rw [Assoc.get_nil, Option.map_none] at same
    rw [received, ← same, embedFlag, Option.map_map]
    rfl
  have emqx : emqxFlag x messages = (received (emqxReports messages)).map Stamp.connected := by
    have same := emqx_received own' []
    rw [Assoc.get_nil, Option.map_none] at same
    rw [received, ← same, emqxFlag, Option.map_map]
    rfl
  rw [embed, emqx]
  constructor
  · apply flagOfNewest_iff
    rwa [List.map_map]
  · exact flagOfNewest_iff distinct'

def connectAt (ms : Int) : Int × Emqx.Event := (0, .connected ⟨"a", "a", "addr", ms⟩)

def disconnectAt (ms : Int) : Int × Emqx.Event := (0, .disconnected ⟨"a", "a", "addr", ms, "closed"⟩)

def hookAt (connected : Bool) (time : Int) : HookEvent := ⟨"a", "a", "addr", connected, time, none⟩

theorem late_connect_order :
    (FlagOfNewest ([hookAt true 1, hookAt false 2].map HookEvent.report)
        (embedFlag "a" [hookAt true 1, hookAt false 2]) ↔
      ¬Overtaken ([hookAt true 1, hookAt false 2].map HookEvent.report)) ∧
    (FlagOfNewest (emqxReports [connectAt 1, disconnectAt 2]) (emqxFlag "a" [connectAt 1, disconnectAt 2]) ↔
      ¬Overtaken (emqxReports [connectAt 1, disconnectAt 2])) :=
  order_insensitive_iff "a" _ _ (by decide) (by decide) (by decide) (by decide)

/-- The disconnect at 2 is told first, the connect at 1 then counts as newer. -/
theorem late_connect_shown :
    emqxFlag "a" [connectAt 1, disconnectAt 2] = some false ∧
    emqxFlag "a" [disconnectAt 2, connectAt 1] = some true ∧
    embedFlag "a" [hookAt false 2, hookAt true 1] = some true ∧
    ¬FlagOfNewest (emqxReports [disconnectAt 2, connectAt 1])
      (emqxFlag "a" [disconnectAt 2, connectAt 1]) ∧
    ¬FlagOfNewest ([hookAt false 2, hookAt true 1].map HookEvent.report)
      (embedFlag "a" [hookAt false 2, hookAt true 1]) := by
  have emqx : Latest Report.time (emqxReports [disconnectAt 2, connectAt 1]) ⟨false, ofUnixMilli 2⟩ := ⟨by decide, by decide⟩
  have embed : Latest Report.time ([hookAt false 2, hookAt true 1].map HookEvent.report) ⟨false, 2⟩ :=
    ⟨by decide, by decide⟩
  refine ⟨by decide, by decide, by decide, fun right => ?_, fun right => ?_⟩
  · exact absurd (right _ emqx) (by decide)
  · exact absurd (right _ embed) (by decide)

end Tio.Presence
