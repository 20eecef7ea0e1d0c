import Tio.Presence.Status
import Tio.Thing.Acl

namespace Tio.Presence

open Tio.Core

def State.cached (x : String) (s : State) : Option ClientInfo := Assoc.get x s.clients

def PresenceEvent.connected (e : PresenceEvent) : Bool := e.eventType == .connected

/-- The events that are published and not handled yet. -/
def State.underway (s : State) : List PresenceEvent :=
  s.publishers.map Publisher.event ++
    match s.sync with
    | .handle e => [e]
    | _ => []

/-- When the events of the thing are handled its rows have the flag of the cache. -/
def Agrees (x : String) (s : State) : Prop :=
  s.sync.subscribed = true → (∀ e ∈ s.underway, e.thingId ≠ x) →
    ∀ row ∈ s.rows, row.thingId = x → row.connected = (s.cached x).any (·.connected)

/-- A process starts: the rows are from before, the broker has seen no client. -/
structure Booted (s : State) : Prop where
  sync : s.sync = .start
  clients : s.clients = []
  publishers : s.publishers = []
  earlier : ∀ row ∈ s.rows, row.updatedAt < s.clock ∧ row.notNewer s.clock = true

/-- Only the thing uses its id as a client id, and it uses no other. -/
def OwnClient (x : String) : Action → Prop
  | .established clientId username _ => clientId = x ∨ username = x → clientId = x ∧ username = x
  | .closed clientId username _ _ => clientId = x ∨ username = x → clientId = x ∧ username = x
  | _ => True

/-- The event tells the last change that the connector saw. -/
def Newest (info : Option ClientInfo) (e : PresenceEvent) : Prop :=
  ∃ known t, info = some known ∧ known.changedAt = some t ∧ e.timestamp = unixMilli t ∧
    e.connected = known.connected

/-- The clients of the first sync, from the snapshot up to the subscription. -/
def SyncPc.snapshotted : SyncPc → Option (List ClientInfo)
  | .update _ clients _ | .disconnectAll _ clients | .subscribe clients => some clients
  | _ => none

/-- The row has what the event tells, or something later to the same effect. -/
def ConnStatus.Covers (row : ConnStatus) (e : PresenceEvent) : Prop :=
  row.connected = e.connected ∧ ∃ t, row.Carries t ∧ ofUnixMilli e.timestamp ≤ t

/-- How a change of the thing gets lost. -/
inductive LosesChange (x : String) (s : State) : Action → Prop
  /-- Its event is published for the last time before the subscription, and the
  snapshot was taken before the change. -/
  | unheard (published : s.publishers[i]? = some p) (own : p.event.thingId = x) (last : p.left ≤ 1)
      (newest : Newest (s.cached x) p.event) (syncing : s.sync.snapshotted = some clients)
      (since : ∀ info, s.cached x = some info → info ∉ clients) : LosesChange x s (.publish i)
  /-- Nobody takes its event within a second, and the row does not tell it. -/
  | expired (published : s.publishers[i]? = some p) (own : p.event.thingId = x) (last : p.left ≤ 1)
      (newest : Newest (s.cached x) p.event) (stored : row ∈ s.rows) (same : row.thingId = x)
      (behind : ¬row.Covers p.event) : LosesChange x s (.expire i)
  /-- The row has a time after the millisecond of the event. -/
  | refused (taken : s.sync = .handle e) (own : e.thingId = x) (newest : Newest (s.cached x) e)
      (stored : row ∈ s.rows) (same : row.thingId = x)
      (newer : row.notNewer (ofUnixMilli e.timestamp) = false)
      (other : row.connected ≠ e.connected) : LosesChange x s .handle
  /-- An earlier event of its millisecond is handled after its own. -/
  | overtaken (taken : s.sync = .handle e) (own : e.thingId = x) (found : s.cached x = some info)
      (changed : info.changedAt = some t) (same : e.timestamp = unixMilli t)
      (other : e.connected ≠ info.connected)
      (handled : ∀ p ∈ s.publishers, p.event.thingId = x → ¬Newest (s.cached x) p.event) :
      LosesChange x s .handle
  /-- An event of a client without a name is written to every row. -/
  | unnamed (taken : s.sync = .handle e) (nameless : e.thingId = "") : LosesChange x s .handle

/-! What keeps a row in step with the cache. -/

/-- The row has what the connector last said, or nothing if it said nothing. -/
def ConnStatus.Shows (row : ConnStatus) : Option ClientInfo → Prop
  | none => row.connected = false
  | some info => row.connected = info.connected ∧
      ∃ t u, info.changedAt = some t ∧ row.Carries u ∧ ofUnixMilli (unixMilli t) ≤ u

/-- The last change of the thing is still on its way. -/
def Awaited (x : String) (s : State) : Prop :=
  ∃ e ∈ s.underway, e.thingId = x ∧ Newest (s.cached x) e

/-- The row is as the process found it. -/
def ConnStatus.Before (boot : Int) (row : ConnStatus) : Prop :=
  row.updatedAt < boot ∧ row.notNewer boot = true

/-- What the snapshot has of the thing. -/
structure Snapshot (boot : Int) (x : String) (clients : List ClientInfo) (known : Option ClientInfo) :
    Prop where
  named : ∀ info ∈ clients, info.clientId ≠ ""
  only : ∀ info ∈ clients, info.clientId = x → known = some info
  listed : ∀ info, known = some info → info ∈ clients ∧ info.clientId = x
  told : ∀ info, known = some info → ∃ t, info.ToldAt t ∧ boot ≤ t

/-- The row after the clients in `done` are written. -/
def Synced (boot now : Int) (x : String) (known : Option ClientInfo) (done : List ClientInfo)
    (row : ConnStatus) : Prop :=
  (row.Before boot ∧ ∀ info ∈ done, info.clientId ≠ x) ∨
    ∃ info t, known = some info ∧ row.Tells info t ∧ info.ToldAt t ∧ now ≤ row.updatedAt

/-- How far the first sync has come with the thing. -/
def Reached (boot : Int) (x : String) (s : State) : Prop :=
  match s.sync with
  | .start => ∀ row ∈ s.rows, row.thingId = x → row.Before boot
  | .snapshot now =>
    boot ≤ now ∧ now ≤ s.clock ∧ ∀ row ∈ s.rows, row.thingId = x → row.Before boot
  | .update now clients offset => boot ≤ now ∧ now ≤ s.clock ∧
      ∃ known, Snapshot boot x clients known ∧ (s.cached x = known ∨ Awaited x s) ∧
        ∀ row ∈ s.rows, row.thingId = x → Synced boot now x known (clients.take offset) row
  | .disconnectAll now clients => boot ≤ now ∧
      ∃ known, Snapshot boot x clients known ∧ (s.cached x = known ∨ Awaited x s) ∧
        ∀ row ∈ s.rows, row.thingId = x → Synced boot now x known clients row
  | .subscribe clients =>
      ∃ known, Snapshot boot x clients known ∧ (s.cached x = known ∨ Awaited x s) ∧
        ∀ row ∈ s.rows, row.thingId = x → row.Shows known
  | .listen | .handle _ => Awaited x s ∨ ∀ row ∈ s.rows, row.thingId = x → row.Shows (s.cached x)

structure Follows (boot : Int) (x : String) (s : State) : Prop where
  passed : boot ≤ s.clock
  distinct : (Assoc.keys s.clients).Nodup
  named : ∀ entry ∈ s.clients, entry.2.clientId = entry.1 ∧ entry.1 ≠ ""
  known : ∀ info, s.cached x = some info → ∃ t, info.ToldAt t ∧ boot ≤ t ∧ t ≤ s.clock
  events : ∀ e ∈ s.underway, e.thingId = x → ∃ info t, s.cached x = some info ∧
    info.changedAt = some t ∧ e.timestamp ≤ unixMilli t
  waiting : s.sync.subscribed = false → ∀ p ∈ s.publishers, p.sending = false
  reached : Reached boot x s

section

variable {boot : Int} {x : String} {s s' : State}

theorem ConnStatus.Covers.shows {row : ConnStatus} {e : PresenceEvent} {info : Option ClientInfo}
    (covers : row.Covers e) (newest : Newest info e) : row.Shows info := by
  obtain ⟨known, t, rfl, changed, stamp, flag⟩ := newest
  obtain ⟨same, u, carries, later⟩ := covers
  exact ⟨same.trans flag, t, u, changed, carries, stamp ▸ later⟩

theorem mem_passed {i : Nat} {p : Publisher} (found : s.publishers[i]? = some p) {e : PresenceEvent}
    (member : e ∈ (s.passed i p).publishers.map Publisher.event) :
    e ∈ s.publishers.map Publisher.event := by
  obtain ⟨q, held, rfl⟩ := List.mem_map.mp member
  simp only [State.passed] at held
  split at held
  · exact List.mem_map_of_mem (List.mem_of_mem_eraseIdx held)
  · rcases List.mem_or_eq_of_mem_set held with old | rfl
    · exact List.mem_map_of_mem old
    · exact List.mem_map.mpr ⟨p, List.mem_of_getElem? found, rfl⟩

/-- Only the last call of `Publish` ends the way of an event. -/
theorem passed_keeps {i : Nat} {p : Publisher} (found : s.publishers[i]? = some p)
    {e : PresenceEvent} (member : e ∈ s.publishers.map Publisher.event) :
    e ∈ (s.passed i p).publishers.map Publisher.event ∨ e = p.event ∧ p.left ≤ 1 := by
  obtain ⟨q, held, rfl⟩ := List.mem_map.mp member
  obtain ⟨j, at_j⟩ := List.mem_iff_getElem?.mp held
  simp only [State.passed]
  by_cases same : j = i
  · subst same
    cases found.symm.trans at_j
    by_cases last : p.left ≤ 1
    · exact .inr ⟨rfl, last⟩
    · refine .inl (List.mem_map.mpr ⟨{ p with left := p.left - 1, sending := false }, ?_, rfl⟩)
      rw [if_neg last]
      exact List.mem_set (List.getElem?_eq_some_iff.mp found).1 _
  · refine .inl (List.mem_map_of_mem ?_)
    split
    · exact List.mem_eraseIdx_iff_getElem?.mpr ⟨j, same, at_j⟩
    · exact List.mem_iff_getElem?.mpr ⟨j, by rw [List.getElem?_set_ne (Ne.symm same)]; exact at_j⟩

/-- A step that leaves the rows and the sync where they are. -/
theorem Reached.carry (reached : Reached boot x s) (sync : s'.sync = s.sync) (rows : s'.rows = s.rows)
    (clock : s.clock ≤ s'.clock) (ids : ∀ info, s.cached x = some info → info.clientId = x)
    (still : Awaited x s' ∨ s'.cached x = s.cached x ∧ (Awaited x s → Awaited x s' ∨
      ∃ clients info, s.sync.snapshotted = some clients ∧ s.cached x = some info ∧ info ∈ clients)) :
    Reached boot x s' := by
  have pending : ∀ clients known, s.sync.snapshotted = some clients → Snapshot boot x clients known →
      s.cached x = known ∨ Awaited x s → s'.cached x = known ∨ Awaited x s' := by
    intro clients known syncing snapshot before
    rcases still with later | ⟨same, still⟩
    · exact .inr later
    rcases before with settled | awaited
    · exact .inl (same.trans settled)
    rcases still awaited with later | ⟨clients', info, syncing', found, listed⟩
    · exact .inr later
    · cases syncing.symm.trans syncing'
      exact .inl (by rw [same, found, snapshot.only info listed (ids info found)])
  unfold Reached at reached ⊢
  rw [sync, rows]
  cases phase : s.sync with
  | start => simpa only [phase] using reached
  | snapshot now =>
    simp only [phase] at reached ⊢
    exact ⟨reached.1, Int.le_trans reached.2.1 clock, reached.2.2⟩
  | update now clients offset =>
    simp only [phase] at reached ⊢
    obtain ⟨booted, past, known, snapshot, before, told⟩ := reached
    exact ⟨booted, Int.le_trans past clock, known, snapshot, pending clients known (by rw [phase]; rfl) snapshot before, told⟩
  | disconnectAll now clients =>
    simp only [phase] at reached ⊢
    obtain ⟨booted, known, snapshot, before, told⟩ := reached
    exact ⟨booted, known, snapshot, pending clients known (by rw [phase]; rfl) snapshot before, told⟩
  | subscribe clients =>
    simp only [phase] at reached ⊢
    obtain ⟨known, snapshot, before, told⟩ := reached
    exact ⟨known, snapshot, pending clients known (by rw [phase]; rfl) snapshot before, told⟩
  | listen | handle e =>
    simp only [phase] at reached ⊢
    rcases still with later | ⟨same, still⟩
    · exact .inl later
    rcases reached with awaited | shows
    · refine .inl ((still awaited).resolve_right ?_)
      rintro ⟨_, _, syncing, -⟩
      simp [phase, SyncPc.snapshotted] at syncing
    · exact .inr (by rwa [same])

theorem Follows.ids (follows : Follows boot x s) {info : ClientInfo} (found : s.cached x = some info) :
    info.clientId = x :=
  (follows.named _ (Assoc.mem_of_get found)).1

theorem mem_hook {username : String} {c : ClientInfo} {e e' : PresenceEvent}
    (member : e' ∈ (s.hook username c e).underway) :
    e' ∈ s.underway ∨ e' = e ∧ isPublishPresent username = true := by
  simp only [State.hook, State.underway, List.mem_append] at member ⊢
  grind

theorem hook_keeps {username : String} {c : ClientInfo} {e e' : PresenceEvent}
    (member : e' ∈ s.underway) : e' ∈ (s.hook username c e).underway := by
  simp only [State.hook, State.underway, List.mem_append] at member ⊢
  grind

theorem hook_publishes {username : String} {c : ClientInfo} {e : PresenceEvent}
    (present : isPublishPresent username = true) : e ∈ (s.hook username c e).underway := by
  simp [State.hook, State.underway, present]

theorem follows_hook (follows : Follows boot x s) (present : isPublishPresent x = true)
    {username : String} {c : ClientInfo} {e : PresenceEvent} (named : c.clientId ≠ "")
    (own : c.clientId = x ∨ username = x → c.clientId = x ∧ username = x)
    (told : c.ToldAt s.clock) (thing : e.thingId = username) (stamp : e.timestamp = unixMilli s.clock)
    (flag : e.connected = c.connected) : Follows boot x (s.hook username c e) := by
  have cached : (s.hook username c e).cached x = Assoc.get x (updateClient c s.clients) := rfl
  have waiting : (s.hook username c e).sync.subscribed = false →
      ∀ p ∈ (s.hook username c e).publishers, p.sending = false := by
    intro idle p member
    simp only [State.hook] at idle member
    have := follows.waiting idle
    grind
  have keyed : ∀ entry ∈ updateClient c s.clients, entry.2.clientId = entry.1 ∧ entry.1 ≠ "" := by
    intro entry member
    rcases mem_updateClient member with old | ⟨key, same⟩
    · exact follows.named entry old
    · exact ⟨same.trans key.symm, key ▸ named⟩
  by_cases mine : c.clientId = x
  · obtain ⟨-, rfl⟩ := own (.inl mine)
    obtain ⟨info, found, flag', told'⟩ := updateClient_self told fun old known => by
      obtain ⟨t, known, -, past⟩ := follows.known old (by rw [State.cached, ← mine]; exact known)
      exact ⟨t, known, past⟩
    rw [mine] at found
    have newest : Newest (some info) e := ⟨info, s.clock, rfl, told'.changed, stamp, flag.trans flag'.symm⟩
    refine ⟨follows.passed, nodup_updateClient follows.distinct, keyed, ?_, ?_, waiting, ?_⟩
    · intro info' found'
      rw [cached, found] at found'
      cases found'
      exact ⟨s.clock, told', follows.passed, Int.le_refl _⟩
    · intro e' member own'
      refine ⟨info, s.clock, cached.trans found, told'.changed, ?_⟩
      rcases mem_hook member with old | ⟨rfl, -⟩
      · obtain ⟨known, t, found', changed, before⟩ := follows.events e' old own'
        obtain ⟨t', told'', -, past⟩ := follows.known known found'
        cases changed.symm.trans told''.changed
        unfold unixMilli at before ⊢
        omega
      · exact Int.le_of_eq stamp
    · refine follows.reached.carry rfl rfl (Int.le_refl _) (fun _ => follows.ids) (.inl ?_)
      exact ⟨e, hook_publishes present, thing, by rw [cached, found]; exact newest⟩
  · have other : username ≠ x := fun same => mine (own (.inr same)).1
    have same : (s.hook username c e).cached x = s.cached x := updateClient_other mine _
    refine ⟨follows.passed, nodup_updateClient follows.distinct, keyed, ?_, ?_, waiting, ?_⟩
    · intro info found
      exact follows.known info (same.symm.trans found)
    · intro e' member own'
      rcases mem_hook member with old | ⟨rfl, -⟩
      · rw [same]
        exact follows.events e' old own'
      · exact absurd (thing.symm.trans own') other
    · refine follows.reached.carry rfl rfl (Int.le_refl _) (fun _ => follows.ids) (.inr ⟨same, ?_⟩)
      rintro ⟨e', member, own', newest⟩
      exact .inl ⟨e', hook_keeps member, own', same ▸ newest⟩

/-- A call of `Publish` ends without a receiver. -/
theorem follows_passed (follows : Follows boot x s) {i : Nat} {p : Publisher}
    (found : s.publishers[i]? = some p)
    (harmless : p.event.thingId = x → p.left ≤ 1 → Newest (s.cached x) p.event →
      (∃ clients info, s.sync.snapshotted = some clients ∧ s.cached x = some info ∧ info ∈ clients) ∨
        Reached boot x (s.passed i p)) : Follows boot x (s.passed i p) := by
  have kept : ∀ e ∈ s.underway, e ∈ (s.passed i p).underway ∨ e = p.event ∧ p.left ≤ 1 := by
    intro e member
    rcases List.mem_append.mp member with published | taken
    · exact (passed_keeps found published).imp_left fun kept => List.mem_append_left _ kept
    · exact .inl (List.mem_append_right _ taken)
  refine ⟨follows.passed, follows.distinct, follows.named, follows.known, ?_, ?_, ?_⟩
  · intro e member own
    refine follows.events e ?_ own
    rcases List.mem_append.mp member with published | taken
    · exact List.mem_append_left _ (mem_passed found published)
    · exact List.mem_append_right _ taken
  · intro idle q member
    simp only [State.passed] at idle member
    split at member
    · exact follows.waiting idle q (List.mem_of_mem_eraseIdx member)
    · rcases List.mem_or_eq_of_mem_set member with old | rfl
      · exact follows.waiting idle q old
      · rfl
  · by_cases lost : p.event.thingId = x ∧ p.left ≤ 1 ∧ Newest (s.cached x) p.event
    · rcases harmless lost.1 lost.2.1 lost.2.2 with settled | reached
      · exact follows.reached.carry rfl rfl (Int.le_refl _) (fun _ => follows.ids)
          (.inr ⟨rfl, fun _ => .inr settled⟩)
      · exact reached
    · refine follows.reached.carry rfl rfl (Int.le_refl _) (fun _ => follows.ids) (.inr ⟨rfl, ?_⟩)
      rintro ⟨e, member, own, newest⟩
      rcases kept e member with still | ⟨rfl, last⟩
      · exact .inl ⟨e, still, own, newest⟩
      · exact absurd ⟨own, last, newest⟩ lost

theorem ConnStatus.notNewer_iff {row : ConnStatus} {time : Int} :
    row.notNewer time = true ↔ ∀ t, row.Carries t → t ≤ time := by
  simp only [ConnStatus.notNewer, ConnStatus.Carries, Bool.and_eq_true, Option.all_eq_true,
    decide_eq_true_eq]
  constructor
  · rintro ⟨first, second⟩ t (here | here)
    · exact first t here
    · exact second t here
  · exact fun all => ⟨fun t here => all t (.inl here), fun t here => all t (.inr here)⟩

theorem ConnStatus.newer_of_carries {row : ConnStatus} {t time : Int} (carries : row.Carries t)
    (later : time < t) : row.notNewer time = false := by
  rw [← Bool.not_eq_true, ConnStatus.notNewer_iff]
  exact fun all => Int.not_lt.mpr (all t carries) later

/-- One client of the first sync is written. -/
theorem synced_write {clock now : Int} {clients done : List ClientInfo} {known : Option ClientInfo}
    {row : ConnStatus} (snapshot : Snapshot boot x clients known) {info : ClientInfo}
    (listed : info ∈ clients) (past : now ≤ clock) (same : row.thingId = x)
    (synced : Synced boot now x known done row) :
    Synced boot now x known (done ++ [info]) (row.write clock info) := by
  by_cases mine : info.clientId = x
  · have found := snapshot.only info listed mine
    obtain ⟨t, told, later⟩ := snapshot.told info found
    have newest : row.notNewer t = true := by
      rcases synced with ⟨⟨-, before⟩, -⟩ | ⟨info', t', found', tells, told', -⟩
      · rw [ConnStatus.notNewer_iff] at before ⊢
        exact fun u carries => Int.le_trans (before u carries) later
      · cases found.symm.trans found'
        exact told.unique told' ▸ tells.notNewer
    obtain ⟨tells, updated⟩ := ConnStatus.write_accepted clock told (mine.trans same.symm) newest
    exact .inr ⟨info, t, found, tells, told, by omega⟩
  · rw [ConnStatus.write_other (snapshot.named info listed) (by rwa [same])]
    rcases synced with ⟨before, others⟩ | told
    · refine .inl ⟨before, fun other member => ?_⟩
      rcases List.mem_append.mp member with old | new
      · exact others other old
      · rwa [List.mem_singleton.mp new]
    · exact .inr told

theorem synced_batch {clock now : Int} {clients : List ClientInfo} {known : Option ClientInfo}
    (snapshot : Snapshot boot x clients known) (past : now ≤ clock) {todo done : List ClientInfo}
    (listed : ∀ info ∈ todo, info ∈ clients) {row : ConnStatus} (same : row.thingId = x)
    (synced : Synced boot now x known done row) :
    Synced boot now x known (done ++ todo) (todo.foldl (fun row c => row.write clock c) row) := by
  induction todo generalizing done row with
  | nil => simpa using synced
  | cons info rest ih =>
    have first := synced_write snapshot (listed info List.mem_cons_self) past same synced
    have := ih (fun other member => listed other (List.mem_cons_of_mem _ member))
      (by rw [ConnStatus.write_thingId, same]) first
    simpa using this

theorem foldl_write_thingId (clock : Int) (clients : List ClientInfo) (row : ConnStatus) :
    (clients.foldl (fun row c => row.write clock c) row).thingId = row.thingId := by
  induction clients generalizing row with
  | nil => rfl
  | cons c rest ih => rw [List.foldl_cons, ih, ConnStatus.write_thingId]

/-- The rows that no client was written to are disconnected. -/
theorem shows_disconnect {clock now : Int} {clients : List ClientInfo} {known : Option ClientInfo}
    {row : ConnStatus} (snapshot : Snapshot boot x clients known) (past : boot ≤ now)
    (synced : Synced boot now x known clients row) : (row.disconnect clock now).Shows known := by
  rcases synced with ⟨⟨old, -⟩, others⟩ | ⟨info, t, rfl, tells, told, updated⟩
  · have missing : known = none := by
      cases found : known with
      | none => rfl
      | some info =>
        obtain ⟨member, mine⟩ := snapshot.listed info found
        exact absurd mine (others info member)
    rw [missing, ConnStatus.Shows, ConnStatus.disconnect]
    have stale : row.updatedAt < now := by omega
    cases flag : row.connected <;> simp [stale, flag]
  · have kept : row.disconnect clock now = row := by
      have fresh : ¬row.updatedAt < now := by omega
      simp [ConnStatus.disconnect, fresh]
    rw [kept]
    exact ⟨tells.connected, t, t, told.changed, tells.carries, ofUnixMilli_unixMilli_le t⟩

theorem covers_of_tells {row : ConnStatus} {e : PresenceEvent}
    (tells : row.Tells (eventInfo e) (ofUnixMilli e.timestamp)) : row.Covers e :=
  ⟨tells.connected, _, tells.carries, Int.le_refl _⟩

theorem Awaited.elsewhere {e : PresenceEvent} (awaited : Awaited x s) (taken : s.sync = .handle e)
    (other : e.thingId = x → ¬Newest (s.cached x) e) :
    ∃ p ∈ s.publishers, p.event.thingId = x ∧ Newest (s.cached x) p.event := by
  obtain ⟨e', member, own, newest⟩ := awaited
  simp only [State.underway, taken, List.mem_append, List.mem_singleton] at member
  rcases member with published | rfl
  · obtain ⟨p, held, rfl⟩ := List.mem_map.mp published
    exact ⟨p, held, own, newest⟩
  · exact absurd newest (other own)

/-- An event of the thing is written to its rows. -/
theorem shows_handle (follows : Follows boot x s) {e : PresenceEvent} (taken : s.sync = .handle e)
    (named : e.thingId ≠ "") (kept : ¬LosesChange x s .handle) {row : ConnStatus}
    (stored : row ∈ s.rows) (same : row.thingId = x) :
    (∃ p ∈ s.publishers, p.event.thingId = x ∧ Newest (s.cached x) p.event) ∨
      (row.write s.clock (eventInfo e)).Shows (s.cached x) := by
  by_cases elsewhere : ∃ p ∈ s.publishers, p.event.thingId = x ∧ Newest (s.cached x) p.event
  · exact .inl elsewhere
  refine .inr ?_
  have shown : (e.thingId = x → ¬Newest (s.cached x) e) → row.Shows (s.cached x) := by
    intro other
    have reached := follows.reached
    simp only [Reached, taken] at reached
    exact reached.resolve_left (fun awaited => elsewhere (awaited.elsewhere taken other)) row stored same
  by_cases own : e.thingId = x
  swap
  · rw [ConnStatus.write_other named (by rwa [same])]
    exact shown fun mine => absurd mine own
  have told := eventInfo_toldAt e
  by_cases newest : Newest (s.cached x) e
  · cases newer : row.notNewer (ofUnixMilli e.timestamp) with
    | true =>
      have tells := (ConnStatus.write_accepted s.clock told (own.trans same.symm) newer).1
      exact (covers_of_tells tells).shows newest
    | false =>
      rw [ConnStatus.write_refused told newer]
      have flag : row.connected = e.connected := by
        by_contra other
        exact kept (.refused taken own newest stored same newer other)
      have later : ∃ t, row.Carries t ∧ ofUnixMilli e.timestamp ≤ t := by
        by_contra none_later
        rw [← Bool.not_eq_true, ConnStatus.notNewer_iff] at newer
        refine newer fun t carries => ?_
        by_contra late
        exact none_later ⟨t, carries, by omega⟩
      exact ConnStatus.Covers.shows ⟨flag, later⟩ newest
  · have shows := shown fun _ => newest
    obtain ⟨info, t, found, changed, before⟩ := follows.events e (by simp [State.underway, taken]) own
    have earlier : e.timestamp ≠ unixMilli t := by
      intro stamp
      refine kept (.overtaken taken own found changed stamp (fun flag => ?_) fun p held mine recent => ?_)
      · exact newest ⟨info, t, found, changed, stamp, flag⟩
      · exact elsewhere ⟨p, held, mine, recent⟩
    rw [found] at shows ⊢
    obtain ⟨flag, t', u, changed', carries, later⟩ := shows
    cases changed.symm.trans changed'
    have newer : row.notNewer (ofUnixMilli e.timestamp) = false := by
      refine ConnStatus.newer_of_carries carries ?_
      unfold ofUnixMilli at later ⊢
      omega
    rw [ConnStatus.write_refused told newer]
    exact ⟨flag, t, u, changed, carries, later⟩

end

end Tio.Presence
