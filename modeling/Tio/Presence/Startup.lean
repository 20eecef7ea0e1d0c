import Tio.Presence.Follows

namespace Tio.Presence

open Tio.Core

section

variable {boot : Int} {x : String} {s s' : State}

theorem follows_send (follows : Follows boot x s) {i : Nat} {p : Publisher}
    (found : s.publishers[i]? = some p) (listening : s.sync.subscribed = true) :
    Follows boot x { s with publishers := s.publishers.set i { p with sending := true } } := by
  have events : (s.publishers.set i { p with sending := true }).map Publisher.event =
      s.publishers.map Publisher.event := by
    obtain ⟨inside, rfl⟩ := List.getElem?_eq_some_iff.mp found
    rw [List.map_set]
    conv_lhs => rw [← List.getElem_map (h := by simpa using inside) Publisher.event]
    exact List.set_getElem_self _
  have same : ({ s with publishers := s.publishers.set i { p with sending := true } } : State).underway =
      s.underway := by
    simp only [State.underway, events]
  refine ⟨follows.passed, follows.distinct, follows.named, follows.known, ?_, ?_, ?_⟩
  · intro e member
    exact follows.events e (same ▸ member)
  · exact fun idle => absurd (listening.symm.trans idle) (by decide)
  · refine follows.reached.carry rfl rfl (Int.le_refl _) (fun _ => follows.ids) (.inr ⟨rfl, ?_⟩)
    rintro ⟨e, member, awaited⟩
    exact .inl ⟨e, same ▸ member, awaited⟩

/-- Nobody listens yet. -/
theorem follows_unheard (follows : Follows boot x s) {i : Nat} {p : Publisher}
    (found : s.publishers[i]? = some p) (deaf : s.sync.subscribed = false)
    (kept : ¬LosesChange x s (.publish i)) : Follows boot x (s.passed i p) := by
  refine follows_passed follows found fun own last newest => ?_
  cases syncing : s.sync.snapshotted with
  | none =>
    refine .inr ?_
    have reached := follows.reached
    cases phase : s.sync <;> simp_all [Reached, SyncPc.snapshotted, SyncPc.subscribed, State.passed]
  | some clients =>
    refine .inl ?_
    by_contra fresh
    exact kept (.unheard found own last newest syncing fun info known listed =>
      fresh ⟨clients, info, rfl, known, listed⟩)

theorem follows_receive (follows : Follows boot x s) {i : Nat} {p : Publisher}
    (found : s.publishers[i]? = some p) (listening : s.sync = .listen) :
    Follows boot x { s.passed i p with sync := .handle p.event } := by
  have kept : ∀ e ∈ s.underway,
      e ∈ ({ s.passed i p with sync := .handle p.event } : State).underway := by
    intro e member
    simp only [State.underway, listening, List.append_nil] at member
    rcases passed_keeps found member with still | ⟨rfl, -⟩
    · exact List.mem_append_left _ still
    · simp [State.underway]
  refine ⟨follows.passed, follows.distinct, follows.named, follows.known, ?_, by simp [SyncPc.subscribed], ?_⟩
  · intro e member own
    refine follows.events e ?_ own
    simp only [State.underway, listening, List.append_nil]
    simp only [State.underway, List.mem_append, List.mem_singleton] at member
    rcases member with published | rfl
    · exact mem_passed found published
    · exact List.mem_map_of_mem (List.mem_of_getElem? found)
  · have reached := follows.reached
    simp only [Reached, listening] at reached ⊢
    rcases reached with ⟨e, member, awaited⟩ | shows
    · exact .inl ⟨e, kept e member, awaited⟩
    · exact .inr shows

theorem follows_expire (follows : Follows boot x s) {i : Nat} {p : Publisher}
    (found : s.publishers[i]? = some p) (sending : p.sending = true)
    (kept : ¬LosesChange x s (.expire i)) : Follows boot x (s.passed i p) := by
  refine follows_passed follows found fun own last newest => .inr ?_
  have shows : ∀ row ∈ s.rows, row.thingId = x → row.Shows (s.cached x) := by
    intro row stored same
    refine ConnStatus.Covers.shows ?_ newest
    by_contra behind
    exact kept (.expired found own last newest stored same behind)
  have listening : s.sync.subscribed = true := by
    by_contra deaf
    rw [Bool.not_eq_true] at deaf
    have := follows.waiting deaf p (List.mem_of_getElem? found)
    simp [sending] at this
  have sync : (s.passed i p).sync = s.sync := rfl
  cases phase : s.sync <;> simp only [phase, SyncPc.subscribed, Bool.false_eq_true] at listening
  all_goals
    simp only [Reached, sync, phase]
    exact .inr shows

theorem follows_sync (follows : Follows boot x s) {sync : SyncPc} {rows : List ConnStatus}
    (same : s.sync.subscribed = sync.subscribed)
    (events : ∀ e ∈ ({ s with rows, sync } : State).underway, e ∈ s.underway)
    (reached : Reached boot x { s with rows, sync }) : Follows boot x { s with rows, sync } :=
  ⟨follows.passed, follows.distinct, follows.named, follows.known,
    fun e member => follows.events e (events e member), fun deaf => follows.waiting (same.trans deaf),
    reached⟩

theorem Awaited.sync {sync : SyncPc} {rows : List ConnStatus}
    (events : ∀ e ∈ s.underway, e ∈ ({ s with rows, sync } : State).underway) (awaited : Awaited x s) :
    Awaited x { s with rows, sync } := by
  obtain ⟨e, member, own⟩ := awaited
  exact ⟨e, events e member, own⟩

theorem follows_takeNow (follows : Follows boot x s) (phase : s.sync = .start) :
    Follows boot x { s with sync := .snapshot s.clock } := by
  refine follows_sync follows (by rw [phase]; rfl) (by simp [State.underway, phase]) ?_
  have reached := follows.reached
  simp only [Reached, phase] at reached ⊢
  exact ⟨follows.passed, Int.le_refl _, reached⟩

theorem follows_allClientInfo (follows : Follows boot x s) {now : Int} {order : List ClientInfo}
    (phase : s.sync = .snapshot now) (walked : order.Perm (s.clients.map Prod.snd)) :
    Follows boot x { s with sync := .update now order 0 } := by
  refine follows_sync follows (by rw [phase]; rfl) (by simp [State.underway, phase]) ?_
  have reached := follows.reached
  simp only [Reached, phase] at reached ⊢
  obtain ⟨booted, past, before⟩ := reached
  refine ⟨booted, past, s.cached x, ⟨?_, ?_, ?_, ?_⟩, .inl rfl, ?_⟩
  · intro info listed
    obtain ⟨entry, member, rfl⟩ := List.mem_map.mp (walked.mem_iff.mp listed)
    obtain ⟨same, named⟩ := follows.named entry member
    exact same ▸ named
  · intro info listed mine
    obtain ⟨⟨key, info⟩, member, rfl⟩ := List.mem_map.mp (walked.mem_iff.mp listed)
    have same := (follows.named _ member).1.symm.trans mine
    exact Assoc.get_of_mem follows.distinct (same ▸ member)
  · intro info found
    have member := Assoc.mem_of_get found
    exact ⟨walked.mem_iff.mpr (List.mem_map_of_mem member), (follows.named _ member).1⟩
  · intro info found
    obtain ⟨t, told, later, -⟩ := follows.known info found
    exact ⟨t, told, later⟩
  · exact fun row stored same => .inl ⟨before row stored same, by simp⟩

theorem follows_updateBatch (follows : Follows boot x s) {now : Int} {clients : List ClientInfo}
    {offset : Nat} (phase : s.sync = .update now clients offset) :
    Follows boot x { s with
      rows := updateConnStatus s.clock ((clients.drop offset).take batch) s.rows
      sync := .update now clients (offset + batch) } := by
  refine follows_sync follows (by rw [phase]; rfl) (by simp [State.underway, phase]) ?_
  have reached := follows.reached
  simp only [Reached, phase] at reached ⊢
  obtain ⟨booted, past, known, snapshot, pending, synced⟩ := reached
  refine ⟨booted, past, known, snapshot, pending.imp_right (.sync (by simp [State.underway, phase])), ?_⟩
  intro row stored same
  obtain ⟨old, member, rfl⟩ := mem_updateConnStatus.mp stored
  rw [foldl_write_thingId] at same
  rw [List.take_add]
  refine synced_batch snapshot past (fun info listed => ?_) same (synced old member same)
  exact List.mem_of_mem_drop (List.mem_of_mem_take listed)

theorem follows_updated (follows : Follows boot x s) {now : Int} {clients : List ClientInfo}
    {offset : Nat} (phase : s.sync = .update now clients offset) (through : clients.length ≤ offset) :
    Follows boot x { s with sync := .disconnectAll now clients } := by
  refine follows_sync follows (by rw [phase]; rfl) (by simp [State.underway, phase]) ?_
  have reached := follows.reached
  simp only [Reached, phase, List.take_of_length_le through] at reached ⊢
  obtain ⟨booted, -, known, snapshot, pending, synced⟩ := reached
  exact ⟨booted, known, snapshot, pending.imp_right (.sync (by simp [State.underway, phase])), synced⟩

theorem follows_disconnectAll (follows : Follows boot x s) {now : Int} {clients : List ClientInfo}
    (phase : s.sync = .disconnectAll now clients) :
    Follows boot x { s with
      rows := updateAllConnStatusDisconnect s.clock now s.rows
      sync := .subscribe clients } := by
  refine follows_sync follows (by rw [phase]; rfl) (by simp [State.underway, phase]) ?_
  have reached := follows.reached
  simp only [Reached, phase] at reached ⊢
  obtain ⟨booted, known, snapshot, pending, synced⟩ := reached
  refine ⟨known, snapshot, pending.imp_right (.sync (by simp [State.underway, phase])),
    fun row stored same => ?_⟩
  obtain ⟨old, member, rfl⟩ := List.mem_map.mp stored
  refine shows_disconnect snapshot booted (synced old member ?_)
  rw [← same]
  unfold ConnStatus.disconnect
  split <;> rfl

theorem follows_onConnect (follows : Follows boot x s) {clients : List ClientInfo}
    (phase : s.sync = .subscribe clients) : Follows boot x { s with sync := .listen } := by
  have reached := follows.reached
  simp only [Reached, phase] at reached
  obtain ⟨known, -, pending, shows⟩ := reached
  refine ⟨follows.passed, follows.distinct, follows.named, follows.known, ?_, by simp [SyncPc.subscribed], ?_⟩
  · exact fun e member => follows.events e (by simpa [State.underway, phase] using member)
  · rcases pending with settled | ⟨e, member, awaited⟩
    · exact .inr (settled ▸ shows)
    · exact .inl ⟨e, by simpa [State.underway, phase] using member, awaited⟩

theorem follows_handle (follows : Follows boot x s) {e : PresenceEvent} (phase : s.sync = .handle e)
    (kept : ¬LosesChange x s .handle) :
    Follows boot x { s with rows := updateConnStatus s.clock [eventInfo e] s.rows, sync := .listen } := by
  refine follows_sync follows (by rw [phase]; rfl) (by simp +contextual [State.underway, phase]) ?_
  have named : e.thingId ≠ "" := fun nameless => kept (.unnamed phase nameless)
  by_cases elsewhere : ∃ p ∈ s.publishers, p.event.thingId = x ∧ Newest (s.cached x) p.event
  · obtain ⟨p, held, awaited⟩ := elsewhere
    exact .inl ⟨p.event, by simpa [State.underway] using ⟨p, held, rfl⟩, awaited⟩
  · refine .inr fun row stored same => ?_
    obtain ⟨old, member, rfl⟩ := mem_updateConnStatus.mp stored
    rw [foldl_write_thingId] at same
    exact (shows_handle follows phase named kept member same).resolve_left elsewhere

theorem follows_step (follows : Follows boot x s) (valid : Thing.idValid x = true) {a : Action}
    (own : OwnClient x a) (kept : ¬LosesChange x s a) (taken : step s a = some s') :
    Follows boot x s' := by
  have present : isPublishPresent x = true := by
    simp only [isPublishPresent, Bool.not_eq_true']
    rw [← Bool.not_eq_true, List.isPrefixOf_iff_prefix]
    rintro ⟨rest, same⟩
    simp only [Thing.idValid, Bool.and_eq_true, List.all_eq_true] at valid
    exact absurd (valid.2 '$' (same ▸ by simp)) (by decide)
  cases a with
  | elapse time =>
    cases taken
    have passed : s.clock ≤ s.clock + time := by omega
    refine ⟨Int.le_trans follows.passed passed, follows.distinct, follows.named, ?_, follows.events,
      follows.waiting, ?_⟩
    · intro info found
      obtain ⟨t, told, later, past⟩ := follows.known info found
      exact ⟨t, told, later, Int.le_trans past passed⟩
    · exact follows.reached.carry rfl rfl passed (fun _ => follows.ids) (.inr ⟨rfl, .inl⟩)
  | established clientId username remoteAddr =>
    simp only [step] at taken
    split at taken
    · cases taken
    cases taken
    exact follows_hook follows present ‹_› own ⟨rfl, by simp [toClientInfo], by simp [toClientInfo]⟩ rfl rfl rfl
  | closed clientId username remoteAddr err =>
    simp only [step] at taken
    split at taken
    · cases taken
    cases taken
    exact follows_hook follows present ‹_› own ⟨rfl, by simp [toClientInfo], by simp [toClientInfo]⟩ rfl rfl rfl
  | publish i =>
    obtain ⟨p, found, taken⟩ := Option.bind_eq_some_iff.mp taken
    split at taken
    · cases taken
    split at taken
    · cases taken
      exact follows_send follows found ‹_›
    · cases taken
      exact follows_unheard follows found (Bool.not_eq_true _ ▸ ‹_›) kept
  | receive i =>
    obtain ⟨p, found, taken⟩ := Option.bind_eq_some_iff.mp taken
    split at taken
    · cases taken
      rename_i ready
      simp only [Bool.and_eq_true, decide_eq_true_eq] at ready
      exact follows_receive follows found ready.2
    · cases taken
  | expire i =>
    obtain ⟨p, found, taken⟩ := Option.bind_eq_some_iff.mp taken
    split at taken
    · cases taken
      exact follows_expire follows found ‹_› kept
    · cases taken
  | takeNow =>
    simp only [step] at taken
    split at taken
    · cases taken
      exact follows_takeNow follows ‹_›
    · cases taken
  | allClientInfo order =>
    simp only [step] at taken
    split at taken
    · split at taken
      · cases taken
        exact follows_allClientInfo follows ‹_› (List.isPerm_iff.mp ‹_›)
      · cases taken
    · cases taken
  | updateBatch =>
    simp only [step] at taken
    split at taken
    · split at taken
      · cases taken
        exact follows_updateBatch follows ‹_›
      · cases taken
        exact follows_updated follows ‹_› (Nat.le_of_not_lt ‹_›)
    · cases taken
  | updateAllDisconnect =>
    simp only [step] at taken
    split at taken
    · cases taken
      exact follows_disconnectAll follows ‹_›
    · cases taken
  | onConnect =>
    simp only [step] at taken
    split at taken
    · cases taken
      exact follows_onConnect follows ‹_›
    · cases taken
  | handle =>
    simp only [step] at taken
    split at taken
    · cases taken
      exact follows_handle follows ‹_› kept
    · cases taken

theorem follows_booted (booted : Booted s) (x : String) : Follows s.clock x s := by
  obtain ⟨sync, clients, publishers, earlier⟩ := booted
  have unseen : s.cached x = none := by rw [State.cached, clients]; rfl
  refine ⟨Int.le_refl _, by simp [clients, Assoc.keys], by simp [clients], ?_, ?_, ?_, ?_⟩
  · intro info found
    rw [unseen] at found
    cases found
  · simp [State.underway, publishers, sync]
  · simp [publishers]
  · simp only [Reached, sync]
    exact fun row stored _ => earlier row stored

theorem Follows.agrees (follows : Follows boot x s) : Agrees x s := by
  intro listening handled row stored same
  have reached := follows.reached
  have quiet : ¬Awaited x s := by
    rintro ⟨e, member, own, -⟩
    exact handled e member own
  have shows : row.Shows (s.cached x) := by
    cases phase : s.sync <;> simp only [phase, SyncPc.subscribed, Bool.false_eq_true] at listening
    all_goals
      simp only [Reached, phase] at reached
      exact reached.resolve_left quiet row stored same
  cases found : s.cached x with
  | none => simpa [found, ConnStatus.Shows] using shows
  | some info =>
    rw [found] at shows
    exact shows.1

end

/-- From the subscription on the rows of a thing agree with the cache as soon as
its events are handled, in every run that loses none of its changes. -/
theorem presence_kept {x : String} {s : State} {labels : List Action} (booted : Booted s)
    (valid : Thing.idValid x = true) (own : ∀ a ∈ labels, OwnClient x a)
    (kept : Meets step (fun s a => ¬LosesChange x s a) s labels) :
    Always step (fun _ _ next => Agrees x next) s labels := by
  have steps : Meets step (fun s a => OwnClient x a ∧ ¬LosesChange x s a) s labels :=
    Always.and (meets_of_labels (fun a member _ => own a member) s) kept
  refine steps.always (Follows s.clock x) (fun start a next follows condition taken => ?_)
    (follows_booted booted x)
  have follows' := follows_step follows valid condition.1 condition.2 taken
  exact ⟨follows'.agrees, follows'⟩

def lampRow : ConnStatus := ⟨"lamp", false, none, none, [], "", 0⟩

def lampBoot : State := ⟨1000000, [], [], [lampRow], .start⟩

def lampInfo : ClientInfo := ⟨"lamp", "lamp", true, some 1000000, none, [], "10.0.0.7"⟩

/-- The client comes before the first sync. -/
def promptRun : List Action :=
  [.established "lamp" "lamp" "10.0.0.7", .publish 0, .publish 0, .takeNow, .allClientInfo [lampInfo],
    .updateBatch, .updateBatch, .updateAllDisconnect, .onConnect]

theorem prompt_client_shown : Always step (fun _ _ next => Agrees "lamp" next) lampBoot promptRun := by
  refine presence_kept ⟨rfl, rfl, rfl, by simp [lampBoot, lampRow, ConnStatus.notNewer]⟩ (by decide)
    (by simp [promptRun, OwnClient]) ?_
  have calm : ∀ labels : List Action, (∀ a ∈ labels, (∀ i, a ≠ .publish i) ∧ (∀ i, a ≠ .expire i) ∧
      a ≠ .handle) → ∀ s, Meets step (fun s a => ¬LosesChange "lamp" s a) s labels := by
    refine fun labels others => meets_of_labels fun a member s lost => ?_
    obtain ⟨unpublished, unexpired, unhandled⟩ := others a member
    cases lost with
    | unheard => exact unpublished _ rfl
    | expired => exact unexpired _ rfl
    | refused | overtaken | unnamed => exact unhandled rfl
  refine fun s taken => ⟨(fun lost => by cases lost), fun s' taken' => ⟨?_, fun s'' taken'' => ⟨?_, calm _ (by simp) s''⟩⟩⟩
  · cases taken
    intro lost
    cases lost with
    | unheard _ _ _ _ syncing => cases syncing
  · cases taken
    cases taken'
    intro lost
    cases lost with
    | unheard _ _ _ _ syncing => cases syncing

/-- The client comes between the snapshot and the subscription. -/
def gapRun : List Action :=
  [.takeNow, .allClientInfo [], .updateBatch, .updateAllDisconnect,
    .established "lamp" "lamp" "10.0.0.7", .publish 0, .publish 0]

theorem gap_client_missed :
    (execute step lampBoot (gapRun ++ [.onConnect])).map (fun s =>
      (s.sync, s.publishers, s.clients, s.rows.map ConnStatus.connected)) =
      some (.listen, [], [("lamp", lampInfo)], [false]) ∧
    ¬Always step (fun _ _ next => Agrees "lamp" next) lampBoot (gapRun ++ [.onConnect]) := by
  refine ⟨rfl, fun every => ?_⟩
  have agrees := ((every.after rfl) _ rfl).1
  exact Bool.noConfusion (agrees rfl (by intros; contradiction) _ (List.mem_singleton_self _) rfl)

end Tio.Presence
