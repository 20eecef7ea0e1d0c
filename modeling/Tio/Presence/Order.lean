import Tio.Core.Latest
import Tio.Presence.Status

namespace Tio.Presence

open Tio.Core

/-- The event loop handles the events one after the other, each at its own time. -/
def handleAll (order : List (Int × PresenceEvent)) (rows : List ConnStatus) : List ConnStatus :=
  order.foldl (fun rows entry => updateConnStatus entry.1 [eventInfo entry.2] rows) rows

def ConnStatus.handle (row : ConnStatus) (entry : Int × PresenceEvent) : ConnStatus :=
  row.write entry.1 (eventInfo entry.2)

def handledAt (entry : Int × PresenceEvent) : Int := ofUnixMilli entry.2.timestamp

/-- The row holds the event: it has its kind and its time, and nothing later. -/
def ConnStatus.HoldsEvent (row : ConnStatus) (entry : Int × PresenceEvent) : Prop :=
  row.thingId = entry.2.thingId ∧ row.Tells (eventInfo entry.2) (handledAt entry)

section

variable {row : ConnStatus} {entry : Int × PresenceEvent}

theorem handleAll_rows (order : List (Int × PresenceEvent)) (rows : List ConnStatus) :
    handleAll order rows = rows.map fun row => order.foldl ConnStatus.handle row := by
  induction order generalizing rows with
  | nil => simp [handleAll]
  | cons entry rest ih =>
    rw [handleAll, List.foldl_cons, ← handleAll, ih]
    simp [updateConnStatus, ConnStatus.handle]

theorem holdsEvent_of_newest (same : row.thingId = entry.2.thingId)
    (newest : row.notNewer (handledAt entry) = true) : (row.handle entry).HoldsEvent entry := by
  have accepted := ConnStatus.write_accepted entry.1 (eventInfo_toldAt entry.2) same.symm newest
  exact ⟨(ConnStatus.write_thingId _ _ _).trans same, accepted.1⟩

theorem notNewer_mono {time time' : Int} (earlier : row.notNewer time = true) (less : time ≤ time') :
    row.notNewer time' = true := by
  simp only [ConnStatus.notNewer, Bool.and_eq_true, Option.all_eq_true, decide_eq_true_eq] at earlier ⊢
  constructor
  · intro connected found
    exact Int.le_trans (earlier.1 connected found) less
  · intro disconnected found
    exact Int.le_trans (earlier.2 disconnected found) less

/-- A row with a later time is newer. -/
theorem ConnStatus.Carries.newer {time time' : Int} (carries : row.Carries time') (less : time < time') :
    row.notNewer time = false := by
  rcases carries with connected | disconnected
  · simp [ConnStatus.notNewer, connected, Int.not_le.mpr less]
  · simp [ConnStatus.notNewer, disconnected, Int.not_le.mpr less]

/-- An older event does not change the row. -/
theorem handle_older {held : Int × PresenceEvent} (holds : row.HoldsEvent held)
    (older : handledAt entry < handledAt held) : row.handle entry = row :=
  ConnStatus.write_refused (eventInfo_toldAt entry.2) (holds.2.carries.newer older)

/-- The larger of the two columns is the time of the event. -/
theorem ConnStatus.HoldsEvent.max_eq (holds : row.HoldsEvent entry) :
    max row.connectedAt row.disconnectedAt = some (handledAt entry) := by
  obtain ⟨-, -, carries, notNewer⟩ := holds
  simp only [ConnStatus.notNewer, Bool.and_eq_true, Option.all_eq_true, decide_eq_true_eq] at notNewer
  rcases carries with found | found
  · rw [found]
    cases other : row.disconnectedAt with
    | none => rfl
    | some disconnected =>
      have less := notNewer.2 disconnected other
      simp [Int.max_eq_left less]
  · rw [found]
    cases other : row.connectedAt with
    | none => rfl
    | some connected =>
      have less := notNewer.1 connected other
      simp [Int.max_eq_right less]

end

/-- For the events of its thing the row is a register. -/
theorem register_handle (x : String) :
    Register handledAt (fun entry => entry.2.thingId = x) ConnStatus.handle
      fun row entry => row.thingId = x ∧ row.HoldsEvent entry := by
  constructor
  · intro row held entry holds named later
    obtain ⟨here, same, tells⟩ := holds
    have newest := notNewer_mono tells.notNewer later
    exact ⟨(ConnStatus.write_thingId _ _ _).trans here, holdsEvent_of_newest (here.trans named.symm) newest⟩
  · intro row held entry holds named older
    exact handle_older holds.2 older

section

variable {row : ConnStatus} {order : List (Int × PresenceEvent)}

/-- After events of its thing a row that none of them is older than holds the newest. -/
theorem holds_latest (own : ∀ entry ∈ order, entry.2.thingId = row.thingId)
    (since : ∀ entry ∈ order, row.notNewer (handledAt entry) = true) (some : order ≠ []) :
    ∃ last, Latest handledAt order last ∧ (order.foldl ConnStatus.handle row).HoldsEvent last := by
  cases order with
  | nil => exact absurd rfl some
  | cons first rest =>
    obtain ⟨named, later⟩ := List.forall_mem_cons.mp own
    have holds := holdsEvent_of_newest named.symm (since first List.mem_cons_self)
    have here : (row.handle first).thingId = row.thingId := ConnStatus.write_thingId _ _ _
    obtain ⟨last, latest, stored⟩ :=
      (register_handle row.thingId).foldl ⟨here, holds⟩ later
    exact ⟨last, latest, stored.2⟩

end

/-- The events of one thing, none of them older than the row. -/
structure Batch (row : ConnStatus) where
  events : List PresenceEvent
  own : ∀ e ∈ events, e.thingId = row.thingId
  distinct : (events.map PresenceEvent.timestamp).Nodup
  since : ∀ e ∈ events, row.notNewer (ofUnixMilli e.timestamp) = true

/-- The events in any order, each of them at least once. -/
structure Batch.Delivered {row : ConnStatus} (batch : Batch row) (order : List (Int × PresenceEvent)) :
    Prop where
  told : ∀ entry ∈ order, entry.2 ∈ batch.events
  all : ∀ e ∈ batch.events, ∃ clock, (clock, e) ∈ order

theorem ofUnixMilli_strict {ms ms' : Int} : ofUnixMilli ms < ofUnixMilli ms' ↔ ms < ms' := by
  unfold ofUnixMilli
  omega

/-- However the events are delivered, the row ends with the newest of them, and no
event changes it after a newer one. -/
theorem events_confluent (row : ConnStatus) (batch : Batch row) (order : List (Int × PresenceEvent))
    (delivered : batch.Delivered order) :
    (∀ newest ∈ batch.events, (∀ e ∈ batch.events, e.timestamp ≤ newest.timestamp) →
      ∃ row', handleAll order [row] = [row'] ∧
        row'.connected = (newest.eventType == .connected) ∧
        max row'.connectedAt row'.disconnectedAt = some (ofUnixMilli newest.timestamp)) ∧
    ∀ before entry after, order = before ++ entry :: after →
      (∃ newer ∈ before, entry.2.timestamp < newer.2.timestamp) →
      handleAll (before ++ [entry]) [row] = handleAll before [row] := by
  have own : ∀ entry ∈ order, entry.2.thingId = row.thingId :=
    fun entry member => batch.own entry.2 (delivered.told entry member)
  have since : ∀ entry ∈ order, row.notNewer (handledAt entry) = true :=
    fun entry member => batch.since entry.2 (delivered.told entry member)
  constructor
  · intro newest member largest
    obtain ⟨clock, listed⟩ := delivered.all newest member
    obtain ⟨last, latest, holds⟩ := holds_latest own since (List.ne_nil_of_mem listed)
    have told := delivered.told last latest.member
    have below : ofUnixMilli newest.timestamp ≤ ofUnixMilli last.2.timestamp :=
      latest.largest (clock, newest) listed
    have same : last.2 = newest := by
      apply List.inj_on_of_nodup_map batch.distinct told member
      apply Int.le_antisymm (largest last.2 told)
      apply Int.not_lt.mp
      intro less
      have less := ofUnixMilli_strict.mpr less
      omega
    refine ⟨order.foldl ConnStatus.handle row, by simp [handleAll_rows], ?_, ?_⟩
    · rw [holds.2.connected, same]
      rfl
    · rw [holds.max_eq, handledAt, same]
  · intro before entry after split older
    obtain ⟨newer, member, less⟩ := older
    have within : ∀ other ∈ before, other ∈ order := by
      intro other inside
      rw [split]
      exact List.mem_append_left _ inside
    obtain ⟨last, latest, holds⟩ := holds_latest (fun other inside => own other (within other inside))
      (fun other inside => since other (within other inside)) (List.ne_nil_of_mem member)
    have below := latest.largest newer member
    have older : handledAt entry < handledAt last :=
      Int.lt_of_lt_of_le (ofUnixMilli_strict.mpr less) below
    have same := handle_older holds older
    simp [handleAll_rows, List.foldl_append, same]

/-- A row, and two events of its thing. -/
def sampleRow : ConnStatus := ⟨"a", false, none, some 0, [], "", 0⟩

def sampleBatch : Batch sampleRow where
  events := [⟨1, .connected, "a", "a", "addr", []⟩, ⟨2, .disconnected, "a", "a", "addr", []⟩]
  own := by decide
  distinct := by decide
  since := by decide

/-- The newer event comes first, and both come twice. -/
def sampleOrder : List (Int × PresenceEvent) :=
  (sampleBatch.events ++ sampleBatch.events).reverse.map fun e => (7, e)

theorem sample_confluent :
    (∀ newest ∈ sampleBatch.events, (∀ e ∈ sampleBatch.events, e.timestamp ≤ newest.timestamp) →
      ∃ row', handleAll sampleOrder [sampleRow] = [row'] ∧
        row'.connected = (newest.eventType == .connected) ∧
        max row'.connectedAt row'.disconnectedAt = some (ofUnixMilli newest.timestamp)) ∧
    handleAll (sampleOrder.take 2) [sampleRow] = handleAll (sampleOrder.take 1) [sampleRow] := by
  have delivered : sampleBatch.Delivered sampleOrder :=
    ⟨by decide, fun e member => ⟨7, List.mem_map.mpr ⟨e, by simpa using member, rfl⟩⟩⟩
  obtain ⟨newest, older⟩ := events_confluent sampleRow sampleBatch sampleOrder delivered
  refine ⟨newest, older (sampleOrder.take 1) (sampleOrder.get ⟨1, by decide⟩) (sampleOrder.drop 2) ?_ ?_⟩
  · rfl
  · decide

end Tio.Presence
