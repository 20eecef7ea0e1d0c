import Tio.Presence.Sync

namespace Tio.Presence

open Tio.Core

/-- The time of the change that the information tells. -/
def ClientInfo.changedAt (info : ClientInfo) : Option Int :=
  if info.connected then info.connectedAt else info.disconnectedAt

/-- The information tells a change at the time, and nothing later. -/
structure ClientInfo.ToldAt (info : ClientInfo) (time : Int) : Prop where
  changed : info.changedAt = some time
  connectedAt : ∀ t, info.connectedAt = some t → t ≤ time
  disconnectedAt : ∀ t, info.disconnectedAt = some t → t ≤ time

theorem ClientInfo.ToldAt.unique {info : ClientInfo} {time time' : Int} (told : info.ToldAt time)
    (told' : info.ToldAt time') : time = time' :=
  Option.some.inj (told.changed.symm.trans told'.changed)

theorem ClientInfo.ToldAt.statusTime {info : ClientInfo} {time : Int} (told : info.ToldAt time) :
    info.statusTime = some time := by
  obtain ⟨changed, connected, disconnected⟩ := told
  simp only [changedAt] at changed
  cases c : info.connectedAt <;> cases d : info.disconnectedAt <;> simp_all [ClientInfo.statusTime]
  split <;> grind

theorem ClientInfo.ToldAt.lastTime_le {info : ClientInfo} {time last : Int} (told : info.ToldAt time)
    (found : info.lastTime = some last) : last ≤ time := by
  obtain ⟨-, connected, disconnected⟩ := told
  cases c : info.connectedAt <;> cases d : info.disconnectedAt <;> grind [ClientInfo.lastTime]

theorem updateClient_cases (c : ClientInfo) (clients : List (String × ClientInfo)) :
    updateClient c clients = clients ∨
      ∃ info, info.clientId = c.clientId ∧ updateClient c clients = Assoc.set c.clientId info clients := by
  unfold updateClient
  cases Assoc.get c.clientId clients with
  | none => exact .inr ⟨c, rfl, rfl⟩
  | some old =>
    dsimp only
    cases outdated old c with
    | true => exact .inl rfl
    | false =>
      cases c.connected with
      | true => exact .inr ⟨c, rfl, rfl⟩
      | false => exact .inr ⟨{ c with connected := false, connectedAt := old.connectedAt }, rfl, rfl⟩

theorem updateClient_other {c : ClientInfo} {x : String} (other : c.clientId ≠ x)
    (clients : List (String × ClientInfo)) :
    Assoc.get x (updateClient c clients) = Assoc.get x clients := by
  rcases updateClient_cases c clients with same | ⟨info, -, same⟩
  · rw [same]
  · rw [same, Assoc.get_set_other other]

theorem mem_updateClient {c : ClientInfo} {clients : List (String × ClientInfo)}
    {entry : String × ClientInfo} (member : entry ∈ updateClient c clients) :
    entry ∈ clients ∨ entry.1 = c.clientId ∧ entry.2.clientId = c.clientId := by
  rcases updateClient_cases c clients with same | ⟨info, named, same⟩
  · exact .inl (same ▸ member)
  · rw [same] at member
    rcases Assoc.mem_set member with rfl | old
    · exact .inr ⟨rfl, named⟩
    · exact .inl old

theorem nodup_updateClient {c : ClientInfo} {clients : List (String × ClientInfo)}
    (distinct : (Assoc.keys clients).Nodup) : (Assoc.keys (updateClient c clients)).Nodup := by
  rcases updateClient_cases c clients with same | ⟨info, -, same⟩
  · rwa [same]
  · rw [same]
    exact Assoc.nodup_keys_set distinct

/-- With a clock that does not run back a change is never outdated. -/
theorem updateClient_self {c : ClientInfo} {time : Int} (told : c.ToldAt time)
    {clients : List (String × ClientInfo)}
    (past : ∀ old, Assoc.get c.clientId clients = some old → ∃ t, old.ToldAt t ∧ t ≤ time) :
    ∃ info, Assoc.get c.clientId (updateClient c clients) = some info ∧
      info.connected = c.connected ∧ info.ToldAt time := by
  unfold updateClient
  cases found : Assoc.get c.clientId clients with
  | none => exact ⟨c, Assoc.get_set_self _ _ _, rfl, told⟩
  | some old =>
    obtain ⟨t, known, earlier⟩ := past old found
    have timely : outdated old c = false := by
      have stamp : (if c.connected then c.connectedAt else c.disconnectedAt) = some time :=
        told.changed
      unfold outdated
      rw [stamp]
      cases last : old.lastTime with
      | none => rfl
      | some oldTime =>
        have := known.lastTime_le last
        simp only [decide_eq_false_iff_not]
        omega
    dsimp only
    rw [timely, if_neg Bool.false_ne_true]
    split
    · exact ⟨c, Assoc.get_set_self _ _ _, rfl, told⟩
    · rename_i closed
      refine ⟨_, Assoc.get_set_self _ _ _, rfl, ?_, ?_, told.disconnectedAt⟩
      · simpa [ClientInfo.changedAt, closed] using told.changed
      · exact fun s same => Int.le_trans (known.connectedAt s same) earlier

theorem mem_updateConnStatus {clock : Int} {clients : List ClientInfo} {rows : List ConnStatus}
    {row : ConnStatus} : row ∈ updateConnStatus clock clients rows ↔
      ∃ old ∈ rows, clients.foldl (fun row c => row.write clock c) old = row := by
  induction clients generalizing rows with
  | nil => simp [updateConnStatus]
  | cons c rest ih =>
    simp only [updateConnStatus, List.foldl_cons] at ih ⊢
    rw [ih]
    simp

@[simp] theorem ConnStatus.write_thingId (clock : Int) (c : ClientInfo) (row : ConnStatus) :
    (row.write clock c).thingId = row.thingId := by
  unfold ConnStatus.write
  grind

theorem ConnStatus.write_other {clock : Int} {c : ClientInfo} {row : ConnStatus}
    (named : c.clientId ≠ "") (other : c.clientId ≠ row.thingId) : row.write clock c = row := by
  simp [ConnStatus.write, ConnStatus.selectedBy, named, other.symm]

theorem ConnStatus.write_refused {clock time : Int} {c : ClientInfo} {row : ConnStatus}
    (told : c.ToldAt time) (newer : row.notNewer time = false) : row.write clock c = row := by
  simp [ConnStatus.write, ConnStatus.selectedBy, told.statusTime, newer]

/-- The row carries the time of a change. -/
def ConnStatus.Carries (row : ConnStatus) (time : Int) : Prop :=
  row.connectedAt = some time ∨ row.disconnectedAt = some time

/-- The row tells what the information tells. -/
structure ConnStatus.Tells (row : ConnStatus) (info : ClientInfo) (time : Int) : Prop where
  connected : row.connected = info.connected
  carries : row.Carries time
  notNewer : row.notNewer time = true

theorem ConnStatus.write_accepted (clock : Int) {time : Int} {c : ClientInfo} {row : ConnStatus}
    (told : c.ToldAt time) (same : c.clientId = row.thingId) (newest : row.notNewer time = true) :
    (row.write clock c).Tells c time ∧ (row.write clock c).updatedAt = clock := by
  have selected : row.selectedBy c = true := by
    simp [ConnStatus.selectedBy, same, told.statusTime, newest]
  have stamp := told.changed
  simp only [ConnStatus.notNewer, Bool.and_eq_true] at newest
  simp only [ConnStatus.write, selected, if_true, ClientInfo.changedAt] at stamp ⊢
  cases flag : c.connected with
  | true =>
    simp only [flag, if_true] at stamp ⊢
    exact ⟨⟨flag.symm, .inl stamp, by simp [ConnStatus.notNewer, stamp, newest.2]⟩, by simp⟩
  | false =>
    simp only [flag, Bool.false_eq_true, if_false] at stamp ⊢
    exact ⟨⟨flag.symm, .inr stamp, by simp [ConnStatus.notNewer, stamp, newest.1]⟩, by simp⟩

theorem eventInfo_toldAt (e : PresenceEvent) : (eventInfo e).ToldAt (ofUnixMilli e.timestamp) := by
  cases kind : e.eventType <;> constructor <;> simp [eventInfo, ClientInfo.changedAt, kind]

theorem ofUnixMilli_unixMilli_le (t : Int) : ofUnixMilli (unixMilli t) ≤ t := by
  unfold ofUnixMilli unixMilli
  omega

end Tio.Presence
