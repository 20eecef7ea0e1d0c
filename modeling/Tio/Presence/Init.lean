import Tio.Core.Paging
import Tio.Presence.NilTime

/-! `initClientsInfo` of `connector/mqtt/emqx/emqx.go` while the adapter starts. It reads the
clients of the broker page by page, and between two pages the broker's list changes, events
are handled, and infos are loaded. -/

namespace Tio.Presence.Emqx.Init

open Tio.Core NilTime

structure ClientPage where
  data : List ClientInfo
  count : Int
  limit : Int
  page : Int
deriving DecidableEq

def limit : Nat := 1000

/-- Where the loop stands: before a request, at the clients of a page, or behind its end. -/
inductive Pc
  | fetch (page : Nat)
  | each (rest : List ClientInfo) (page : Nat) (answer : ClientPage)
  | update (call : Call) (rest : List ClientInfo) (page : Nat) (answer : ClientPage)
  | done
deriving DecidableEq

/-- The page that the loop asks for. -/
def Pc.asks : Pc → Option Nat
  | .fetch page => some page
  | _ => none

/-- The clients that the broker lists stand beside what the adapter has. -/
structure State where
  adapter : NilTime.State
  pc : Pc
  listing : List ClientInfo

inductive Label
  /-- Without an answer the program ends. -/
  | fetch (answer : Option ClientPage)
  | go (now : Int)
  | adapter (label : NilTime.Label)
  | listing (listing : List ClientInfo)

/-- There is no page behind this one. -/
def ClientPage.final (answer : ClientPage) : Bool :=
  answer.data.length = 0 || answer.count ≤ answer.page * answer.limit

/-- The loop behind a step of an `updateClient`. A panic there ends the program. -/
def went (s : State) (clients : List (String × Client)) (call : Call) (rest : List ClientInfo) (page : Nat)
    (answer : ClientPage) : Option State :=
  let adapter := { s.adapter with clients := clients }
  match call with
  | .panicked => none
  | .returned => some { s with adapter := adapter, pc := .each rest page answer }
  | call => some { s with adapter := adapter, pc := .update call rest page answer }

def step (s : State) : Label → Option State
  | .fetch answer =>
    match s.pc, answer with
    | .fetch page, some answer => some { s with pc := .each answer.data page answer }
    | _, _ => none
  | .go now =>
    match s.pc with
    | .each [] page answer => some { s with pc := if answer.final then .done else .fetch (page + 1) }
    | .each (c :: rest) page answer => some { s with pc := .update (Begin.initClient c).call rest page answer }
    | .update call rest page answer =>
      (call.advance s.adapter.clients (.go now)).bind fun (clients, call) => went s clients call rest page answer
    | .fetch _ | .done => none
  | .adapter label => (NilTime.step s.adapter label).map fun adapter => { s with adapter := adapter }
  | .listing listing => some { s with listing := listing }

def start (adapter : NilTime.State) (listing : List ClientInfo) : State := ⟨adapter, .fetch 1, listing⟩

/-- The position of a client in a list of the broker. -/
def position (x : String) (listing : List ClientInfo) : Nat := listing.findIdx fun c => c.clientId = x

/-- The answer to a request for a page of the list. -/
def clientPage (listing : List ClientInfo) (page : Nat) : ClientPage :=
  ⟨Core.page limit (page - 1) listing, listing.length, limit, page⟩

/-- The broker answers with a page of its list. The client stays in the list, none leaves
the list in front of the client, and the list has at most so many clients. -/
def Stays (x : String) (most : Nat) (s : State) : Label → Prop
  | .fetch answer => ∀ page ∈ s.pc.asks, ∀ a ∈ answer, a = clientPage s.listing page
  | .listing listing =>
    position x s.listing ≤ position x listing ∧ position x listing < listing.length ∧ listing.length ≤ most
  | _ => True

instance (x : String) (most : Nat) (s : State) : ∀ label, Decidable (Stays x most s label)
  | .fetch answer => inferInstanceAs (Decidable (∀ page ∈ s.pc.asks, ∀ a ∈ answer, a = clientPage s.listing page))
  | .listing listing => inferInstanceAs (Decidable (position x s.listing ≤ position x listing ∧
      position x listing < listing.length ∧ listing.length ≤ most))
  | .go _ | .adapter _ => inferInstanceAs (Decidable True)

/-- The call stores an entry of the client, unless there is one. -/
def Brings (x : String) : Call → Prop
  | .update _ i | .store i => i.clientId = x
  | _ => False

/-- The client is on a page behind this one, and there is such a page. -/
def Behind (x : String) (listing : List ClientInfo) (page : Nat) (answer : ClientPage) : Prop :=
  1 ≤ page ∧ page * limit ≤ position x listing ∧ answer.final = false

/-- The loop still has to come to the client. -/
def Coming (x : String) (listing : List ClientInfo) : Pc → Prop
  | .fetch page => 1 ≤ page ∧ (page - 1) * limit ≤ position x listing
  | .each rest page answer => x ∈ rest.map ClientInfo.clientId ∨ Behind x listing page answer
  | .update call rest page answer =>
    Brings x call ∨ x ∈ rest.map ClientInfo.clientId ∨ Behind x listing page answer
  | .done => False

/-- The client is in the cache, or the loop still has to come to it. -/
structure Known (x : String) (s : State) : Prop where
  listed : position x s.listing < s.listing.length
  known : x ∈ Assoc.keys s.adapter.clients ∨ Coming x s.listing s.pc

/-- There were clients enough for the pages that the loop has asked for. -/
def Filled (most : Nat) : Pc → Prop
  | .fetch page => (page - 1) * limit < most
  | .each _ page answer | .update _ _ page answer => answer.final = true ∨ page * limit < most
  | .done => True

structure Asked (most : Nat) (s : State) : Prop where
  short : s.listing.length ≤ most
  filled : Filled most s.pc

section

variable {x : String} {most : Nat} {s s' : State} {label : Label} {clients clients' : List (String × Client)}
  {call next : Call}

theorem coming_mono {listing listing' : List ClientInfo} {pc : Pc} (ahead : position x listing ≤ position x listing')
    (coming : Coming x listing pc) : Coming x listing' pc := by
  cases pc with
  | fetch page => exact ⟨coming.1, Nat.le_trans coming.2 ahead⟩
  | each rest page answer => exact coming.imp_right fun behind => ⟨behind.1, Nat.le_trans behind.2.1 ahead, behind.2.2⟩
  | update call rest page answer =>
    exact coming.imp_right (Or.imp_right fun behind => ⟨behind.1, Nat.le_trans behind.2.1 ahead, behind.2.2⟩)
  | done => exact coming

theorem keys_mono {input : Input} (taken : call.advance clients input = some (clients', next))
    (member : x ∈ Assoc.keys clients) : x ∈ Assoc.keys clients' := by
  rcases advance_clients taken with rfl | ⟨i, now, -, rfl⟩
  · exact member
  · exact Assoc.mem_keys_set.mpr (.inr member)

/-- The entries of others come and go, but nobody removes one. -/
theorem adapter_keys {adapter adapter' : NilTime.State} {label : NilTime.Label}
    (taken : NilTime.step adapter label = some adapter') (member : x ∈ Assoc.keys adapter.clients) :
    x ∈ Assoc.keys adapter'.clients := by
  rcases NilTime.step_cases taken with ⟨b, -, same, -⟩ | ⟨index, input, call, next, -, -, moved, -⟩
  · exact same ▸ member
  · exact keys_mono moved member

/-- A call that brings the client leaves it in the cache when it returns. -/
theorem advance_brings {now : Int} (taken : call.advance clients (.go now) = some (clients', next))
    (brings : Brings x call) (goes : next ≠ .panicked) :
    x ∈ Assoc.keys clients' ∨ next ≠ .returned ∧ Brings x next := by
  cases call with
  | update source i =>
    obtain rfl : i.clientId = x := brings
    simp only [Call.advance] at taken
    split at taken <;> cases taken
    · exact absurd rfl goes
    · rename_i old
      left
      by_contra missing
      rw [loadOld, Assoc.get_eq_none_iff.mpr missing] at old
      cases old
    · rename_i latest loaded
      refine .inr ⟨by simp, ?_⟩
      rw [loadOld] at loaded
      split at loaded
      · cases loaded
        rfl
      · split at loaded
        · cases loaded
        · split at loaded <;> cases loaded
          show (if i.connected then i else _).clientId = i.clientId
          split <;> rfl
  | store i =>
    obtain rfl : i.clientId = x := brings
    cases taken
    exact .inl (Assoc.mem_keys_set.mpr (.inl rfl))
  | _ => exact absurd brings id

theorem mem_page_of_position {listing : List ClientInfo} {page : Nat} (listed : position x listing < listing.length)
    (first : 1 ≤ page) (behind : (page - 1) * limit ≤ position x listing) :
    x ∈ (Core.page limit (page - 1) listing).map ClientInfo.clientId ∨
      Behind x listing page (clientPage listing page) := by
  rcases mem_page_or_behind listed behind with ⟨c, member, same⟩ | later
  · exact .inl (List.mem_map.mpr ⟨c, member, of_decide_eq_true same⟩)
  · right
    rw [Nat.sub_add_cancel first] at later
    have later : page * limit ≤ position x listing := later
    have within : page * limit < listing.length := Nat.lt_of_le_of_lt later listed
    have filled : (Core.page limit (page - 1) listing).length ≠ 0 := by
      have earlier : (page - 1) * limit < listing.length := Nat.lt_of_le_of_lt behind listed
      rw [Core.page, List.length_take, List.length_drop]
      simp only [limit] at *
      omega
    refine ⟨first, later, ?_⟩
    have more : ¬(listing.length : Int) ≤ (page : Int) * (limit : Int) := by exact_mod_cast Nat.not_le.mpr within
    simp [clientPage, ClientPage.final, filled, more]

theorem known_step (known : Known x s) (stays : Stays x most s label) (taken : step s label = some s') : Known x s' := by
  obtain ⟨listed, known⟩ := known
  cases label with
  | fetch answer =>
    simp only [step] at taken
    split at taken
    · rename_i page a here
      cases taken
      obtain rfl := stays page (by rw [here]; rfl) a rfl
      refine ⟨listed, known.imp_right fun coming => ?_⟩
      rw [here] at coming
      exact mem_page_of_position listed coming.1 coming.2
    · cases taken
  | go now =>
    simp only [step] at taken
    split at taken
    · rename_i page answer here
      cases taken
      refine ⟨listed, known.imp_right fun coming => ?_⟩
      rw [here] at coming
      obtain ⟨first, behind, more⟩ := coming.resolve_left (by simp)
      rw [more]
      exact ⟨Nat.succ_le_succ (Nat.zero_le _), behind⟩
    · rename_i c rest page answer here
      cases taken
      refine ⟨listed, known.imp_right fun coming => ?_⟩
      rw [here] at coming
      rcases coming with member | behind
      · rcases List.mem_cons.mp member with same | later
        · exact .inl same.symm
        · exact .inr (.inl later)
      · exact .inr (.inr behind)
    · rename_i call rest page answer here
      obtain ⟨⟨clients', next⟩, moved, taken⟩ := Option.bind_eq_some_iff.mp taken
      rw [here] at known
      have kept : x ∈ Assoc.keys s.adapter.clients → x ∈ Assoc.keys clients' := keys_mono moved
      have brought : next ≠ .panicked → Brings x call → _ := fun goes brings => advance_brings moved brings goes
      simp only [went] at taken
      split at taken
      · cases taken
      · cases taken
        refine ⟨listed, known.elim (fun member => .inl (kept member)) fun coming => ?_⟩
        rcases coming with brings | later
        · exact .inl ((brought (by simp) brings).resolve_right fun other => other.1 rfl)
        · exact .inr later
      · rename_i goes _
        cases taken
        refine ⟨listed, known.elim (fun member => .inl (kept member)) fun coming => ?_⟩
        rcases coming with brings | later
        · exact (brought goes brings).imp_right fun other => .inl other.2
        · exact .inr (.inr later)
    · cases taken
    · cases taken
  | adapter label =>
    obtain ⟨adapter', moved, rfl⟩ := Option.map_eq_some_iff.mp taken
    exact ⟨listed, known.imp_left (adapter_keys moved)⟩
  | listing listing =>
    cases taken
    exact ⟨stays.2.1, known.imp_right (coming_mono stays.1)⟩

theorem filled_of_clientPage {listing : List ClientInfo} {page : Nat} (short : listing.length ≤ most) :
    (clientPage listing page).final = true ∨ page * limit < most := by
  by_cases more : listing.length ≤ page * limit
  · left
    have last : (listing.length : Int) ≤ (page : Int) * (limit : Int) := by exact_mod_cast more
    simp [clientPage, ClientPage.final, last]
  · right
    omega

theorem asked_step (asked : Asked most s) (stays : Stays x most s label) (taken : step s label = some s') :
    Asked most s' := by
  obtain ⟨short, filled⟩ := asked
  cases label with
  | fetch answer =>
    simp only [step] at taken
    split at taken
    · rename_i page a here
      cases taken
      obtain rfl := stays page (by rw [here]; rfl) a rfl
      exact ⟨short, filled_of_clientPage short⟩
    · cases taken
  | go now =>
    simp only [step] at taken
    split at taken
    · rename_i page answer here
      cases taken
      rw [here] at filled
      refine ⟨short, ?_⟩
      cases final : answer.final with
      | true => trivial
      | false => exact filled.resolve_left (by simp [final])
    · rename_i c rest page answer here
      cases taken
      rw [here] at filled
      exact ⟨short, filled⟩
    · rename_i call rest page answer here
      obtain ⟨⟨clients', next⟩, -, taken⟩ := Option.bind_eq_some_iff.mp taken
      rw [here] at filled
      simp only [went] at taken
      split at taken <;> cases taken <;> exact ⟨short, filled⟩
    · cases taken
    · cases taken
  | adapter label =>
    obtain ⟨adapter', -, rfl⟩ := Option.map_eq_some_iff.mp taken
    exact ⟨short, filled⟩
  | listing listing =>
    cases taken
    exact ⟨stays.2.2, filled⟩

end

/-- The loop ends with every client in the cache that the broker lists all the time, and asks
for one page more than the clients fill. -/
theorem init_complete (x : String) (most : Nat) (adapter : NilTime.State) (listing : List ClientInfo)
    (listed : position x listing < listing.length) (short : listing.length ≤ most) (labels : List Label)
    (stays : Meets step (Stays x most) (start adapter listing) labels) :
    Always step (fun _ _ s' => (s'.pc = .done → x ∈ Assoc.keys s'.adapter.clients) ∧
      ∀ page ∈ s'.pc.asks, (page - 1) * limit < most) (start adapter listing) labels := by
  have known : Known x (start adapter listing) := ⟨listed, .inr ⟨Nat.le_refl 1, Nat.zero_le _⟩⟩
  have within : (1 - 1) * limit < most := Nat.lt_of_le_of_lt (Nat.zero_le _) (Nat.lt_of_lt_of_le listed short)
  have asked : Asked most (start adapter listing) := ⟨short, within⟩
  refine stays.always (fun s => Known x s ∧ Asked most s) (fun s label s' before met taken => ?_) ⟨known, asked⟩
  have known' := known_step before.1 met taken
  have asked' := asked_step before.2 met taken
  refine ⟨⟨fun done => ?_, fun page member => ?_⟩, known', asked'⟩
  · have settled := known'.known
    rw [done] at settled
    exact settled.resolve_right id
  · have filled := asked'.filled
    cases here : s'.pc with
    | fetch page' =>
      rw [here] at member filled
      cases member
      exact filled
    | _ =>
      rw [here] at member
      cases member

/-- A client that is connected. -/
def lamp (clientId : String) : ClientInfo :=
  { clientId := clientId, username := clientId, connected := true, connectedAt := some 1
    disconnectedAt := none, disconnectReason := "", ipAddress := "", port := 0 }

/-- While the page of two clients is carried out, one more is listed in front of them, and the
first of them disconnects between the two halves of its update. -/
def joinedRun : List Label := [
  .fetch (some (clientPage [lamp "a", lamp "b"] 1)), .go 2, .listing [lamp "c", lamp "a", lamp "b"],
  .go 3, .adapter (.begin (.message (.disconnected ⟨"a", "a", "", 4, "normal"⟩))), .adapter (.run 0 (.go 4)), .go 5,
  .adapter (.run 0 (.go 6)), .go 7, .go 8, .go 9, .go 10]

theorem joined_complete :
    (execute step (start ⟨[], []⟩ [lamp "a", lamp "b"]) joinedRun).map (fun s => (s.pc, Assoc.keys s.adapter.clients)) =
      some (.done, ["a", "b"]) ∧
    Always step (fun _ _ s' => (s'.pc = .done → "b" ∈ Assoc.keys s'.adapter.clients) ∧
      ∀ page ∈ s'.pc.asks, (page - 1) * limit < 3) (start ⟨[], []⟩ [lamp "a", lamp "b"]) joinedRun :=
  ⟨by decide +kernel, init_complete "b" 3 ⟨[], []⟩ [lamp "a", lamp "b"] (by decide) (by decide) joinedRun
    (by decide +kernel)⟩

end Tio.Presence.Emqx.Init
