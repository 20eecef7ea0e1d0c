import Tio.Presence.Status
import Tio.Thing.Publisher

/-! The retained presence message of a user. The hook hands every event to a goroutine
of its own, and the broker keeps the message that is published last. -/

namespace Tio.Presence.Retained

open Tio.Core Tio.Thing

def topicPresenceTmpl : String := "$iothub/things/" ++ "{thingId}/presence"

def topicPresence (thingId : String) : String := replaceAll topicPresenceTmpl "{thingId}" thingId

/-- A goroutine of the hook: for the retained topic, and then for the event topic, the
event goes to the bus and to the broker. -/
inductive PublishPc
  | bus
  | retain
  | eventBus
  | publish
  | finished
deriving DecidableEq

structure Goroutine where
  username : String
  evt : PresenceEvent
  pc : PublishPc
deriving DecidableEq

/-- The goroutines stand in the order of the calls that started them. -/
structure State where
  clock : Int
  clients : List (String × ClientInfo)
  goroutines : List Goroutine
  retained : List (String × PresenceEvent)

/-- A client that the broker has under an id, and whether its connection is closed. -/
abbrev Lookup := Option Bool

inductive Action
  | elapse (time : Nat)
  | onSessionEstablished (clientId username remoteAddr : String) (exist : Lookup)
  | onDisconnect (clientId username remoteAddr : String) (exist : Lookup) (err : Option (List UInt8))
  | run (i : Nat) (accepted : Bool)

def isOpen (exist : Lookup) : Bool := exist = some false

/-- The call is accepted: the cache is updated, and the event published for a thing. -/
def State.accept (s : State) (username : String) (cinfo : ClientInfo) (evt : PresenceEvent) : State :=
  { s with
    clients := updateClient cinfo s.clients
    goroutines := if isPublishPresent username then s.goroutines ++ [⟨username, evt, .bus⟩]
      else s.goroutines }

def onSessionEstablished (clientId username remoteAddr : String) (exist : Lookup) (s : State) : State :=
  if !isOpen exist then s
  else
    s.accept username (toClientInfo clientId username remoteAddr true (some s.clock) none none)
      (toEvent clientId username remoteAddr .connected s.clock [])

def onDisconnect (clientId username remoteAddr : String) (exist : Lookup) (err : Option (List UInt8))
    (s : State) : State :=
  if isOpen exist then s
  else
    s.accept username (toClientInfo clientId username remoteAddr false none (some s.clock) err)
      (toEvent clientId username remoteAddr .disconnected s.clock (errText err))

def PublishPc.next : PublishPc → PublishPc
  | .bus => .retain
  | .retain => .eventBus
  | .eventBus => .publish
  | .publish | .finished => .finished

/-- The broker keeps a message that it accepts for the retained topic. -/
def State.publish (s : State) (g : Goroutine) (accepted : Bool) : List (String × PresenceEvent) :=
  if g.pc = .retain && accepted then Assoc.set (topicPresence g.username) g.evt s.retained else s.retained

def step (s : State) : Action → Option State
  | .elapse time => some { s with clock := s.clock + time }
  | .onSessionEstablished clientId username remoteAddr exist =>
    some (onSessionEstablished clientId username remoteAddr exist s)
  | .onDisconnect clientId username remoteAddr exist err =>
    some (onDisconnect clientId username remoteAddr exist err s)
  | .run i accepted => do
    let g ← s.goroutines[i]?
    if g.pc = .finished then none
    else
      some { s with
        goroutines := s.goroutines.set i { g with pc := g.pc.next }
        retained := s.publish g accepted }

def PublishPc.published : PublishPc → Bool
  | .bus | .retain => false
  | _ => true

/-- The events of the user, in the order of their calls. -/
def State.events (username : String) (s : State) : List PresenceEvent :=
  (s.goroutines.filter fun g => g.username = username).map Goroutine.evt

/-- Those of them that were published for the retained topic. -/
def State.published (username : String) (s : State) : List PresenceEvent :=
  (s.goroutines.filter fun g => g.username = username && g.pc.published).map Goroutine.evt

def Finished (username : String) (s : State) : Prop :=
  ∀ g ∈ s.goroutines, g.username = username → g.pc = .finished

/-- When all goroutines of a user are finished the retained message is the event of its
last accepted call. -/
def LastRetained (s : State) : Prop :=
  ∀ username evt, Finished username s → (s.events username).getLast? = some evt →
    Assoc.get (topicPresence username) s.retained = some evt

/-- The broker accepts a retained message, and no later event of its user was published
before it. -/
def InOrder (s : State) : Action → Prop
  | .run i accepted => ∀ g ∈ s.goroutines[i]?, g.pc = .retain →
      accepted = true ∧
        ∀ other ∈ s.goroutines.drop (i + 1), other.username = g.username → other.pc.published = false
  | _ => True

/-- The retained message is the newest of the published events. -/
def Current (s : State) : Prop :=
  ∀ username evt, (s.published username).getLast? = some evt →
    Assoc.get (topicPresence username) s.retained = some evt

instance (s : State) : DecidablePred (InOrder s)
  | .run _ _ => inferInstanceAs (Decidable (∀ g ∈ _, _))
  | .elapse _ | .onSessionEstablished _ _ _ _ | .onDisconnect _ _ _ _ _ => isTrue trivial

section

variable {s s' : State} {a : Action}

theorem topicPresence_eq (username : String) :
    topicPresence username = "$iothub/things/" ++ username ++ "/presence" := by
  have opens : "{thingId}".toList = '{' :: "{thingId}".toList.tail := by decide
  have named : replaceFrom "{thingId}".toList username.toList 0 "{thingId}/presence".toList =
      username.toList ++ "/presence".toList := rfl
  apply String.toList_inj.mp
  rw [topicPresence, toList_replaceAll, topicPresenceTmpl, String.toList_append,
    replaceFrom_plain opens (by decide), named]
  simp

theorem topicPresence_inj {username other : String} (same : topicPresence username = topicPresence other) :
    username = other := by
  rw [topicPresence_eq, topicPresence_eq] at same
  have same := congrArg String.toList same
  apply String.toList_inj.mp
  simpa using same

theorem lastRetained_of_current (current : Current s) : LastRetained s := by
  intro username evt finished last
  apply current username evt
  have whole : s.published username = s.events username := by
    rw [State.published, State.events]
    congr 1
    apply List.filter_congr
    intro g member
    by_cases own : g.username = username
    · simp [own, finished g member own, PublishPc.published]
    · simp [own]
  rwa [whole]

theorem current_accept (current : Current s) (username : String) (cinfo : ClientInfo) (evt : PresenceEvent) :
    Current (s.accept username cinfo evt) := by
  intro other last found
  apply current other last
  rw [State.published, State.accept] at found
  rw [State.published]
  split at found
  · simpa [List.filter_append, PublishPc.published] using found
  · exact found

/-- The goroutines of a list before, at and after a place. -/
theorem split_at {gs : List Goroutine} {i : Nat} {g : Goroutine} (found : gs[i]? = some g) :
    gs = gs.take i ++ g :: gs.drop (i + 1) := by
  obtain ⟨inside, here⟩ := List.getElem?_eq_some_iff.mp found
  rw [← here, List.getElem_cons_drop, List.take_append_drop]

theorem set_split {gs : List Goroutine} {i : Nat} {g : Goroutine} (found : gs[i]? = some g) (g' : Goroutine) :
    gs.set i g' = gs.take i ++ g' :: gs.drop (i + 1) := by
  obtain ⟨inside, -⟩ := List.getElem?_eq_some_iff.mp found
  exact List.set_eq_take_append_cons_drop.trans (if_pos inside)

theorem published_next {pc : PublishPc} (other : pc ≠ .retain) : pc.next.published = pc.published := by
  cases pc with
  | retain => exact absurd rfl other
  | _ => rfl

/-- A goroutine that does not publish for the retained topic leaves what is published. -/
theorem published_quiet {i : Nat} {g : Goroutine} (found : s.goroutines[i]? = some g)
    (other : g.pc ≠ .retain) (username : String) (retained : List (String × PresenceEvent)) :
    ({ s with goroutines := s.goroutines.set i { g with pc := g.pc.next }, retained } : State).published
      username = s.published username := by
  rw [State.published, State.published, set_split found]
  conv => rhs; rw [split_at found]
  simp only [List.filter_append, List.filter_cons, published_next other, List.map_append]
  split <;> rfl

theorem current_step (current : Current s) (ordered : InOrder s a) (taken : step s a = some s') :
    Current s' := by
  cases a with
  | elapse time =>
    cases taken
    exact current
  | onSessionEstablished clientId username remoteAddr exist =>
    cases taken
    rw [onSessionEstablished]
    split
    · exact current
    · exact current_accept current _ _ _
  | onDisconnect clientId username remoteAddr exist err =>
    cases taken
    rw [onDisconnect]
    split
    · exact current
    · exact current_accept current _ _ _
  | run i accepted =>
    obtain ⟨g, found, taken⟩ := Option.bind_eq_some_iff.mp taken
    split at taken
    · cases taken
    · cases taken
      intro username evt last
      by_cases retains : g.pc = .retain
      · have before := split_at found
        simp only [State.published, set_split found] at last
        obtain ⟨rfl, none⟩ := ordered g found retains
        simp only [State.publish, retains, decide_true, Bool.and_self, if_true]
        by_cases own : username = g.username
        · subst own
          -- nothing behind the place is published yet
          have nothing : (s.goroutines.drop (i + 1)).filter
              (fun other => other.username = g.username && other.pc.published) = [] := by
            apply List.filter_eq_nil_iff.mpr
            intro other member
            by_cases named : other.username = g.username
            · simp [named, none other member named]
            · simp [named]
          simp only [List.filter_append, List.filter_cons, nothing] at last
          simp only [retains, PublishPc.next, PublishPc.published, decide_true, Bool.and_self, if_true,
            List.map_append, List.map_cons, List.map_nil, List.getLast?_concat, Option.some.injEq] at last
          rw [Assoc.get_set_self, last]
        · rw [Assoc.get_set_other (fun same => own (topicPresence_inj same).symm)]
          apply current username evt
          rw [State.published, before]
          simpa [List.filter_append, List.filter_cons, Ne.symm own] using last
      · have kept : s.publish g accepted = s.retained := by simp [State.publish, retains]
        rw [kept]
        exact current username evt (published_quiet found retains username _ ▸ last)

end

/-- The process starts, with the messages that the broker has stored. -/
def boot (clock : Int) (retained : List (String × PresenceEvent)) : State := ⟨clock, [], [], retained⟩

/-- In a run in which the retained messages of a user are published in the order of its
accepted calls, the message of the last call is the one that is kept. -/
theorem retained_last (clock : Int) (retained : List (String × PresenceEvent)) (actions : List Action)
    (ordered : Meets step InOrder (boot clock retained) actions) :
    Always step (fun _ _ s' => LastRetained s') (boot clock retained) actions := by
  refine Meets.always Current ?_ ordered ?_
  · intro s a s' current ordered taken
    have next := current_step current ordered taken
    exact ⟨lastRetained_of_current next, next⟩
  · intro username evt last
    cases last

/-- A thing connects and leaves, and the goroutines run in the order of the list. -/
def visit (order : List Nat) : List Action :=
  [.onSessionEstablished "a" "a" "addr" (some false), .elapse 5000000, .onDisconnect "a" "a" "addr" none none] ++
    order.map fun i => .run i true

theorem visit_retained :
    Always step (fun _ _ s' => LastRetained s') (boot 0 []) (visit [0, 1, 0, 1, 0, 0, 1, 1]) :=
  retained_last 0 [] _ (by decide)

/-- The goroutine of the connect publishes last. -/
theorem connect_retained :
    ∃ s, execute step (boot 0 []) (visit [1, 1, 0, 0, 0, 0, 1, 1]) = some s ∧ ¬LastRetained s := by
  have ended : (execute step (boot 0 []) (visit [1, 1, 0, 0, 0, 0, 1, 1])).map (fun s =>
      (s.goroutines.map fun g => (g.username, g.pc), (s.events "a").map PresenceEvent.eventType,
        (Assoc.get (topicPresence "a") s.retained).map PresenceEvent.eventType)) =
      some ([("a", .finished), ("a", .finished)], [.connected, .disconnected], some .connected) := by decide
  obtain ⟨s, reached, parts⟩ := Option.map_eq_some_iff.mp ended
  refine ⟨s, reached, fun right => ?_⟩
  simp only [Prod.mk.injEq] at parts
  obtain ⟨pcs, kinds, kept⟩ := parts
  have finished : Finished "a" s := by
    intro g member _
    have listed : (g.username, g.pc) ∈ [("a", PublishPc.finished), ("a", PublishPc.finished)] := by
      rw [← pcs]
      exact List.mem_map.mpr ⟨g, member, rfl⟩
    simp only [List.mem_cons, List.not_mem_nil, or_false, or_self, Prod.mk.injEq] at listed
    exact listed.2
  cases last : (s.events "a").getLast? with
  | none =>
    rw [List.getLast?_eq_none_iff] at last
    rw [last] at kinds
    cases kinds
  | some evt =>
    rw [right "a" evt finished last] at kept
    have kind : ((s.events "a").map PresenceEvent.eventType).getLast? = some evt.eventType := by
      rw [List.getLast?_map, last]
      rfl
    rw [kinds] at kind
    cases (Option.some.inj kind).trans (Option.some.inj kept)

end Tio.Presence.Retained
