import Mathlib.Data.List.InsertIdx
import Mathlib.Data.List.Nodup
import Tio.Core.Run
import Tio.Core.Slice

/-! The client of the program at the broker (`connector/mqtt/client/client.go`). It keeps
the list of its subscriptions and makes them again whenever it is connected; the handler
of the connect event goes over the list without the lock that guards it. -/

namespace Tio.Mqtt

open Tio.Core

structure Subscriber where
  topic : String
  qos : Nat
deriving DecidableEq

inductive Link
  | down
  | up
  | reconnecting
deriving DecidableEq

/-- `IsConnected` of the connection is also true while it reconnects. -/
def Link.isConnected : Link → Bool
  | .down => false
  | .up | .reconnecting => true

/-- What a token and the context of the call come to first. -/
inductive Answer
  | acked
  | failed
  | gaveUp
deriving DecidableEq

/-- How a request to the broker ends: what the broker did, and what the caller is told. -/
structure Outcome where
  done : Bool
  answer : Answer
deriving DecidableEq

/-- A goroutine of the connect event. The `range` reads the list when it starts. -/
inductive Handler
  | starting
  | ranging (subscribes : Slice) (next : Nat)
deriving DecidableEq

/-- A call between its first step and its last. `Subscribe` has the lock all the time. -/
inductive Call
  | request (sub : Subscriber)
  | append (sub : Subscriber)
  | remove (topic : String)
deriving DecidableEq

structure State where
  link : Link
  /-- The subscriptions that the broker has for the session. -/
  broker : List String
  arrays : List (List Subscriber)
  subscribes : Slice
  handlers : List Handler
  calls : List Call

inductive Action
  | connect (kept : Bool)
  | lose
  | disconnect
  | snapshot (i : Nat)
  | resubscribe (i : Nat) (o : Outcome)
  | subscribe (sub : Subscriber)
  | request (k : Nat) (o : Outcome)
  | append (k : Nat) (fresh : Bool)
  | unsubscribe (topic : String) (o : Outcome)
  | remove (k : Nat)

def Call.locks : Call → Bool
  | .request _ | .append _ => true
  | .remove _ => false

def State.locked (s : State) : Bool := s.calls.any Call.locks

def State.listed (s : State) : List String := (s.subscribes.items s.arrays).map Subscriber.topic

/-- The broker gets a request only while the connection is open. -/
def State.register (topic : String) (o : Outcome) (s : State) : State :=
  if s.link = .up ∧ o.done = true then { s with broker := s.broker.insert topic } else s

def State.unregister (topic : String) (o : Outcome) (s : State) : State :=
  if s.link = .up ∧ o.done = true then { s with broker := s.broker.filter (· ≠ topic) } else s

/-- Without a connection the token has an error. -/
def State.told (o : Outcome) (s : State) : Answer :=
  if s.link = .up ∨ o.answer = .gaveUp then o.answer else .failed

def step (s : State) : Action → Option State
  | .connect kept =>
    if s.link = .up then none
    else some { s with
      link := .up
      broker := if kept then s.broker else []
      handlers := s.handlers ++ [.starting] }
  | .lose => if s.link = .up then some { s with link := .reconnecting } else none
  | .disconnect => some { s with link := .down }
  | .snapshot i =>
    match s.handlers[i]? with
    | some .starting => some { s with handlers := s.handlers.set i (.ranging s.subscribes 0) }
    | _ => none
  | .resubscribe i o =>
    match s.handlers[i]? with
    | some (.ranging subscribes next) => do
      let sub ← subscribes.cell s.arrays next
      some { s.register sub.topic o with handlers := s.handlers.set i (.ranging subscribes (next + 1)) }
    | _ => none
  | .subscribe sub =>
    if s.locked then none
    else if s.link.isConnected then some { s with calls := s.calls ++ [.request sub] }
    else some { s with calls := s.calls ++ [.append sub] }
  | .request k o =>
    match s.calls[k]? with
    | some (.request sub) =>
      if s.told o = .failed then some { s.register sub.topic o with calls := s.calls.eraseIdx k }
      else some { s.register sub.topic o with calls := s.calls.set k (.append sub) }
    | _ => none
  | .append k fresh =>
    match s.calls[k]? with
    | some (.append sub) =>
      let (arrays, subscribes) := s.subscribes.append fresh sub s.arrays
      some { s with arrays := arrays, subscribes := subscribes, calls := s.calls.eraseIdx k }
    | _ => none
  | .unsubscribe topic o =>
    if s.told o = .acked then some { s.unregister topic o with calls := s.calls ++ [.remove topic] }
    else some (s.unregister topic o)
  | .remove k =>
    match s.calls[k]? with
    | some (.remove topic) =>
      if s.locked then none
      else match s.listed.findIdx? fun other => other = topic with
        | some i =>
          let (arrays, subscribes) := s.subscribes.removeAt i s.arrays
          some { s with arrays := arrays, subscribes := subscribes, calls := s.calls.eraseIdx k }
        | none => some { s with calls := s.calls.eraseIdx k }
    | _ => none

/-- The goroutine has not come to the end of its list. -/
def Handler.ongoing : Handler → Bool
  | .starting => true
  | .ranging subscribes next => next < subscribes.len

def Handler.ranges : Handler → Bool
  | .starting => false
  | .ranging subscribes next => next < subscribes.len

/-- The list changes one call at a time, a call takes nothing away while a handler goes
over the list, and the broker does what it says. -/
def Orderly (s : State) : Action → Prop
  | .snapshot _ => s.calls = []
  | .resubscribe _ o => s.link = .up → o.done = true
  | .subscribe sub => s.calls = [] ∧ sub.topic ∉ s.listed
  | .request _ o => s.link = .up → (o.done = true ↔ o.answer = .acked) ∧ o.answer ≠ .gaveUp
  | .unsubscribe _ o => s.calls = [] ∧ (∀ h ∈ s.handlers, h.ranges = false) ∧
      (s.link = .up → (o.done = true ↔ o.answer = .acked))
  | _ => True

instance (s : State) : ∀ a, Decidable (Orderly s a)
  | .snapshot _ => inferInstanceAs (Decidable (_ = _))
  | .resubscribe _ _ => inferInstanceAs (Decidable (_ → _))
  | .subscribe _ => inferInstanceAs (Decidable (_ ∧ _))
  | .request _ _ => inferInstanceAs (Decidable (_ → _))
  | .unsubscribe _ _ => inferInstanceAs (Decidable (_ ∧ _))
  | .connect _ | .lose | .disconnect | .append _ _ | .remove _ => isTrue trivial

/-- A handler will still come to the topic. -/
def Pending (s : State) (topic : String) : Prop :=
  .starting ∈ s.handlers ∨ ∃ subscribes next, .ranging subscribes next ∈ s.handlers ∧
    ∃ i ≥ next, ∃ sub, subscribes.cell s.arrays i = some sub ∧ sub.topic = topic

structure Kept (s : State) : Prop where
  inside : s.subscribes.Inside s.arrays
  distinct : s.listed.Nodup
  single : s.calls.length ≤ 1
  ranges : ∀ subscribes next, .ranging subscribes next ∈ s.handlers → next < subscribes.len →
    subscribes.Inside s.arrays ∧ (subscribes.array = s.subscribes.array → subscribes.len ≤ s.subscribes.len) ∧
      ∀ sub ∈ subscribes.items s.arrays, sub.topic ∈ s.listed
  removing : ∀ topic, .remove topic ∈ s.calls → topic ∉ s.broker ∧ ∀ h ∈ s.handlers, h.ranges = false
  fresh : ∀ sub, (.request sub ∈ s.calls ∨ .append sub ∈ s.calls) → sub.topic ∉ s.listed
  only : ∀ topic ∈ s.broker, topic ∈ s.listed ∨ ∃ sub, .append sub ∈ s.calls ∧ sub.topic = topic
  covered : s.link = .up → ∀ topic ∈ s.listed, topic ∈ s.broker ∨ Pending s topic ∨ .remove topic ∈ s.calls
  added : s.link = .up → ∀ sub, .append sub ∈ s.calls → sub.topic ∈ s.broker ∨ .starting ∈ s.handlers

/-- The program before its first subscription. -/
def boot : State := ⟨.down, [], [[]], ⟨0, 0⟩, [], []⟩

section

variable {s s' : State} {a : Action}

theorem Kept.call {k : Nat} {c : Call} (kept : Kept s) (found : s.calls[k]? = some c) : s.calls = [c] ∧ k = 0 := by
  have single := kept.single
  cases split : s.calls with
  | nil => simp [split] at found
  | cons first rest =>
    rw [split, List.length_cons] at single
    have none : rest = [] := List.eq_nil_of_length_eq_zero (by omega)
    subst none
    rw [split] at found
    cases k with
    | zero => exact ⟨congrArg (fun c => [c]) (Option.some.inj found), rfl⟩
    | succ k => simp at found

theorem Kept.link {link : Link} (kept : Kept s) (shut : link ≠ .up) : Kept { s with link := link } :=
  { kept with
    covered := fun online => absurd online shut
    added := fun online => absurd online shut }

/-- A new connection is followed by a handler that has the whole list before it. -/
theorem Kept.connect {broker : List String} (kept : Kept s) (less : ∀ topic ∈ broker, topic ∈ s.broker) :
    Kept { s with link := .up, broker := broker, handlers := s.handlers ++ [.starting] } where
  inside := kept.inside
  distinct := kept.distinct
  single := kept.single
  ranges := by
    intro subscribes next member
    rcases List.mem_append.mp member with old | new
    · exact kept.ranges subscribes next old
    · cases List.mem_singleton.mp new
  removing := by
    intro topic member
    obtain ⟨gone, calm⟩ := kept.removing topic member
    refine ⟨fun held => gone (less topic held), fun h inside => ?_⟩
    rcases List.mem_append.mp inside with old | new
    · exact calm h old
    · rw [List.mem_singleton.mp new]
      rfl
  fresh := kept.fresh
  only := fun topic held => kept.only topic (less topic held)
  covered := fun _ _ _ => .inr (.inl (.inl (List.mem_append_right _ (List.mem_singleton_self _))))
  added := fun _ _ _ => .inr (List.mem_append_right _ (List.mem_singleton_self _))

theorem cell_of_listed {topic : String} (listed : topic ∈ s.listed) :
    ∃ i ≥ 0, ∃ sub, s.subscribes.cell s.arrays i = some sub ∧ sub.topic = topic := by
  obtain ⟨sub, member, same⟩ := List.mem_map.mp listed
  obtain ⟨i, found⟩ := List.getElem?_of_mem member
  exact ⟨i, Nat.zero_le i, sub, by rw [Slice.cell_eq]; exact found, same⟩

/-- The handler that starts has the list as it is; nothing is in flight beside it. -/
theorem Kept.snapshot {i : Nat} (kept : Kept s) (calm : s.calls = []) (here : s.handlers[i]? = some .starting) :
    Kept { s with handlers := s.handlers.set i (.ranging s.subscribes 0) } where
  inside := kept.inside
  distinct := kept.distinct
  single := kept.single
  ranges := by
    intro subscribes next member ongoing
    rcases List.mem_or_eq_of_mem_set member with old | same
    · exact kept.ranges subscribes next old ongoing
    · cases same
      exact ⟨kept.inside, fun _ => Nat.le_refl _, fun sub inside => List.mem_map_of_mem inside⟩
  removing := fun topic member => by simp [calm] at member
  fresh := kept.fresh
  only := kept.only
  covered := by
    intro _ topic listed
    have new : Handler.ranging s.subscribes 0 ∈ s.handlers.set i (.ranging s.subscribes 0) :=
      List.mem_set (List.getElem?_eq_some_iff.mp here).1 _
    exact .inr (.inl (.inr ⟨s.subscribes, 0, new, cell_of_listed listed⟩))
  added := fun _ sub member => by simp [calm] at member

theorem register_up {topic : String} {o : Outcome} (online : s.link = .up) (done : o.done = true) :
    s.register topic o = { s with broker := s.broker.insert topic } := by
  rw [State.register, if_pos ⟨online, done⟩]

theorem register_not {topic : String} {o : Outcome} (idle : ¬ (s.link = .up ∧ o.done = true)) :
    s.register topic o = s := by
  rw [State.register, if_neg idle]

/-- The topic that the handler comes to is at the broker when the connection is open. -/
theorem Kept.resubscribe {i next : Nat} {subscribes : Slice} {sub : Subscriber} {o : Outcome} (kept : Kept s)
    (honest : s.link = .up → o.done = true) (here : s.handlers[i]? = some (.ranging subscribes next))
    (found : subscribes.cell s.arrays next = some sub) :
    Kept { s.register sub.topic o with handlers := s.handlers.set i (.ranging subscribes (next + 1)) } := by
  have member := List.mem_of_getElem? here
  have ongoing := Slice.lt_of_cell found
  obtain ⟨lies, shorter, known⟩ := kept.ranges subscribes next member ongoing
  have listed : sub.topic ∈ s.listed := by
    rw [Slice.cell_eq] at found
    exact known sub (List.mem_of_getElem? found)
  have ranges : ∀ subscribes' next', .ranging subscribes' next' ∈ s.handlers.set i (.ranging subscribes (next + 1)) →
      next' < subscribes'.len → subscribes'.Inside s.arrays ∧
        (subscribes'.array = s.subscribes.array → subscribes'.len ≤ s.subscribes.len) ∧
        ∀ other ∈ subscribes'.items s.arrays, other.topic ∈ s.listed := by
    intro subscribes' next' within ongoing'
    rcases List.mem_or_eq_of_mem_set within with old | same
    · exact kept.ranges subscribes' next' old ongoing'
    · cases same
      exact ⟨lies, shorter, known⟩
  have busy : ∀ topic, .remove topic ∉ s.calls := by
    intro topic removing
    have idle := (kept.removing topic removing).2 _ member
    simp [Handler.ranges, ongoing] at idle
  have starting : .starting ∈ s.handlers → .starting ∈ s.handlers.set i (.ranging subscribes (next + 1)) := by
    intro inside
    obtain ⟨j, other⟩ := List.getElem?_of_mem inside
    have apart : i ≠ j := fun same => by rw [same, other] at here; cases here
    exact List.mem_of_getElem? (i := j) (by rw [List.getElem?_set_ne apart, other])
  by_cases online : s.link = .up
  · rw [register_up online (honest online)]
    refine ⟨kept.inside, kept.distinct, kept.single, ranges, fun topic removing => absurd removing (busy topic),
      kept.fresh, ?_, ?_, ?_⟩
    · intro topic held
      rcases List.mem_insert_iff.mp held with rfl | old
      · exact .inl listed
      · exact kept.only topic old
    · intro _ topic inside
      rcases kept.covered online topic inside with held | pending | removing
      · exact .inl (List.mem_insert_of_mem held)
      · by_cases reached : topic = sub.topic
        · exact .inl (by rw [reached]; exact List.mem_insert_self)
        · refine .inr (.inl ?_)
          rcases pending with begins | ⟨subscribes', next', within, j, later, other, found', same⟩
          · exact .inl (starting begins)
          · obtain ⟨k, there⟩ := List.getElem?_of_mem within
            by_cases twin : i = k
            · subst twin
              rw [here] at there
              cases there
              have beyond : next ≠ j := by
                rintro rfl
                rw [found] at found'
                cases found'
                exact reached same.symm
              exact .inr ⟨subscribes, next + 1, List.mem_set (List.getElem?_eq_some_iff.mp here).1 _, j,
                Nat.lt_of_le_of_ne later beyond, other, found', same⟩
            · exact .inr ⟨subscribes', next', List.mem_of_getElem? (i := k)
                (by rw [List.getElem?_set_ne twin, there]), j, later, other, found', same⟩
      · exact absurd removing (busy topic)
    · intro _ other inside
      rcases kept.added online other inside with held | begins
      · exact .inl (List.mem_insert_of_mem held)
      · exact .inr (starting begins)
  · rw [register_not fun both => online both.1]
    exact ⟨kept.inside, kept.distinct, kept.single, ranges, fun topic removing => absurd removing (busy topic),
      kept.fresh, kept.only, fun up => absurd up online, fun up => absurd up online⟩

/-- The call begins on its own; without a connection its topic only joins the list. -/
theorem Kept.subscribe {sub : Subscriber} (kept : Kept s) (calm : s.calls = []) (new : sub.topic ∉ s.listed) :
    Kept { s with calls := if s.link.isConnected then [.request sub] else [.append sub] } := by
  have only : ∀ c : Call, (c ∈ if s.link.isConnected then [Call.request sub] else [.append sub]) →
      c = .request sub ∨ c = .append sub ∧ s.link ≠ .up := by
    intro c member
    split at member
    · exact .inl (List.mem_singleton.mp member)
    · rename_i shut
      exact .inr ⟨List.mem_singleton.mp member, fun online => by simp [online, Link.isConnected] at shut⟩
  refine ⟨kept.inside, kept.distinct, ?_, kept.ranges, ?_, ?_, ?_, ?_, ?_⟩
  · change (if s.link.isConnected then [Call.request sub] else [.append sub]).length ≤ 1
    split <;> exact Nat.le_refl 1
  · intro topic member
    rcases only _ member with same | ⟨same, -⟩ <;> cases same
  · intro other member
    rcases member with member | member
    · rcases only _ member with same | ⟨same, -⟩
      · cases same
        exact new
      · cases same
    · rcases only _ member with same | ⟨same, -⟩
      · cases same
      · cases same
        exact new
  · intro topic held
    refine .inl ((kept.only topic held).resolve_right ?_)
    rintro ⟨other, member, -⟩
    simp [calm] at member
  · intro online topic listed
    rcases kept.covered online topic listed with held | pending | removing
    · exact .inl held
    · exact .inr (.inl pending)
    · simp [calm] at removing
  · intro online other member
    rcases only _ member with same | ⟨-, shut⟩
    · cases same
    · exact absurd online shut

/-- The broker has the subscription when the call goes on, or has no connection. -/
theorem Kept.request {sub : Subscriber} {o : Outcome} (kept : Kept s) (here : s.calls = [.request sub])
    (honest : s.link = .up → (o.done = true ↔ o.answer = .acked) ∧ o.answer ≠ .gaveUp) :
    Kept { s.register sub.topic o with calls := if s.told o = .failed then [] else [.append sub] } := by
  have new := kept.fresh sub (.inl (by rw [here]; exact List.mem_singleton_self _))
  have bare : ∀ topic ∈ s.broker, topic ∈ s.listed := by
    intro topic held
    refine (kept.only topic held).resolve_right ?_
    rintro ⟨other, member, -⟩
    simp [here] at member
  have covered : s.link = .up → ∀ topic ∈ s.listed, topic ∈ s.broker ∨ Pending s topic := by
    intro online topic listed
    rcases kept.covered online topic listed with held | pending | removing
    · exact .inl held
    · exact .inr pending
    · simp [here] at removing
  by_cases acked : s.link = .up ∧ o.done = true
  · obtain ⟨online, done⟩ := acked
    have answer := ((honest online).1).mp done
    have told : s.told o = .acked := by rw [State.told, if_pos (.inl online), answer]
    rw [register_up online done, told]
    simp only [reduceCtorEq, ↓reduceIte]
    refine ⟨kept.inside, kept.distinct, Nat.le_refl 1, kept.ranges, ?_, ?_, ?_, ?_, ?_⟩
    · intro topic member
      cases List.mem_singleton.mp member
    · rintro other (member | member)
      · cases List.mem_singleton.mp member
      · cases List.mem_singleton.mp member
        exact new
    · intro topic held
      rcases List.mem_insert_iff.mp held with rfl | old
      · exact .inr ⟨sub, List.mem_singleton_self _, rfl⟩
      · exact .inl (bare topic old)
    · intro _ topic listed
      rcases covered online topic listed with held | pending
      · exact .inl (List.mem_insert_of_mem held)
      · exact .inr (.inl pending)
    · intro _ other member
      cases List.mem_singleton.mp member
      exact .inl List.mem_insert_self
  · rw [register_not acked]
    have shut : s.told o ≠ .failed → s.link ≠ .up := by
      intro goes online
      rw [State.told, if_pos (.inl online)] at goes
      cases answer : o.answer with
      | acked => exact acked ⟨online, ((honest online).1).mpr answer⟩
      | failed => exact goes answer
      | gaveUp => exact (honest online).2 answer
    refine ⟨kept.inside, kept.distinct, ?_, kept.ranges, ?_, ?_, ?_, ?_, ?_⟩
    · change (if s.told o = .failed then ([] : List Call) else [.append sub]).length ≤ 1
      split <;> simp
    · intro topic member
      change Call.remove topic ∈ (if s.told o = .failed then ([] : List Call) else [.append sub]) at member
      split at member <;> simp at member
    · intro other member
      change Call.request other ∈ (if s.told o = .failed then ([] : List Call) else [.append sub]) ∨
        Call.append other ∈ (if s.told o = .failed then ([] : List Call) else [.append sub]) at member
      split at member
      · simp at member
      · simp only [List.mem_singleton, reduceCtorEq, Call.append.injEq, false_or] at member
        exact member ▸ new
    · exact fun topic held => .inl (bare topic held)
    · intro online topic listed
      exact (covered online topic listed).imp_right .inl
    · intro online other member
      change Call.append other ∈ (if s.told o = .failed then ([] : List Call) else [.append sub]) at member
      split at member
      · simp at member
      · rename_i goes
        exact absurd online (shut goes)

/-- The handlers go on over their own part of the arrays. -/
theorem Kept.append {sub : Subscriber} (kept : Kept s) (here : s.calls = [.append sub]) (fresh : Bool) :
    Kept { s with
      arrays := (s.subscribes.append fresh sub s.arrays).1
      subscribes := (s.subscribes.append fresh sub s.arrays).2
      calls := [] } := by
  have member : Call.append sub ∈ s.calls := by rw [here]; exact List.mem_singleton_self _
  have grown : ((s.subscribes.append fresh sub s.arrays).2.items (s.subscribes.append fresh sub s.arrays).1).map
      Subscriber.topic = s.listed ++ [sub.topic] := by
    rw [Slice.items_append kept.inside, List.map_append, List.map_cons, List.map_nil]
    rfl
  have listed : ∀ topic, topic ∈ ((s.subscribes.append fresh sub s.arrays).2.items
      (s.subscribes.append fresh sub s.arrays).1).map Subscriber.topic ↔ topic ∈ s.listed ∨ topic = sub.topic := by
    intro topic
    rw [grown, List.mem_append, List.mem_singleton]
  have others : ∀ subscribes next, .ranging subscribes next ∈ s.handlers → next < subscribes.len →
      subscribes.Inside (s.subscribes.append fresh sub s.arrays).1 ∧
        subscribes.items (s.subscribes.append fresh sub s.arrays).1 = subscribes.items s.arrays := by
    intro subscribes next within ongoing
    obtain ⟨lies, shorter, -⟩ := kept.ranges subscribes next within ongoing
    exact Slice.items_append_other kept.inside lies shorter fresh sub
  refine ⟨Slice.inside_append kept.inside fresh sub, ?_, Nat.zero_le 1, ?_, ?_, ?_, ?_, ?_, ?_⟩
  · change (((s.subscribes.append fresh sub s.arrays).2.items (s.subscribes.append fresh sub s.arrays).1).map
      Subscriber.topic).Nodup
    rw [grown, ← List.concat_eq_append]
    exact kept.distinct.concat (kept.fresh sub (.inr member))
  · intro subscribes next within ongoing
    obtain ⟨lies, shorter, known⟩ := kept.ranges subscribes next within ongoing
    obtain ⟨lies', same⟩ := others subscribes next within ongoing
    refine ⟨lies', fun shared => ?_, fun other inside => (listed _).mpr (.inl (known other (same ▸ inside)))⟩
    cases fresh with
    | true =>
      have beyond : subscribes.array = s.arrays.length := shared
      have := lies.lt
      omega
    | false => exact Nat.le_succ_of_le (shorter shared)
  · exact fun topic removing => absurd removing List.not_mem_nil
  · exact fun other either => absurd either (by simp)
  · intro topic held
    refine .inl ((listed topic).mpr ?_)
    rcases kept.only topic held with old | ⟨other, added, rfl⟩
    · exact .inl old
    · rw [here] at added
      cases List.mem_singleton.mp added
      exact .inr rfl
  · intro online topic inside
    rcases (listed topic).mp inside with old | rfl
    · rcases kept.covered online topic old with held | pending | removing
      · exact .inl held
      · refine .inr (.inl ?_)
        rcases pending with begins | ⟨subscribes, next, within, i, later, other, found, same⟩
        · exact .inl begins
        · have ongoing := Nat.lt_of_le_of_lt later (Slice.lt_of_cell found)
          refine .inr ⟨subscribes, next, within, i, later, other, ?_, same⟩
          rw [Slice.cell_eq] at found ⊢
          rw [← found]
          exact congrArg (fun items => items[i]?) (others subscribes next within ongoing).2
      · rw [here] at removing
        cases List.mem_singleton.mp removing
    · exact (kept.added online sub member).imp_right fun begins => .inl (.inl begins)
  · exact fun _ other added => absurd added List.not_mem_nil

/-- Between the answer of the broker and the removal the topic is only in the list. -/
theorem Kept.unsubscribe {topic : String} {o : Outcome} (kept : Kept s) (calm : s.calls = [])
    (idle : ∀ h ∈ s.handlers, h.ranges = false) (honest : s.link = .up → (o.done = true ↔ o.answer = .acked)) :
    Kept { s.unregister topic o with calls := if s.told o = .acked then [.remove topic] else [] } := by
  have bare : ∀ other ∈ s.broker, other ∈ s.listed := by
    intro other held
    refine (kept.only other held).resolve_right ?_
    rintro ⟨sub, member, -⟩
    simp [calm] at member
  have covered : s.link = .up → ∀ other ∈ s.listed, other ∈ s.broker ∨ Pending s other := by
    intro online other listed
    rcases kept.covered online other listed with held | pending | removing
    · exact .inl held
    · exact .inr pending
    · simp [calm] at removing
  by_cases acked : s.link = .up ∧ o.done = true
  · obtain ⟨online, done⟩ := acked
    have told : s.told o = .acked := by rw [State.told, if_pos (.inl online), (honest online).mp done]
    rw [State.unregister, if_pos ⟨online, done⟩, told]
    simp only [↓reduceIte]
    refine ⟨kept.inside, kept.distinct, Nat.le_refl 1, kept.ranges, ?_, ?_, ?_, ?_, ?_⟩
    · intro other member
      cases List.mem_singleton.mp member
      exact ⟨fun held => of_decide_eq_true (List.mem_filter.mp held).2 rfl, idle⟩
    · rintro other (member | member) <;> cases List.mem_singleton.mp member
    · exact fun other held => .inl (bare other (List.mem_filter.mp held).1)
    · intro _ other listed
      by_cases same : other = topic
      · exact .inr (.inr (by rw [same]; exact List.mem_singleton_self _))
      · rcases covered online other listed with held | pending
        · exact .inl (List.mem_filter.mpr ⟨held, decide_eq_true same⟩)
        · exact .inr (.inl pending)
    · intro _ other member
      cases List.mem_singleton.mp member
  · have told : s.told o ≠ .acked := by
      intro answered
      rw [State.told] at answered
      split at answered
      · rename_i either
        rcases either with online | gaveUp
        · exact acked ⟨online, (honest online).mpr answered⟩
        · rw [gaveUp] at answered
          cases answered
      · cases answered
    rw [State.unregister, if_neg acked, if_neg told]
    refine ⟨kept.inside, kept.distinct, Nat.zero_le 1, kept.ranges, ?_, ?_, ?_, ?_, ?_⟩
    · exact fun other member => absurd member List.not_mem_nil
    · exact fun other either => absurd either (by simp)
    · exact fun other held => .inl (bare other held)
    · exact fun online other listed => (covered online other listed).imp_right .inl
    · exact fun _ other member => absurd member List.not_mem_nil

/-- No handler is under way, so that the shift of the cells is seen by none. -/
theorem Kept.remove {topic : String} {i : Nat} (kept : Kept s) (here : s.calls = [.remove topic])
    (found : s.listed.findIdx? (fun other => other = topic) = some i) :
    Kept { s with
      arrays := (s.subscribes.removeAt i s.arrays).1
      subscribes := (s.subscribes.removeAt i s.arrays).2
      calls := [] } := by
  obtain ⟨gone, idle⟩ := kept.removing topic (by rw [here]; exact List.mem_singleton_self _)
  obtain ⟨short, same, -⟩ := List.findIdx?_eq_some_iff_getElem.mp found
  replace same : s.listed[i] = topic := of_decide_eq_true same
  have inRange : i < s.subscribes.len := by
    rw [State.listed, List.length_map, Slice.length_items kept.inside] at short
    exact short
  have shrunk : ((s.subscribes.removeAt i s.arrays).2.items (s.subscribes.removeAt i s.arrays).1).map
      Subscriber.topic = s.listed.eraseIdx i := by
    rw [Slice.items_removeAt kept.inside inRange, State.listed, List.eraseIdx_map]
  have listed : ∀ other, other ∈ ((s.subscribes.removeAt i s.arrays).2.items
      (s.subscribes.removeAt i s.arrays).1).map Subscriber.topic ↔ other ∈ s.listed ∧ other ≠ topic := by
    intro other
    rw [shrunk, ← kept.distinct.erase_getElem i short, same, kept.distinct.mem_erase_iff]
    exact and_comm
  refine ⟨Slice.inside_removeAt kept.inside inRange, ?_, Nat.zero_le 1, ?_, ?_, ?_, ?_, ?_, ?_⟩
  · change (((s.subscribes.removeAt i s.arrays).2.items (s.subscribes.removeAt i s.arrays).1).map
      Subscriber.topic).Nodup
    rw [shrunk]
    exact kept.distinct.sublist (List.eraseIdx_sublist _ _)
  · intro subscribes next within ongoing
    have past := idle _ within
    simp [Handler.ranges, ongoing] at past
  · exact fun other member => absurd member List.not_mem_nil
  · exact fun other either => absurd either (by simp)
  · intro other held
    refine .inl ((listed other).mpr ⟨?_, fun same => gone (same ▸ held)⟩)
    refine (kept.only other held).resolve_right ?_
    rintro ⟨sub, member, -⟩
    simp [here] at member
  · intro online other inside
    obtain ⟨old, apart⟩ := (listed other).mp inside
    rcases kept.covered online other old with held | pending | removing
    · exact .inl held
    · refine .inr (.inl ?_)
      rcases pending with begins | ⟨subscribes, next, within, j, later, sub, found', -⟩
      · exact .inl begins
      · have ongoing := Nat.lt_of_le_of_lt later (Slice.lt_of_cell found')
        have past := idle _ within
        simp [Handler.ranges, ongoing] at past
    · rw [here] at removing
      cases List.mem_singleton.mp removing
      exact absurd rfl apart
  · exact fun _ other member => absurd member List.not_mem_nil

/-- The topic was not in the list. -/
theorem Kept.removeNone {topic : String} (kept : Kept s) (here : s.calls = [.remove topic])
    (missing : topic ∉ s.listed) : Kept { s with calls := [] } := by
  refine ⟨kept.inside, kept.distinct, Nat.zero_le 1, kept.ranges, ?_, ?_, ?_, ?_, ?_⟩
  · exact fun other member => absurd member List.not_mem_nil
  · exact fun other either => absurd either (by simp)
  · intro other held
    refine .inl ((kept.only other held).resolve_right ?_)
    rintro ⟨sub, member, -⟩
    simp [here] at member
  · intro online other listed
    rcases kept.covered online other listed with held | pending | removing
    · exact .inl held
    · exact .inr (.inl pending)
    · rw [here] at removing
      cases List.mem_singleton.mp removing
      exact absurd listed missing
  · exact fun _ other member => absurd member List.not_mem_nil

/-! A step of each kind. -/

theorem kept_connect {sessionKept : Bool} (kept : Kept s) (taken : step s (.connect sessionKept) = some s') : Kept s' := by
  simp only [step] at taken
  split at taken
  · cases taken
  · cases taken
    refine kept.connect fun topic held => ?_
    split at held
    · exact held
    · exact absurd held List.not_mem_nil

theorem kept_resubscribe {i : Nat} {o : Outcome} (kept : Kept s) (honest : Orderly s (.resubscribe i o))
    (taken : step s (.resubscribe i o) = some s') : Kept s' := by
  simp only [step] at taken
  split at taken
  · rename_i subscribes next here
    obtain ⟨sub, found, taken⟩ := Option.bind_eq_some_iff.mp taken
    cases taken
    exact kept.resubscribe honest here found
  · cases taken

theorem kept_subscribe {sub : Subscriber} (kept : Kept s) (orderly : Orderly s (.subscribe sub))
    (taken : step s (.subscribe sub) = some s') : Kept s' := by
  obtain ⟨calm, fresh⟩ := orderly
  have whole := kept.subscribe calm fresh
  simp only [step, calm, List.nil_append] at taken
  split at taken
  · cases taken
  · split at taken
    case isTrue connected =>
      cases taken
      simpa only [connected, ↓reduceIte] using whole
    case isFalse shut =>
      cases taken
      simpa only [shut, Bool.false_eq_true, ↓reduceIte] using whole

theorem kept_request {k : Nat} {o : Outcome} (kept : Kept s) (honest : Orderly s (.request k o))
    (taken : step s (.request k o) = some s') : Kept s' := by
  simp only [step] at taken
  split at taken
  · rename_i sub found
    obtain ⟨here, rfl⟩ := kept.call found
    have whole := kept.request here honest
    split at taken
    case isTrue failed =>
      cases taken
      simpa only [failed, ↓reduceIte, here, List.eraseIdx_cons_zero] using whole
    case isFalse goes =>
      cases taken
      simpa only [goes, ↓reduceIte, here, List.set_cons_zero] using whole
  · cases taken

theorem kept_append {k : Nat} {fresh : Bool} (kept : Kept s) (taken : step s (.append k fresh) = some s') : Kept s' := by
  simp only [step] at taken
  split at taken
  · rename_i sub found
    obtain ⟨here, rfl⟩ := kept.call found
    cases taken
    simpa only [here, List.eraseIdx_cons_zero] using kept.append here fresh
  · cases taken

theorem kept_unsubscribe {topic : String} {o : Outcome} (kept : Kept s) (orderly : Orderly s (.unsubscribe topic o))
    (taken : step s (.unsubscribe topic o) = some s') : Kept s' := by
  obtain ⟨calm, idle, honest⟩ := orderly
  have whole : Kept { s.unregister topic o with calls := if s.told o = .acked then [.remove topic] else [] } :=
    kept.unsubscribe calm idle honest
  simp only [step] at taken
  split at taken
  case isTrue acked =>
    cases taken
    simpa only [acked, ↓reduceIte, calm, List.nil_append] using whole
  case isFalse refused =>
    cases taken
    have same : (s.unregister topic o).calls = [] := by
      rw [State.unregister]
      split <;> exact calm
    simpa only [refused, ↓reduceIte, ← same] using whole

theorem kept_remove {k : Nat} (kept : Kept s) (taken : step s (.remove k) = some s') : Kept s' := by
  simp only [step] at taken
  split at taken
  · rename_i topic found
    obtain ⟨here, rfl⟩ := kept.call found
    split at taken
    · cases taken
    · split at taken
      · rename_i i there
        cases taken
        simpa only [here, List.eraseIdx_cons_zero] using kept.remove here there
      · rename_i none
        cases taken
        have missing : topic ∉ s.listed := fun listed => by
          simpa using List.findIdx?_eq_none_iff.mp none topic listed
        simpa only [here, List.eraseIdx_cons_zero] using kept.removeNone here missing
  · cases taken

theorem kept_step (kept : Kept s) (orderly : Orderly s a) (taken : step s a = some s') : Kept s' := by
  cases a with
  | connect sessionKept => exact kept_connect kept taken
  | lose =>
    simp only [step] at taken
    split at taken
    · cases taken
      exact kept.link (by decide)
    · cases taken
  | disconnect =>
    cases taken
    exact kept.link (by decide)
  | snapshot i =>
    simp only [step] at taken
    split at taken
    · rename_i here
      cases taken
      exact kept.snapshot orderly here
    · cases taken
  | resubscribe i o => exact kept_resubscribe kept orderly taken
  | subscribe sub => exact kept_subscribe kept orderly taken
  | request k o => exact kept_request kept orderly taken
  | append k fresh => exact kept_append kept taken
  | unsubscribe topic o => exact kept_unsubscribe kept orderly taken
  | remove k => exact kept_remove kept taken

theorem kept_boot : Kept boot where
  inside := ⟨[], rfl, Nat.le_refl 0⟩
  distinct := List.nodup_nil
  single := Nat.zero_le 1
  ranges := fun _ _ member => absurd member List.not_mem_nil
  removing := fun _ member => absurd member List.not_mem_nil
  fresh := fun _ either => absurd either (by simp [boot])
  only := fun _ member => absurd member List.not_mem_nil
  covered := fun online => by cases online
  added := fun online => by cases online

end

/-- Nothing is under way. -/
structure Idle (s : State) : Prop where
  calls : s.calls = []
  handlers : ∀ h ∈ s.handlers, h.ongoing = false

/-- However often the connection is lost and made again, a client that is connected and
has nothing under way is subscribed at the broker to the topics of its list, and to no
other. -/
theorem subscriptions_restored {s : State} {before after : List Action}
    (orderly : Meets step Orderly boot (before ++ after)) (reached : execute step boot before = some s)
    (online : s.link = .up) (idle : Idle s) : ∀ topic, topic ∈ s.broker ↔ topic ∈ s.listed := by
  have kept : Kept s :=
    Meets.reached (fun _ _ _ kept orderly taken => kept_step kept orderly taken) orderly reached kept_boot
  intro topic
  constructor
  · intro held
    refine (kept.only topic held).resolve_right ?_
    rintro ⟨sub, member, -⟩
    simp [idle.calls] at member
  · intro listed
    rcases kept.covered online topic listed with
      held | (begins | ⟨subscribes, next, within, i, later, sub, found, -⟩) | removing
    · exact held
    · simpa [Handler.ongoing] using idle.handlers _ begins
    · have past := idle.handlers _ within
      have ongoing := Nat.lt_of_le_of_lt later (Slice.lt_of_cell found)
      simp [Handler.ongoing, ongoing] at past
    · simp [idle.calls] at removing

def acked : Outcome := ⟨true, .acked⟩

/-- A call of `Subscribe` before the first connection. -/
def adding (topic : String) : List Action := [.subscribe ⟨topic, 1⟩, .append 0 true]

/-- The connection is lost after the first handler. -/
def twiceConnected : List Action :=
  adding "$SYS/brokers/+/clients/+/connected" ++ [.connect false, .snapshot 0, .resubscribe 0 acked, .lose,
    .connect false, .snapshot 1, .resubscribe 1 acked]

theorem twice_subscribed : ∃ s, execute step boot twiceConnected = some s ∧
    ∀ topic, topic ∈ s.broker ↔ topic ∈ s.listed := by
  have orderly : Meets step Orderly boot (twiceConnected ++ []) := by decide
  exact ⟨_, rfl, subscriptions_restored orderly rfl rfl ⟨rfl, by decide⟩⟩

/-- A removal while a handler goes over the list shifts the next topic out of its way. -/
example : (execute step boot (adding "a" ++ adding "b" ++ adding "c" ++ [.connect false, .snapshot 0,
    .resubscribe 0 acked, .unsubscribe "a" acked, .remove 0, .resubscribe 0 acked, .resubscribe 0 acked])).map
      (fun s => (s.listed, s.broker, s.handlers.map Handler.ongoing)) = some (["b", "c"], ["c"], [false]) := by
  decide

end Tio.Mqtt
