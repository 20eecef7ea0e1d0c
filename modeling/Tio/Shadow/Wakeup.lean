import Tio.Shadow.Overlap

namespace Tio.Shadow.Method

open Tio.Core
open Tio.Presence (EventType)

def LoopPc.thing : LoopPc → Option String
  | .recv => none
  | .load thingId | .start thingId | .range thingId _ _ | .signal thingId _ _ _ => some thingId

/-- The loop handles an event of the thing and has not begun to range over its calls. -/
def LoopPc.ahead : LoopPc → Option String
  | .load thingId | .start thingId => some thingId
  | _ => none

def CallPc.closing : CallPc → Option (Field × Nat)
  | .remove field (.close k) _ => some (field, k)
  | _ => none

/-- The call waits, and the map has it. -/
def State.Sleeping (s : State) (i : Nat) (c : Call) : Prop :=
  s.calls[i]? = some c ∧ c.waits .waiting = true ∧
    s.waiting.entry c.msg.thingId c.msg.req.clientToken = some i

/-- The thing is connected, and nothing is left that would wake the call. -/
def State.Stranded (s : State) (i : Nat) : Prop :=
  ∃ c ∈ s.calls[i]?, s.waiting.entry c.msg.thingId c.msg.req.clientToken = some i ∧
    c.waits .waiting = true ∧ c.msg.thingId ∈ s.connected ∧
    (.connected, c.msg.thingId) ∉ s.events ∧ s.loop.thing ≠ some c.msg.thingId

instance (s : State) (i : Nat) : Decidable (s.Stranded i) := inferInstanceAs (Decidable (∃ c ∈ _, _))

/-- A call enters while its thing is offline, or before the range for a connect event of it;
and a clean-up does not close the channel of another call that is waiting. -/
def Heard (s : State) : Action → Prop
  | .call i _ => ∀ c ∈ s.calls[i]?,
      (c.pc.storing = some .waiting → c.msg.thingId ∈ s.connected →
        (.connected, c.msg.thingId) ∈ s.events ∨ s.loop.ahead = some c.msg.thingId) ∧
      ∀ close ∈ c.pc.closing, close.1 = .waiting → close.2 = i ∨
        ∀ other ∈ s.calls[close.2]?, other.waits .waiting = false
  | _ => True

instance (s : State) : DecidablePred (Heard s)
  | .call _ _ => inferInstanceAs (Decidable (∀ c ∈ _, _))
  | .invoke _ | .timeout _ | .ctxDone _ | .connect _ | .disconnect _ | .receive _ | .loop | .visit _
  | .signal | .skip | .response _ _ | .deliver _ | .send _ | .drop _ => isTrue trivial

/-- The loop will come to the call. -/
def LoopPc.Covers (loop : LoopPc) (c : Call) (i : Nat) : Prop :=
  match loop with
  | .recv => False
  | .load thingId | .start thingId => thingId = c.msg.thingId
  | .range thingId _ due => thingId = c.msg.thingId ∧ c.msg.req.clientToken ∈ due
  | .signal thingId _ due k => thingId = c.msg.thingId ∧ (c.msg.req.clientToken ∈ due ∨ k = i)

structure Watched (s : State) : Prop where
  covered : ∀ (i : Nat) c, s.Sleeping i c → c.msg.thingId ∈ s.connected →
    (.connected, c.msg.thingId) ∈ s.events ∨ s.loop.Covers c i
  unclosed : ∀ (i : Nat) c, s.Sleeping i c → (.waiting, i) ∉ s.closes

/-- A call goes on that does not wait then, and is all that changes but for its own entry. -/
structure Fades (s : State) (i : Nat) (c : Call) (s' : State) : Prop where
  calls : ∃ c', s'.calls = s.calls.set i c' ∧ c'.waits .waiting = false
  connected : s'.connected = s.connected
  events : s'.events = s.events
  entry : ∀ thingId clientToken k, s'.waiting.entry thingId clientToken = some k →
    s.waiting.entry thingId clientToken = some k
  loop : ∀ (k : Nat) d, s'.Sleeping k d → s.loop.Covers d k → s'.loop.Covers d k
  closes : s'.closes = s.closes ∨ ∃ close ∈ c.pc.closing, s'.closes = s.closes ++ [close]

section

variable {s s' : State} {a : Action} {c : Call} {i : Nat} {field : Field}

theorem watched_of (watched : Watched s) (before : ∀ (k : Nat) d, s'.Sleeping k d → s.Sleeping k d)
    (connected : s'.connected ⊆ s.connected) (events : s.events ⊆ s'.events)
    (loop : ∀ (k : Nat) d, s'.Sleeping k d → s.loop.Covers d k → s'.loop.Covers d k)
    (closes : ∀ (k : Nat) d, s'.Sleeping k d → (.waiting, k) ∈ s'.closes → (.waiting, k) ∈ s.closes) :
    Watched s' := by
  constructor
  · intro k d sleeping online
    rcases watched.covered k d (before k d sleeping) (connected online) with event | covers
    · exact .inl (events event)
    · exact .inr (loop k d sleeping covers)
  · intro k d sleeping closed
    exact watched.unclosed k d (before k d sleeping) (closes k d sleeping closed)

theorem sleeping_set {c' : Call} (quiet : c'.waits .waiting = false) (calls : s'.calls = s.calls.set i c')
    (entry : ∀ thingId clientToken k, s'.waiting.entry thingId clientToken = some k →
      s.waiting.entry thingId clientToken = some k) {k : Nat} {d : Call} (sleeping : s'.Sleeping k d) :
    k ≠ i ∧ s.Sleeping k d := by
  obtain ⟨found, waits, there⟩ := sleeping
  rw [calls, List.getElem?_set] at found
  split at found
  · split at found
    · cases found
      rw [quiet] at waits
      cases waits
    · cases found
  · rename_i apart
    exact ⟨Ne.symm apart, found, waits, entry _ _ k there⟩

theorem fades_setCall {c' : Call} (quiet : c'.waits .waiting = false) : Fades s i c (s.setCall i c') :=
  { calls := ⟨_, rfl, quiet⟩
    connected := rfl
    events := rfl
    entry := fun _ _ _ same => same
    loop := fun _ _ _ covers => covers
    closes := .inl rfl }

theorem fades_goto {pc : CallPc} (quiet : ({ c with pc := pc } : Call).waits .waiting = false) :
    Fades s i c (s.goto i c pc) := fades_setCall quiet

/-- A change of the map that adds no entry. -/
theorem Fades.setMaps (fades : Fades s i c s') (field : Field) (maps : TokenMaps)
    (entry : ∀ thingId clientToken k, maps.entry thingId clientToken = some k →
      (s'.maps field).entry thingId clientToken = some k) : Fades s i c (s'.setMaps maps field) := by
  have fewer : ∀ thingId clientToken k, (s'.setMaps maps field).waiting.entry thingId clientToken = some k →
      s'.waiting.entry thingId clientToken = some k := by
    intro thingId clientToken k found
    cases field
    · exact entry thingId clientToken k found
    · exact found
  have still : ∀ (k : Nat) d, (s'.setMaps maps field).Sleeping k d → s'.Sleeping k d := by
    intro k d sleeping
    obtain ⟨found, waits, there⟩ := sleeping
    rw [setMaps_calls] at found
    exact ⟨found, waits, fewer _ _ k there⟩
  constructor
  · rw [setMaps_calls]
    exact fades.calls
  · rw [← fades.connected]
    cases field <;> rfl
  · rw [← fades.events]
    cases field <;> rfl
  · exact fun thingId clientToken k found => fades.entry _ _ k (fewer _ _ k found)
  · intro k d sleeping covers
    have covers' := fades.loop k d (still k d sleeping) covers
    cases field <;> exact covers'
  · have same : (s'.setMaps maps field).closes = s'.closes := by cases field <;> rfl
    rw [same]
    exact fades.closes

theorem quiet_leave (c : Call) (result : Result) (field : Field) :
    ({ c with pc := c.leave result field } : Call).waits .waiting = false := by
  cases field
  · rfl
  · cases waited : c.waited <;> simp [Call.leave, Call.waits, waited]

/-- What is deleted need not be visited. -/
theorem covers_forget {loop : LoopPc} {thingId clientToken : String} {d : Call} {k : Nat}
    (apart : ¬ (thingId = d.msg.thingId ∧ clientToken = d.msg.req.clientToken)) (covers : loop.Covers d k) :
    (loop.forget thingId clientToken).Covers d k := by
  cases loop with
  | recv | load t | start t => exact covers
  | range t visited due =>
    obtain ⟨rfl, member⟩ := covers
    refine ⟨rfl, ?_⟩
    split
    · rename_i same
      refine List.mem_filter.mpr ⟨member, ?_⟩
      simpa using fun clash => apart ⟨same.symm, clash.symm⟩
    · exact member
  | signal t visited due k' =>
    obtain ⟨rfl, member | same⟩ := covers
    · refine ⟨rfl, .inl ?_⟩
      split
      · rename_i same
        refine List.mem_filter.mpr ⟨member, ?_⟩
        simpa using fun clash => apart ⟨same.symm, clash.symm⟩
      · exact member
    · exact ⟨rfl, .inr same⟩

theorem remove_fades {f : Field} {stage : Stage} {result : Result} {err : Option String}
    (stands : c.pc = .remove f stage result) (taken : s.call i err c = some s') : Fades s i c s' := by
  simp only [State.call, stands] at taken
  cases stage with
  | load | find =>
    simp only at taken
    split at taken
    all_goals rw [← Option.some.inj taken]
    · exact fades_goto rfl
    · exact fades_goto (quiet_leave c result f)
  | close k =>
    rw [← Option.some.inj taken]
    have moved : Fades s i c (s.goto i c (.remove f .delete result)) := fades_goto rfl
    refine { moved with closes := .inr ⟨(f, k), ?_, rfl⟩ }
    rw [stands]
    rfl
  | delete =>
    rw [← Option.some.inj taken]
    have left : Fades s i c (s.goto i c (c.leave result f)) := fades_goto (quiet_leave c result f)
    have same : (s.goto i c (c.leave result f)).maps f = s.maps f := by cases f <;> rfl
    have deleted := entry_delete (s.maps f) c.msg.thingId c.msg.req.clientToken
    have gone := left.setMaps f ((s.maps f).delete c.msg.thingId c.msg.req.clientToken) <| by
      intro thingId clientToken k found
      have there := congrFun deleted (thingId, clientToken)
      simp only [found, Function.update_apply] at there
      split at there
      · cases there
      · rw [same, there]
    refine { gone with loop := fun k d sleeping covers => ?_ }
    cases f with
    | pending => exact covers
    | waiting =>
      refine covers_forget (fun own => ?_) covers
      obtain ⟨-, -, there⟩ := sleeping
      have absent : ((s.maps .waiting).delete c.msg.thingId c.msg.req.clientToken).entry d.msg.thingId
          d.msg.req.clientToken = none := by
        rw [← own.1, ← own.2]
        exact (congrFun deleted (c.msg.thingId, c.msg.req.clientToken)).trans (Function.update_self ..)
      have clash : none = some k := absent.symm.trans there
      cases clash

/-- All that a call can do but enter the map where it waits. -/
theorem call_fades {err : Option String} (other : c.pc.storing ≠ some .waiting)
    (taken : s.call i err c = some s') : Fades s i c s' := by
  cases stands : c.pc with
  | check =>
    simp only [State.call, stands] at taken
    cases err with
    | some text =>
      rw [← Option.some.inj taken]
      exact fades_goto rfl
    | none =>
      simp only at taken
      split at taken
      · rw [← Option.some.inj taken]
        exact fades_setCall rfl
      split at taken
      all_goals rw [← Option.some.inj taken]; exact fades_goto rfl
  | register f =>
    simp only [State.call, stands] at taken
    rw [← Option.some.inj taken]
    have moved : Fades s i c (s.goto i c (.store f)) := fades_goto rfl
    have same : (s.goto i c (.store f)).maps f = s.maps f := by cases f <;> rfl
    refine moved.setMaps f _ fun thingId clientToken k found => ?_
    rw [entry_create] at found
    rwa [same]
  | store f =>
    simp only [State.call, stands] at taken
    rw [← Option.some.inj taken]
    cases f with
    | waiting =>
      rw [stands] at other
      exact absurd rfl other
    | pending =>
      have moved : Fades s i c (s.goto i c (.added .pending)) := fades_goto rfl
      exact ⟨moved.calls, rfl, rfl, moved.entry, fun _ _ _ covers => covers, .inl rfl⟩
  | marshal =>
    simp only [State.call, stands] at taken
    cases err with
    | some text =>
      rw [← Option.some.inj taken]
      exact fades_goto (quiet_leave ..)
    | none =>
      rw [← Option.some.inj taken]
      exact fades_goto rfl
  | publish =>
    simp only [State.call, stands] at taken
    cases err with
    | some text | none =>
      rw [← Option.some.inj taken]
      exact fades_goto rfl
  | remove f stage result => exact remove_fades stands taken
  | waitOnline | waitResp | returned result =>
    simp only [State.call, stands] at taken
    cases taken

theorem timeout_fades (taken : s.timeout i c = some s') : Fades s i c s' ∧ c.pc.closing = none := by
  unfold State.timeout at taken
  split at taken
  · rename_i stands
    rw [← Option.some.inj taken, stands]
    exact ⟨fades_goto rfl, rfl⟩
  · rename_i stands
    rw [← Option.some.inj taken, stands]
    exact ⟨fades_goto rfl, rfl⟩
  · cases taken

theorem ctxDone_fades (taken : s.ctxDone i c = some s') : Fades s i c s' ∧ c.pc.closing = none := by
  unfold State.ctxDone at taken
  split at taken
  · rename_i stands
    rw [← Option.some.inj taken, stands]
    exact ⟨fades_goto rfl, rfl⟩
  · rename_i stands
    rw [← Option.some.inj taken, stands]
    exact ⟨fades_goto rfl, rfl⟩
  · cases taken

theorem send_fades {j : Nat} {m : RespMessage} (taken : s.send j m = some s') :
    ∃ k c, c.pc = .waitResp ∧ Fades s k c s' := by
  obtain ⟨msg, k, c, -, -, waits, rfl⟩ := send_cases taken
  have moved : Fades s k c (s.goto k c (.remove .pending .load (.ok (msg.resp, j)))) := fades_goto rfl
  exact ⟨k, c, waits, moved.calls, rfl, rfl, moved.entry, fun _ _ _ covers => covers, .inl rfl⟩

/-- Who goes on leaves the others as they are, if it closes its own channel or one that
nobody waits with. -/
theorem watched_fades (watched : Watched s) (fades : Fades s i c s')
    (closing : ∀ close ∈ c.pc.closing, close.1 = .waiting → close.2 = i ∨
      ∀ other ∈ s.calls[close.2]?, other.waits .waiting = false) : Watched s' := by
  obtain ⟨c', calls, quiet⟩ := fades.calls
  have before : ∀ (k : Nat) d, s'.Sleeping k d → k ≠ i ∧ s.Sleeping k d :=
    fun k d sleeping => sleeping_set quiet calls fades.entry sleeping
  refine watched_of watched (fun k d sleeping => (before k d sleeping).2) ?_ ?_ fades.loop ?_
  · rw [fades.connected]
    exact List.Subset.refl _
  · rw [fades.events]
    exact List.Subset.refl _
  · intro k d sleeping closed
    obtain ⟨apart, found, waits, -⟩ := before k d sleeping
    rcases fades.closes with same | ⟨close, own, more⟩
    · rwa [same] at closed
    · rw [more] at closed
      rcases List.mem_append.mp closed with earlier | new
      · exact earlier
      · have eq := List.mem_singleton.mp new
        subst eq
        rcases closing _ own rfl with mine | asleep
        · exact absurd mine apart
        · rw [asleep d found] at waits
          cases waits

theorem due_of_entry {maps : TokenMaps} {thingId clientToken : String} {k : Nat}
    (found : maps.entry thingId clientToken = some k) :
    clientToken ∈ Assoc.keys ((Assoc.get thingId maps).getD []) := by
  obtain ⟨tokens, there, entry⟩ := Option.bind_eq_some_iff.mp found
  rw [there, Option.getD_some]
  by_contra absent
  rw [Assoc.get_eq_none_iff.mpr absent] at entry
  cases entry

theorem watched_store (known : Registry.Known (s.world .waiting)) (watched : Watched s)
    (here : s.calls[i]? = some c) (stands : c.pc = .store .waiting)
    (heard : c.msg.thingId ∈ s.connected →
      (.connected, c.msg.thingId) ∈ s.events ∨ s.loop.ahead = some c.msg.thingId) :
    Watched ((s.goto i c (.added .waiting)).setMaps
      (s.waiting.store c.msg.thingId c.msg.req.clientToken i) .waiting) := by
  have stored := entry_store s.waiting c.msg.thingId c.msg.req.clientToken i
  -- who else waits was there before, under another key
  have earlier : ∀ (k : Nat) d, ((s.goto i c (.added .waiting)).setMaps
      (s.waiting.store c.msg.thingId c.msg.req.clientToken i) .waiting).Sleeping k d →
      k = i ∧ d.msg = c.msg ∨ s.Sleeping k d := by
    intro k d sleeping
    obtain ⟨found, waits, there⟩ := sleeping
    simp only [setMaps_calls, State.goto, State.setCall, List.getElem?_set] at found
    split at found
    · rename_i same
      split at found
      · rw [← Option.some.inj found]
        exact .inl ⟨same.symm, rfl⟩
      · cases found
    · rename_i apart
      have entry := (congrFun stored (d.msg.thingId, d.msg.req.clientToken)).symm.trans there
      simp only [Function.update_apply] at entry
      split at entry
      · exact absurd (Option.some.inj entry) apart
      · exact .inr ⟨found, waits, entry⟩
  constructor
  · intro k d sleeping online
    rcases earlier k d sleeping with ⟨rfl, same⟩ | before
    · rw [same] at online ⊢
      rcases heard online with event | ahead
      · exact .inl event
      · right
        have covers : s.loop.Covers d k := by
          cases stands' : s.loop <;> simp_all [LoopPc.ahead, LoopPc.Covers]
        exact covers
    · exact watched.covered k d before online
  · intro k d sleeping closed
    rcases earlier k d sleeping with ⟨rfl, -⟩ | before
    · -- nobody can have closed the channel of a call that has not entered yet
      have member : k ∈ (s.world .waiting).closed :=
        List.mem_map.mpr ⟨(.waiting, k), List.mem_filter.mpr ⟨closed, by simp⟩, rfl⟩
      obtain ⟨key, phase, client, entered⟩ := known.closed k member
      rw [client_of_call _ here] at client
      cases client
      exact entered (by simp [Call.phase, stands])
    · exact watched.unclosed k d before closed

/-- Every call the loop would come to it comes to after its next step as well. -/
theorem watched_loop {loop : LoopPc} (watched : Watched s)
    (covers : ∀ (k : Nat) d, s.Sleeping k d → s.loop.Covers d k → loop.Covers d k) :
    Watched { s with loop := loop } :=
  watched_of watched (fun _ _ sleeping => sleeping) (List.Subset.refl _) (List.Subset.refl _)
    (fun k d sleeping => covers k d sleeping) (fun _ _ _ closed => closed)

theorem watched_receive {n : Nat} (watched : Watched s) (taken : s.receive n s.loop = some s') :
    Watched s' := by
  unfold State.receive at taken
  split at taken
  · rename_i stands
    obtain ⟨⟨eventType, thingId⟩, event, taken⟩ := Option.bind_eq_some_iff.mp taken
    rw [← Option.some.inj taken]
    constructor
    · intro k d sleeping online
      rcases watched.covered k d sleeping online with waitsFor | covers
      · by_cases same : (eventType, thingId) = (.connected, d.msg.thingId)
        · cases same
          exact .inr rfl
        · left
          obtain ⟨l, found⟩ := List.mem_iff_getElem?.mp waitsFor
          have apart : l ≠ n := by
            rintro rfl
            exact same (Option.some.inj (event.symm.trans found))
          exact List.mem_eraseIdx_iff_getElem?.mpr ⟨l, apart, found⟩
      · rw [stands] at covers
        cases covers
    · exact watched.unclosed
  · cases taken

theorem watched_loopStep (watched : Watched s) (taken : s.loopStep s.loop = some s') : Watched s' := by
  unfold State.loopStep at taken
  split at taken
  · rename_i thingId stands
    rw [← Option.some.inj taken]
    refine watched_loop watched fun k d sleeping covers => ?_
    rw [stands] at covers
    obtain ⟨tokens, there, -⟩ := Option.bind_eq_some_iff.mp sleeping.2.2
    have same : thingId = d.msg.thingId := covers
    rw [same, there]
    rfl
  · rename_i thingId stands
    rw [← Option.some.inj taken]
    refine watched_loop watched fun k d sleeping covers => ?_
    rw [stands] at covers
    have same : thingId = d.msg.thingId := covers
    rw [same]
    exact ⟨rfl, due_of_entry sleeping.2.2⟩
  · rename_i stands
    rw [← Option.some.inj taken]
    refine watched_loop watched fun k d sleeping covers => ?_
    rw [stands] at covers
    cases covers.2
  · cases taken

theorem watched_visit {clientToken : String} (watched : Watched s)
    (taken : s.visit clientToken s.loop = some s') : Watched s' := by
  unfold State.visit at taken
  split at taken
  · rename_i thingId visited due stands
    split at taken
    · cases taken
    · obtain ⟨k, entry, taken⟩ := Option.bind_eq_some_iff.mp taken
      rw [← Option.some.inj taken]
      refine watched_loop watched fun i d sleeping covers => ?_
      rw [stands] at covers
      obtain ⟨same, member⟩ := covers
      refine ⟨same, ?_⟩
      by_cases visiting : d.msg.req.clientToken = clientToken
      · right
        have own := sleeping.2.2
        rw [← same, visiting, entry] at own
        exact Option.some.inj own
      · left
        exact List.mem_filter.mpr ⟨member, by simpa using visiting⟩
  · cases taken

theorem watched_skip (watched : Watched s) (taken : s.skip s.loop = some s') : Watched s' := by
  unfold State.skip at taken
  split at taken
  · rename_i thingId visited due k stands
    split at taken
    · rename_i closed
      rw [← Option.some.inj taken]
      refine watched_loop watched fun i d sleeping covers => ?_
      rw [stands] at covers
      obtain ⟨same, member | rfl⟩ := covers
      · exact ⟨same, member⟩
      · exact absurd closed (watched.unclosed k d sleeping)
    · cases taken
  · cases taken

theorem signal_fades (taken : s.signal s.loop = some s') : ∃ k c, c.pc = .waitOnline ∧ Fades s k c s' := by
  obtain ⟨thingId, visited, due, k, c, stands, -, waits, rfl⟩ := signal_cases taken
  have moved : Fades s k c (s.setCall k (c.doInvokeMethod true)) := fades_setCall rfl
  refine ⟨k, c, waits, { moved with loop := fun i d sleeping covers => ?_ }⟩
  rw [stands] at covers
  obtain ⟨same, member | rfl⟩ := covers
  · exact ⟨same, member⟩
  · -- the call that is woken does not wait any more
    have asleep : (s.setCall k (c.doInvokeMethod true)).Sleeping k d := sleeping
    obtain ⟨c', calls, quiet⟩ := moved.calls
    exact absurd rfl (sleeping_set quiet calls moved.entry asleep).1

theorem watched_step (known : Registry.Known (s.world .waiting)) (watched : Watched s) (heard : Heard s a)
    (taken : step s a = some s') : Watched s' := by
  have act := act_of_step taken
  cases a with
  | invoke msg =>
    rw [← Option.some.inj act]
    refine watched_of watched (fun k d sleeping => ?_) (List.Subset.refl _) (List.Subset.refl _)
      (fun _ _ _ covers => covers) (fun _ _ _ closed => closed)
    obtain ⟨found, waits, there⟩ := sleeping
    rw [List.getElem?_append] at found
    split at found
    · exact ⟨found, waits, there⟩
    · rw [List.mem_singleton.mp (List.mem_of_getElem? found)] at waits
      cases waits
  | call i err =>
    obtain ⟨c, here, next⟩ := Option.bind_eq_some_iff.mp act
    obtain ⟨entering, closing⟩ := heard c here
    by_cases store : c.pc.storing = some .waiting
    · have stands : c.pc = .store .waiting := by
        cases pc : c.pc <;> simp_all [CallPc.storing]
      simp only [State.call, stands] at next
      rw [← Option.some.inj next]
      exact watched_store known watched here stands (entering store)
    · exact watched_fades watched (call_fades store next) closing
  | timeout i =>
    obtain ⟨c, here, next⟩ := Option.bind_eq_some_iff.mp act
    obtain ⟨fades, absent⟩ := timeout_fades next
    exact watched_fades watched fades (fun close own => by rw [absent] at own; cases own)
  | ctxDone i =>
    obtain ⟨c, here, next⟩ := Option.bind_eq_some_iff.mp act
    obtain ⟨fades, absent⟩ := ctxDone_fades next
    exact watched_fades watched fades (fun close own => by rw [absent] at own; cases own)
  | connect thingId =>
    rw [← Option.some.inj act]
    constructor
    · intro k d sleeping online
      rcases List.mem_cons.mp online with same | before
      · rw [same]
        exact .inl (List.mem_append_right _ (List.mem_singleton_self _))
      · rcases watched.covered k d sleeping before with event | covers
        · exact .inl (List.mem_append_left _ event)
        · exact .inr covers
    · exact watched.unclosed
  | disconnect thingId =>
    rw [← Option.some.inj act]
    exact watched_of watched (fun _ _ sleeping => sleeping) (List.filter_subset_self _) (List.subset_append_left _ _)
      (fun _ _ _ covers => covers) (fun _ _ _ closed => closed)
  | receive n => exact watched_receive watched act
  | loop => exact watched_loopStep watched act
  | visit clientToken => exact watched_visit watched act
  | signal =>
    obtain ⟨k, c, waits, fades⟩ := signal_fades act
    exact watched_fades watched fades (fun close own => by rw [waits] at own; cases own)
  | skip => exact watched_skip watched act
  | response topic payload =>
    rw [← Option.some.inj act]
    exact ⟨watched.covered, watched.unclosed⟩
  | deliver j =>
    obtain ⟨m, -, next⟩ := Option.bind_eq_some_iff.mp act
    obtain ⟨pc, rfl⟩ := deliver_frame next
    exact ⟨watched.covered, watched.unclosed⟩
  | send j =>
    obtain ⟨m, -, next⟩ := Option.bind_eq_some_iff.mp act
    obtain ⟨k, c, waits, fades⟩ := send_fades next
    exact watched_fades watched fades (fun close own => by rw [waits] at own; cases own)
  | drop j =>
    obtain ⟨m, -, next⟩ := Option.bind_eq_some_iff.mp act
    obtain ⟨pc, rfl⟩ := drop_frame next
    exact ⟨watched.covered, watched.unclosed⟩

theorem watched_init (connected : List String) : Watched (init connected) := by
  constructor
  · intro i c sleeping
    cases sleeping.1
  · intro i c sleeping
    cases sleeping.1

theorem not_stranded_of_watched (watched : Watched s) (i : Nat) : ¬ s.Stranded i := by
  rintro ⟨c, here, entry, waits, online, handled, elsewhere⟩
  rcases watched.covered i c ⟨here, waits, entry⟩ online with event | covers
  · exact handled event
  · cases stands : s.loop <;> simp_all [LoopPc.Covers, LoopPc.thing]

end

/-- A call that waits for a thing that is connected is woken, as long as every call enters the map
while its thing is offline or before the range for one of its connect events. -/
theorem calls_woken (connected : List String) (actions : List Action)
    (meets : Meets step Heard (init connected) actions) :
    Always step (fun _ _ s' => ∀ i, ¬ s'.Stranded i) (init connected) actions := by
  refine Meets.always (fun s => Registry.Known (s.world .waiting) ∧ Watched s) ?_ meets ?_
  · rintro s a s' ⟨known, watched⟩ heard taken
    have watched' := watched_step known watched heard taken
    exact ⟨not_stranded_of_watched watched',
      Registry.known_step known (step_refines taken .waiting), watched'⟩
  · refine ⟨?_, watched_init connected⟩
    rw [world_init]
    exact Registry.sound_empty.known

def await (clientToken : String) : Action :=
  .invoke { thingId := "lamp", method := "on", connTimeout := 5, respTimeout := 5, req := ⟨clientToken, none⟩ }

/-- Two calls are woken, one by an event that comes after it, and one that enters while the loop
has the event in hand. -/
theorem lamp_woken : Always step (fun _ _ s' => ∀ i, ¬ s'.Stranded i) (init [])
    ([await "first", await "second"] ++ List.replicate 3 (.call 0 none) ++ List.replicate 2 (.call 1 none) ++
      [.connect "lamp", .receive 0, .call 1 none, .loop, .loop, .visit "first", .signal, .visit "second",
        .signal, .loop]) :=
  calls_woken [] _ (by decide +kernel)

/-- The thing comes online, and the loop handles its event, between the check and the entry
of a call. -/
theorem lamp_missed : (execute step (init [])
    ([await "first", .call 0 none, .connect "lamp", .receive 0, .loop, .call 0 none, .call 0 none])).any
      (fun s => decide (s.Stranded 0)) = true := by decide +kernel

end Tio.Shadow.Method
