import Tio.Shadow.Method

namespace Tio.Shadow.Method

open Tio.Core Tio.Json Tio.Thing
open Tio.Core.Registry (Phase World)

def Stage.phase : Stage → Phase
  | .load | .find => .held
  | .close k => .closing k
  | .delete => .deleting

def Call.phase (c : Call) : Field → Phase
  | .waiting =>
    match c.pc with
    | .check | .register .waiting | .store .waiting => .out
    | .waitOnline => .held
    | .remove .waiting stage _ => stage.phase
    | .returned _ => .gone
    | _ => if c.waited then .held else .gone
  | .pending =>
    match c.pc with
    | .publish | .waitResp => .held
    | .remove .pending stage _ => stage.phase
    | .remove .waiting _ _ | .returned _ => .gone
    | _ => .out

def State.world (s : State) (field : Field) : World (String × String) :=
  { clients := s.calls.map fun c => (c.key, c.phase field)
    table := fun key => (s.maps field).entry key.1 key.2
    closed := (s.closes.filter fun close => close.1 = field).map Prod.snd }

def CallPc.storing : CallPc → Option Field
  | .store field => some field
  | _ => none

/-- The call that the action enters into the map. -/
def State.enters (s : State) (field : Field) : Action → Option Nat
  | .call i _ => (s.calls[i]?.bind fun c => c.pc.storing).bind fun f => if f = field then some i else none
  | _ => none

section

variable {s s' : State} {a : Action} {c c' : Call} {i : Nat} {field : Field}

theorem entry_create (maps : TokenMaps) (thingId t clientToken : String) :
    (maps.create thingId).entry t clientToken = maps.entry t clientToken := by
  simp only [TokenMaps.entry, TokenMaps.create, Assoc.get_set]
  by_cases same : thingId = t
  · subst same
    cases Assoc.get thingId maps <;> simp
  · rw [if_neg same]

theorem entry_store (maps : TokenMaps) (thingId clientToken : String) (i : Nat) :
    (fun key : String × String => (maps.store thingId clientToken i).entry key.1 key.2) =
      Function.update (fun key => maps.entry key.1 key.2) (thingId, clientToken) (some i) := by
  funext key
  obtain ⟨t, token⟩ := key
  simp only [TokenMaps.entry, TokenMaps.store, Assoc.get_set, Function.update_apply, Prod.mk.injEq]
  by_cases same : thingId = t
  · subst same
    rw [if_pos rfl, Option.bind_some, Assoc.get_set]
    by_cases token' : clientToken = token
    · simp [token']
    · rw [if_neg token', if_neg (fun both => token' both.2.symm)]
      cases Assoc.get thingId maps <;> rfl
  · rw [if_neg same, if_neg (fun both => same both.1.symm)]

theorem entry_delete (maps : TokenMaps) (thingId clientToken : String) :
    (fun key : String × String => (maps.delete thingId clientToken).entry key.1 key.2) =
      Function.update (fun key => maps.entry key.1 key.2) (thingId, clientToken) none := by
  funext key
  obtain ⟨t, token⟩ := key
  simp only [TokenMaps.entry, TokenMaps.delete, Assoc.get_set, Function.update_apply, Prod.mk.injEq]
  by_cases same : thingId = t
  · subst same
    rw [if_pos rfl, Option.bind_some, Assoc.get_erase]
    by_cases token' : clientToken = token
    · simp [token']
    · rw [if_neg token', if_neg (fun both => token' both.2.symm)]
      cases Assoc.get thingId maps <;> rfl
  · rw [if_neg same, if_neg (fun both => same both.1.symm)]

theorem client_of_call (field : Field) (here : s.calls[i]? = some c) :
    (s.world field).clients[i]? = some (c.key, c.phase field) := by
  simp [State.world, here]

theorem world_setCall (field : Field) (i : Nat) (c : Call) :
    (s.setCall i c).world field = (s.world field).move i c.key (c.phase field) := by
  cases field <;> simp [State.world, State.setCall, World.move, State.maps, List.map_set]

theorem world_goto (field : Field) (i : Nat) (c : Call) (pc : CallPc) :
    (s.goto i c pc).world field =
      (s.world field).move i c.key (({ c with pc := pc } : Call).phase field) := world_setCall ..

@[simp] theorem world_setMaps_other {other : Field} (apart : other ≠ field) (maps : TokenMaps) :
    (s.setMaps maps other).world field = s.world field := by
  cases other <;> cases field <;> first | exact absurd rfl apart | rfl

theorem world_setMaps_self (field : Field) (maps : TokenMaps) :
    (s.setMaps maps field).world field =
      { s.world field with table := fun key => maps.entry key.1 key.2 } := by
  cases field <;> rfl

theorem world_create (field f : Field) (thingId : String) :
    (s.setMaps ((s.maps f).create thingId) f).world field = s.world field := by
  by_cases same : f = field
  · subst same
    rw [world_setMaps_self]
    simp only [entry_create]
    rfl
  · exact world_setMaps_other same _

/-- A call that stays where it is in the map, or that will not enter it. -/
theorem move_refines (here : s.calls[i]? = some c) {phase : Phase}
    (stays : phase = c.phase field ∨ c.phase field = .out ∧ phase = .gone) :
    Registry.Step (s.world field) none ((s.world field).move i c.key phase) := by
  rcases stays with rfl | ⟨out, rfl⟩
  · have same : (s.world field).move i c.key (c.phase field) = s.world field := by
      obtain ⟨inside, found⟩ := List.getElem?_eq_some_iff.mp (client_of_call field here)
      rw [World.move, ← found, List.set_getElem_self]
    rw [same]
    exact .quiet
  · exact .abandon i c.key (out ▸ client_of_call _ here)

/-- A call goes on; in the map it stays where it is. -/
theorem goto_refines (here : s.calls[i]? = some c) {pc : CallPc}
    (stays : ({ c with pc := pc } : Call).phase field = c.phase field ∨
      c.phase field = .out ∧ ({ c with pc := pc } : Call).phase field = .gone) :
    Registry.Step (s.world field) none ((s.goto i c pc).world field) := by
  rw [world_goto]
  exact move_refines here stays

/-- Outside of the map that a call leaves nothing changes. -/
theorem phase_leave (c : Call) (result : Result) {f : Field} (apart : f ≠ field) {stage : Stage}
    (stands : c.pc = .remove f stage result) :
    ({ c with pc := c.leave result f } : Call).phase field = c.phase field := by
  cases f <;> cases field
  · exact absurd rfl apart
  · simp [Call.phase, Call.leave, stands]
  · cases waited : c.waited <;> simp [Call.phase, Call.leave, stands, waited, Stage.phase]
  · exact absurd rfl apart

theorem phase_left (c : Call) (result : Result) (field : Field) :
    ({ c with pc := c.leave result field } : Call).phase field = .gone := by
  cases field
  · rfl
  · cases waited : c.waited <;> simp [Call.phase, Call.leave, waited]

theorem phase_remove (c : Call) (result : Result) (stage : Stage) (field : Field) :
    ({ c with pc := .remove field stage result } : Call).phase field = stage.phase := by
  cases field <;> rfl

/-- Leaving a map is nothing to the other map. -/
theorem leave_refines (here : s.calls[i]? = some c) {f : Field} {result : Result} {stage : Stage}
    (stands : c.pc = .remove f stage result) (apart : f ≠ field) :
    Registry.Step (s.world field) none ((s.goto i c (c.leave result f)).world field) :=
  goto_refines here (.inl (phase_leave c result apart stands))

theorem store_refines (here : s.calls[i]? = some c) {f : Field} (stands : c.pc = .store f) :
    Registry.Step (s.world field) (if f = field then some i else none)
      (((s.goto i c (.added f)).setMaps ((s.maps f).store c.msg.thingId c.msg.req.clientToken i) f).world
        field) := by
  by_cases same : f = field
  · subst same
    have out : c.phase f = .out := by cases f <;> simp [Call.phase, stands]
    have entered : ({ c with pc := .added f } : Call).phase f = .held := by cases f <;> rfl
    rw [if_pos rfl, world_setMaps_self, world_goto, entry_store, entered]
    exact .register i c.key (out ▸ client_of_call _ here)
  · rw [if_neg same, world_setMaps_other same]
    refine goto_refines here (.inl ?_)
    cases f <;> cases field
    · exact absurd rfl same
    · simp [Call.phase, stands, CallPc.added]
    · simp [Call.phase, stands, CallPc.added]
    · exact absurd rfl same

theorem remove_refines (here : s.calls[i]? = some c) {f : Field} {stage : Stage} {result : Result}
    {err : Option String} (stands : c.pc = .remove f stage result) (taken : s.call i err c = some s') :
    Registry.Step (s.world field) none (s'.world field) := by
  have client := client_of_call f here
  have phase : c.phase f = stage.phase := by
    have moved := phase_remove c result stage f
    rwa [← stands] at moved
  rw [phase] at client
  simp only [State.call, stands] at taken
  by_cases same : f = field
  · subst same
    cases stage with
    | load =>
      simp only at taken
      split at taken
      all_goals rw [Option.some.injEq] at taken; subst taken
      · exact goto_refines here (.inl (by rw [phase, phase_remove]; rfl))
      · rw [world_goto, phase_left]
        refine .missing i c.key client ?_
        simp_all [State.world, TokenMaps.entry, Call.key]
    | find =>
      simp only at taken
      split at taken
      all_goals rw [Option.some.injEq] at taken; subst taken
      · rw [world_goto, phase_remove]
        exact .find i c.key _ client ‹_›
      · rw [world_goto, phase_left]
        exact .missing i c.key client ‹_›
    | close k =>
      simp only [Option.some.injEq] at taken
      subst taken
      have moved : ({ s.goto i c (.remove f .delete result) with closes := s.closes ++ [(f, k)] } :
          State).world f = { (s.world f).move i c.key .deleting with closed := (s.world f).closed ++ [k] } := by
        have before := world_goto (s := s) f i c (.remove f .delete result)
        rw [phase_remove] at before
        cases f <;> simp_all [State.world, World.move, State.maps, State.goto, State.setCall, Stage.phase]
      rw [moved]
      exact .close i c.key k client
    | delete =>
      simp only [Option.some.injEq] at taken
      subst taken
      have moved : ({ (s.goto i c (c.leave result f)).setMaps
          ((s.maps f).delete c.msg.thingId c.msg.req.clientToken) f with
          loop := s.loop.delete c.msg.thingId c.msg.req.clientToken f } : State).world f =
          { (s.world f).move i c.key .gone with
            table := Function.update (s.world f).table c.key none } := by
        have before := world_goto (s := s) f i c (c.leave result f)
        have deleted := world_setMaps_self (s := s.goto i c (c.leave result f)) f
          ((s.maps f).delete c.msg.thingId c.msg.req.clientToken)
        rw [phase_left] at before
        rw [before, entry_delete] at deleted
        exact deleted
      rw [moved]
      exact .delete i c.key client
  · cases stage with
    | load =>
      simp only at taken
      split at taken
      all_goals rw [Option.some.injEq] at taken; subst taken
      · exact goto_refines here (.inl (by cases f <;> cases field <;> simp_all [Call.phase]))
      · exact leave_refines here stands same
    | find =>
      simp only at taken
      split at taken
      all_goals rw [Option.some.injEq] at taken; subst taken
      · exact goto_refines here (.inl (by cases f <;> cases field <;> simp_all [Call.phase]))
      · exact leave_refines here stands same
    | close k =>
      simp only [Option.some.injEq] at taken
      subst taken
      have kept : ({ s.goto i c (.remove f .delete result) with closes := s.closes ++ [(f, k)] } :
          State).world field = (s.goto i c (.remove f .delete result)).world field := by
        cases f <;> cases field <;> simp_all [State.world, State.maps, State.goto, State.setCall]
      rw [kept]
      exact goto_refines here (.inl (by cases f <;> cases field <;> simp_all [Call.phase]))
    | delete =>
      simp only [Option.some.injEq] at taken
      subst taken
      have kept := world_setMaps_other (s := s.goto i c (c.leave result f)) same
        ((s.maps f).delete c.msg.thingId c.msg.req.clientToken)
      have left := leave_refines (s := s) here stands same
      rw [← kept] at left
      exact left

theorem call_refines (here : s.calls[i]? = some c) {err : Option String}
    (taken : s.call i err c = some s') :
    Registry.Step (s.world field) (c.pc.storing.bind fun f => if f = field then some i else none)
      (s'.world field) := by
  have phase_of : ∀ {pc : CallPc}, c.pc = pc → c.phase field = ({ c with pc := pc } : Call).phase field := by
    rintro _ rfl
    rfl
  cases stands : c.pc with
  | check =>
    simp only [State.call, stands] at taken
    have out : c.phase field = .out := by cases field <;> simp [Call.phase, stands]
    cases err with
    | some text =>
      simp only [Option.some.injEq] at taken
      subst taken
      exact goto_refines here (.inr ⟨out, by cases field <;> rfl⟩)
    | none =>
      simp only at taken
      split at taken
      · simp only [Option.some.injEq] at taken
        subst taken
        rw [world_setCall]
        refine move_refines here ?_
        cases field
        · exact .inr ⟨out, rfl⟩
        · exact .inl out.symm
      split at taken
      all_goals rw [Option.some.injEq] at taken; subst taken
      · exact goto_refines here (.inr ⟨out, by cases field <;> rfl⟩)
      · exact goto_refines here (.inl (by rw [out]; cases field <;> rfl))
  | register f =>
    simp only [State.call, stands, Option.some.injEq] at taken
    subst taken
    have created := world_create (s := s.goto i c (.store f)) field f c.msg.thingId
    have same : (s.goto i c (.store f)).maps f = s.maps f := by cases f <;> rfl
    rw [same] at created
    rw [created]
    refine goto_refines here (.inl ?_)
    rw [phase_of stands]
    cases f <;> cases field <;> rfl
  | store f =>
    simp only [State.call, stands, Option.some.injEq] at taken
    subst taken
    exact store_refines here stands
  | marshal =>
    simp only [State.call, stands] at taken
    cases err with
    | some text =>
      simp only [Option.some.injEq] at taken
      subst taken
      refine goto_refines here ?_
      rw [phase_of stands]
      cases field <;> cases waited : c.waited <;> simp [Call.phase, Call.leave, waited, Stage.phase]
    | none =>
      simp only [Option.some.injEq] at taken
      subst taken
      refine goto_refines here (.inl ?_)
      rw [phase_of stands]
      cases field <;> rfl
  | publish =>
    simp only [State.call, stands] at taken
    cases err with
    | some text | none =>
      simp only [Option.some.injEq] at taken
      subst taken
      refine goto_refines here (.inl ?_)
      rw [phase_of stands]
      cases field <;> rfl
  | remove f stage result => exact remove_refines here stands taken
  | waitOnline | waitResp | returned result =>
    simp only [State.call, stands] at taken
    cases taken

theorem timeout_refines (here : s.calls[i]? = some c) (taken : s.timeout i c = some s') :
    Registry.Step (s.world field) none (s'.world field) := by
  unfold State.timeout at taken
  split at taken
  · simp only [Option.some.injEq] at taken
    subst taken
    refine goto_refines here ?_
    cases field <;> simp_all [Call.phase, Stage.phase]
  · simp only [Option.some.injEq] at taken
    subst taken
    refine goto_refines here (.inl ?_)
    cases field <;> simp_all [Call.phase, Stage.phase]
  · cases taken

theorem ctxDone_refines (here : s.calls[i]? = some c) (taken : s.ctxDone i c = some s') :
    Registry.Step (s.world field) none (s'.world field) := by
  unfold State.ctxDone at taken
  split at taken
  · simp only [Option.some.injEq] at taken
    subst taken
    refine goto_refines here ?_
    cases field <;> simp_all [Call.phase, Stage.phase]
  · simp only [Option.some.injEq] at taken
    subst taken
    refine goto_refines here (.inl ?_)
    cases field <;> simp_all [Call.phase, Stage.phase]
  · cases taken

theorem signal_cases (taken : s.signal s.loop = some s') :
    ∃ thingId visited due k c, s.loop = .signal thingId visited due k ∧ s.calls[k]? = some c ∧
      c.pc = .waitOnline ∧
      s' = { s.setCall k (c.doInvokeMethod true) with loop := .range thingId visited due } := by
  unfold State.signal at taken
  split at taken
  · rename_i thingId visited due k stands
    obtain ⟨c, here, taken⟩ := Option.bind_eq_some_iff.mp taken
    split at taken
    · rename_i waits
      exact ⟨thingId, visited, due, k, c, stands, here, waits, (Option.some.inj taken).symm⟩
    · cases taken
  · cases taken

theorem send_cases {j : Nat} {m : RespMessage} (taken : s.send j m = some s') :
    ∃ msg k c, m.pc = .send msg k ∧ s.calls[k]? = some c ∧ c.pc = .waitResp ∧
      s' = (s.goto k c (.remove .pending .load (.ok (msg.resp, j)))).setMessage j m .finished := by
  unfold State.send at taken
  split at taken
  · rename_i msg k stands
    obtain ⟨c, here, taken⟩ := Option.bind_eq_some_iff.mp taken
    split at taken
    · rename_i waits
      exact ⟨msg, k, c, stands, here, waits, (Option.some.inj taken).symm⟩
    · cases taken
  · cases taken

theorem signal_refines (taken : s.signal s.loop = some s') :
    Registry.Step (s.world field) none (s'.world field) := by
  obtain ⟨thingId, visited, due, k, c, -, here, waits, rfl⟩ := signal_cases taken
  have moved : ({ s.setCall k (c.doInvokeMethod true) with loop := .range thingId visited due } :
      State).world field = (s.setCall k (c.doInvokeMethod true)).world field := by
    cases field <;> rfl
  rw [moved, world_setCall]
  refine move_refines here (.inl ?_)
  cases field <;> simp [Call.phase, Call.doInvokeMethod, waits]

theorem send_refines {j : Nat} {m : RespMessage} (taken : s.send j m = some s') :
    Registry.Step (s.world field) none (s'.world field) := by
  obtain ⟨msg, k, c, -, here, waits, rfl⟩ := send_cases taken
  have moved : ((s.goto k c (.remove .pending .load (.ok (msg.resp, j)))).setMessage j m .finished).world
      field = (s.goto k c (.remove .pending .load (.ok (msg.resp, j)))).world field := by
    cases field <;> rfl
  rw [moved]
  refine goto_refines here (.inl ?_)
  cases field <;> simp [Call.phase, waits, Stage.phase]

theorem receive_frame {n : Nat} (taken : s.receive n s.loop = some s') :
    ∃ events loop, s' = { s with events := events, loop := loop } := by
  unfold State.receive at taken
  split at taken
  · obtain ⟨event, -, taken⟩ := Option.bind_eq_some_iff.mp taken
    exact ⟨_, _, (Option.some.inj taken).symm⟩
  · cases taken

theorem loopStep_frame (taken : s.loopStep s.loop = some s') : ∃ loop, s' = { s with loop := loop } := by
  unfold State.loopStep at taken
  split at taken
  · exact ⟨_, (Option.some.inj taken).symm⟩
  · exact ⟨_, (Option.some.inj taken).symm⟩
  · exact ⟨_, (Option.some.inj taken).symm⟩
  · cases taken

theorem visit_frame {clientToken : String} (taken : s.visit clientToken s.loop = some s') :
    ∃ loop, s' = { s with loop := loop } := by
  unfold State.visit at taken
  split at taken
  · split at taken
    · cases taken
    · obtain ⟨k, -, taken⟩ := Option.bind_eq_some_iff.mp taken
      exact ⟨_, (Option.some.inj taken).symm⟩
  · cases taken

theorem skip_frame (taken : s.skip s.loop = some s') : ∃ loop, s' = { s with loop := loop } := by
  unfold State.skip at taken
  split at taken
  · split at taken
    · exact ⟨_, (Option.some.inj taken).symm⟩
    · cases taken
  · cases taken

theorem deliver_frame {j : Nat} {m : RespMessage} (taken : s.deliver j m = some s') :
    ∃ pc, s' = s.setMessage j m pc := by
  unfold State.deliver at taken
  split at taken
  · split at taken <;> exact ⟨_, (Option.some.inj taken).symm⟩
  · exact ⟨_, (Option.some.inj taken).symm⟩
  · split at taken <;> exact ⟨_, (Option.some.inj taken).symm⟩
  · cases taken
  · cases taken

theorem drop_frame {j : Nat} {m : RespMessage} (taken : s.drop j m = some s') :
    ∃ pc, s' = s.setMessage j m pc := by
  unfold State.drop at taken
  split at taken
  · split at taken
    · exact ⟨_, (Option.some.inj taken).symm⟩
    · cases taken
  · cases taken

theorem act_of_step (taken : step s a = some s') : s.act a = some s' := by
  unfold step at taken
  split at taken
  · cases taken
  · exact taken

/-- Whatever happens, each of the maps sees a step of a table. -/
theorem step_refines (taken : step s a = some s') (field : Field) :
    Registry.Step (s.world field) (s.enters field a) (s'.world field) := by
  have quiet : ∀ {s' : State}, s'.world field = s.world field →
      Registry.Step (s.world field) none (s'.world field) := by
    intro s' same
    rw [same]
    exact .quiet
  have act := act_of_step taken
  cases a with
  | invoke msg =>
    simp only [State.act, Option.some.injEq] at act
    subst act
    have joined : ({ s with calls := s.calls ++ [⟨msg, false, .check⟩] } : State).world field =
        { s.world field with
          clients := (s.world field).clients ++ [((msg.thingId, msg.req.clientToken), .out)] } := by
      cases field <;> simp [State.world, Call.key, Call.phase, State.maps]
    rw [joined]
    exact .join _
  | call i err =>
    obtain ⟨c, here, next⟩ := Option.bind_eq_some_iff.mp act
    have entered : s.enters field (.call i err) =
        c.pc.storing.bind fun f => if f = field then some i else none := by
      simp [State.enters, here]
    rw [entered]
    exact call_refines here next
  | timeout i =>
    obtain ⟨c, here, next⟩ := Option.bind_eq_some_iff.mp act
    exact timeout_refines here next
  | ctxDone i =>
    obtain ⟨c, here, next⟩ := Option.bind_eq_some_iff.mp act
    exact ctxDone_refines here next
  | connect thingId | disconnect thingId | response topic payload =>
    simp only [State.act, Option.some.injEq] at act
    subst act
    exact quiet (by cases field <;> rfl)
  | receive n =>
    obtain ⟨events, loop, rfl⟩ := receive_frame act
    exact quiet (by cases field <;> rfl)
  | loop =>
    obtain ⟨loop, rfl⟩ := loopStep_frame act
    exact quiet (by cases field <;> rfl)
  | visit clientToken =>
    obtain ⟨loop, rfl⟩ := visit_frame act
    exact quiet (by cases field <;> rfl)
  | signal => exact signal_refines act
  | skip =>
    obtain ⟨loop, rfl⟩ := skip_frame act
    exact quiet (by cases field <;> rfl)
  | deliver j =>
    obtain ⟨m, -, next⟩ := Option.bind_eq_some_iff.mp act
    obtain ⟨pc, rfl⟩ := deliver_frame next
    exact quiet (by cases field <;> rfl)
  | send j =>
    obtain ⟨m, -, next⟩ := Option.bind_eq_some_iff.mp act
    exact send_refines next
  | drop j =>
    obtain ⟨m, -, next⟩ := Option.bind_eq_some_iff.mp act
    obtain ⟨pc, rfl⟩ := drop_frame next
    exact quiet (by cases field <;> rfl)

end

end Tio.Shadow.Method
