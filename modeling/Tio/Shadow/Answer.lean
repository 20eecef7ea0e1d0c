import Tio.Shadow.Invocation

namespace Tio.Shadow.Method

open Tio.Core Tio.Json Tio.Thing

def CallPc.result : CallPc → Option Result
  | .remove _ _ result | .returned result => some result
  | _ => none

def RespPc.msg : RespPc → Option MethodRespMsg
  | .load msg | .find msg | .send msg _ => some msg
  | _ => none

/-- The call ends with the response that came in the message. -/
def Call.Consumed (c : Call) (resp : MethodResp) (j : Nat) : Prop := c.pc.result = some (.ok (resp, j))

/-- A returned response came on a topic of the thing of the call, with the token of the call. -/
def Answered (s : State) : Prop :=
  ∀ c ∈ s.calls, ∀ resp j, c.pc = .returned (.ok (resp, j)) →
    ∃ m, s.messages[j]? = some m ∧ m.payload = .ok resp ∧
      getThingIdFromTopic m.topic = .ok c.msg.thingId ∧ resp.clientToken = c.msg.req.clientToken

/-- A message is consumed by one call at most. -/
def ConsumedOnce (s : State) : Prop :=
  ∀ (i i' : Nat) c c' resp resp' j, s.calls[i]? = some c → s.calls[i']? = some c' →
    c.Consumed resp j → c'.Consumed resp' j → i = i'

/-- What the goroutines and the calls have in hand is what was published. -/
structure Replies (s : State) : Prop where
  published : ∀ m ∈ s.messages, ∀ msg, m.pc.msg = some msg →
    m.payload = .ok msg.resp ∧ getThingIdFromTopic m.topic = .ok msg.thingId
  addressed : ∀ m ∈ s.messages, ∀ msg k, m.pc = .send msg k →
    ∃ c, s.calls[k]? = some c ∧ c.key = (msg.thingId, msg.resp.clientToken)
  answered : ∀ (i : Nat) c resp j, s.calls[i]? = some c → c.Consumed resp j →
    ∃ m, s.messages[j]? = some m ∧ m.pc = .finished ∧ m.payload = .ok resp ∧
      getThingIdFromTopic m.topic = .ok c.msg.thingId ∧ resp.clientToken = c.msg.req.clientToken
  once : ConsumedOnce s

/-- A call goes on without a response. -/
def Advances (s : State) (i : Nat) (c : Call) (s' : State) : Prop :=
  ∃ c', s'.calls = s.calls.set i c' ∧ s'.messages = s.messages ∧ c'.msg = c.msg ∧
    ∀ resp j, c'.Consumed resp j → c.Consumed resp j

section

variable {s s' : State} {a : Action} {c : Call} {i : Nat} {field : Field}

theorem result_leave (c : Call) (result : Result) (field : Field) :
    (c.leave result field).result = some result := by
  cases field
  · rfl
  · cases waited : c.waited <;> simp [Call.leave, waited, CallPc.result]

theorem advances_goto {pc : CallPc}
    (kept : pc.result = c.pc.result ∨ pc.result = none ∨ ∃ text, pc.result = some (.error text)) :
    Advances s i c (s.goto i c pc) := by
  refine ⟨{ c with pc := pc }, rfl, rfl, rfl, fun resp j consumed => ?_⟩
  simp only [Call.Consumed] at consumed ⊢
  rcases kept with same | absent | ⟨text, failed⟩
  · rwa [same] at consumed
  · rw [absent] at consumed
    cases consumed
  · rw [failed] at consumed
    cases consumed

/-- The maps, the closed channels and the loop do not matter. -/
theorem Advances.of_eq {t : State} (advances : Advances s i c t) (calls : s'.calls = t.calls)
    (messages : s'.messages = t.messages) : Advances s i c s' := by
  obtain ⟨c', calls', messages', rest⟩ := advances
  exact ⟨c', calls.trans calls', messages.trans messages', rest⟩

theorem setMaps_calls (maps : TokenMaps) : (s.setMaps maps field).calls = s.calls := by
  cases field <;> rfl

theorem setMaps_messages (maps : TokenMaps) : (s.setMaps maps field).messages = s.messages := by
  cases field <;> rfl

theorem remove_advances {f : Field} {stage : Stage} {result : Result} {err : Option String}
    (stands : c.pc = .remove f stage result) (taken : s.call i err c = some s') : Advances s i c s' := by
  have kept : ∀ pc : CallPc, pc.result = some result → Advances s i c (s.goto i c pc) := by
    intro pc same
    exact advances_goto (.inl (by rw [stands, same]; rfl))
  simp only [State.call, stands] at taken
  cases stage with
  | load | find =>
    simp only at taken
    split at taken
    all_goals rw [← Option.some.inj taken]
    · exact kept _ rfl
    · exact kept _ (result_leave c result f)
  | close k =>
    rw [← Option.some.inj taken]
    exact (kept (.remove f .delete result) rfl).of_eq rfl rfl
  | delete =>
    rw [← Option.some.inj taken]
    exact (kept _ (result_leave c result f)).of_eq (setMaps_calls _) (setMaps_messages _)

theorem call_advances {err : Option String} (taken : s.call i err c = some s') : Advances s i c s' := by
  cases stands : c.pc with
  | check =>
    simp only [State.call, stands] at taken
    cases err with
    | some text =>
      rw [← Option.some.inj taken]
      exact advances_goto (.inr (.inr ⟨_, rfl⟩))
    | none =>
      simp only at taken
      split at taken
      · rw [← Option.some.inj taken]
        exact ⟨c.doInvokeMethod false, rfl, rfl, rfl, fun resp j consumed => by cases consumed⟩
      split at taken
      all_goals rw [← Option.some.inj taken]
      · exact advances_goto (.inr (.inr ⟨_, rfl⟩))
      · exact advances_goto (.inr (.inl rfl))
  | register f =>
    simp only [State.call, stands] at taken
    rw [← Option.some.inj taken]
    have moved : Advances s i c (s.goto i c (.store f)) := advances_goto (.inr (.inl rfl))
    exact moved.of_eq (setMaps_calls _) (setMaps_messages _)
  | store f =>
    simp only [State.call, stands] at taken
    rw [← Option.some.inj taken]
    have added : (CallPc.added f).result = none := by cases f <;> rfl
    exact (advances_goto (.inr (.inl added))).of_eq (setMaps_calls _) (setMaps_messages _)
  | marshal =>
    simp only [State.call, stands] at taken
    cases err with
    | some text =>
      rw [← Option.some.inj taken]
      exact advances_goto (.inr (.inr ⟨_, result_leave ..⟩))
    | none =>
      rw [← Option.some.inj taken]
      exact advances_goto (.inr (.inl rfl))
  | publish =>
    simp only [State.call, stands] at taken
    cases err with
    | some text =>
      rw [← Option.some.inj taken]
      exact advances_goto (.inr (.inr ⟨_, rfl⟩))
    | none =>
      rw [← Option.some.inj taken]
      exact advances_goto (.inr (.inl rfl))
  | remove f stage result => exact remove_advances stands taken
  | waitOnline | waitResp | returned result =>
    simp only [State.call, stands] at taken
    cases taken

theorem timeout_advances (taken : s.timeout i c = some s') : Advances s i c s' := by
  unfold State.timeout at taken
  split at taken
  · rw [← Option.some.inj taken]
    exact advances_goto (.inr (.inr ⟨_, rfl⟩))
  · rw [← Option.some.inj taken]
    exact advances_goto (.inr (.inr ⟨_, rfl⟩))
  · cases taken

theorem ctxDone_advances (taken : s.ctxDone i c = some s') : Advances s i c s' := by
  unfold State.ctxDone at taken
  split at taken
  · rw [← Option.some.inj taken]
    exact advances_goto (.inr (.inr ⟨_, rfl⟩))
  · rw [← Option.some.inj taken]
    exact advances_goto (.inr (.inr ⟨_, rfl⟩))
  · cases taken

/-- A call that goes on keeps the replies, when it had its result before. -/
theorem replies_advance (replies : Replies s) (here : s.calls[i]? = some c) (advances : Advances s i c s') :
    Replies s' := by
  obtain ⟨c', calls, messages, msg, consumed⟩ := advances
  have earlier : ∀ (k : Nat) d, s'.calls[k]? = some d →
      ∃ b, s.calls[k]? = some b ∧ d.msg = b.msg ∧ ∀ resp j, d.Consumed resp j → b.Consumed resp j := by
    intro k d found
    rw [calls, List.getElem?_set] at found
    split at found
    · rename_i same
      subst same
      split at found
      · cases found
        exact ⟨c, here, msg, consumed⟩
      · cases found
    · exact ⟨d, found, rfl, fun _ _ same => same⟩
  constructor
  · rw [messages]
    exact replies.published
  · rw [messages]
    intro m member msg' k stands
    obtain ⟨d, found, key⟩ := replies.addressed m member msg' k stands
    rw [calls, List.getElem?_set]
    split
    · rename_i same
      subst same
      rw [here] at found
      cases found
      obtain ⟨inside, -⟩ := List.getElem?_eq_some_iff.mp here
      rw [if_pos inside]
      exact ⟨c', rfl, by rw [← key, Call.key, Call.key, msg]⟩
    · exact ⟨d, found, key⟩
  · intro k d resp j found eats
    obtain ⟨b, before, same, ate⟩ := earlier k d found
    rw [messages, same]
    exact replies.answered k b resp j before (ate resp j eats)
  · intro k k' d d' resp resp' j found found' eats eats'
    obtain ⟨b, before, -, ate⟩ := earlier k d found
    obtain ⟨b', before', -, ate'⟩ := earlier k' d' found'
    exact replies.once k k' b b' resp resp' j before before' (ate resp j eats) (ate' resp' j eats')

theorem message_cases {j : Nat} {m n : RespMessage} {pc : RespPc}
    (member : n ∈ (s.setMessage j m pc).messages) : n = { m with pc := pc } ∨ n ∈ s.messages := by
  rcases List.mem_or_eq_of_mem_set member with before | new
  · exact .inr before
  · exact .inl new

/-- The message that a result came in stays as it is. -/
theorem message_kept {j k : Nat} {m n : RespMessage} {pc : RespPc} (here : s.messages[j]? = some m)
    (unfinished : m.pc ≠ .finished) (found : s.messages[k]? = some n) (finished : n.pc = .finished) :
    (s.setMessage j m pc).messages[k]? = some n := by
  have apart : j ≠ k := by
    rintro rfl
    rw [here] at found
    cases found
    exact unfinished finished
  simp only [State.setMessage, List.getElem?_set_ne apart, found]

theorem replies_setMessage {j : Nat} {m : RespMessage} {pc : RespPc} (replies : Replies s)
    (here : s.messages[j]? = some m) (unfinished : m.pc ≠ .finished)
    (published : ∀ msg, pc.msg = some msg →
      m.payload = .ok msg.resp ∧ getThingIdFromTopic m.topic = .ok msg.thingId)
    (addressed : ∀ msg k, pc = .send msg k →
      ∃ c, s.calls[k]? = some c ∧ c.key = (msg.thingId, msg.resp.clientToken)) :
    Replies (s.setMessage j m pc) := by
  constructor
  · intro n member msg stands
    rcases message_cases member with rfl | before
    · exact published msg stands
    · exact replies.published n before msg stands
  · intro n member msg k stands
    rcases message_cases member with rfl | before
    · exact addressed msg k stands
    · exact replies.addressed n before msg k stands
  · intro i c resp k found eats
    obtain ⟨n, there, finished, rest⟩ := replies.answered i c resp k found eats
    exact ⟨n, message_kept here unfinished there finished, finished, rest⟩
  · exact replies.once

theorem replies_deliver {j : Nat} {m : RespMessage} (known : Registry.Known (s.world .pending))
    (replies : Replies s) (here : s.messages[j]? = some m) (taken : s.deliver j m = some s') :
    Replies s' := by
  have member := List.mem_of_getElem? here
  unfold State.deliver at taken
  split at taken
  · rename_i stands
    have unfinished : m.pc ≠ .finished := by rw [stands]; intro clash; cases clash
    split at taken
    all_goals rw [← Option.some.inj taken]
    · rename_i thingId resp named decoded
      refine replies_setMessage replies here unfinished (fun msg same => ?_) (fun msg k same => by cases same)
      cases same
      exact ⟨decoded, named⟩
    · exact replies_setMessage replies here unfinished (fun msg same => by cases same)
        (fun msg k same => by cases same)
  · rename_i msg stands
    have unfinished : m.pc ≠ .finished := by rw [stands]; intro clash; cases clash
    have carried := replies.published m member msg (by rw [stands]; rfl)
    rw [← Option.some.inj taken]
    split
    · refine replies_setMessage replies here unfinished (fun msg' same => ?_) (fun msg' k same => by cases same)
      cases same
      exact carried
    · exact replies_setMessage replies here unfinished (fun msg same => by cases same)
        (fun msg k same => by cases same)
  · rename_i msg stands
    have unfinished : m.pc ≠ .finished := by rw [stands]; intro clash; cases clash
    have carried := replies.published m member msg (by rw [stands]; rfl)
    split at taken
    all_goals rw [← Option.some.inj taken]
    · rename_i k entry
      refine replies_setMessage replies here unfinished (fun msg' same => ?_) (fun msg' k' same => ?_)
      · cases same
        exact carried
      · cases same
        obtain ⟨phase, client, -⟩ := known.table (msg.thingId, msg.resp.clientToken) k entry
        simp only [State.world, List.getElem?_map, Option.map_eq_some_iff, Prod.mk.injEq] at client
        obtain ⟨c, found, key, -⟩ := client
        exact ⟨c, found, key⟩
    · exact replies_setMessage replies here unfinished (fun msg same => by cases same)
        (fun msg k same => by cases same)
  · cases taken
  · cases taken

theorem replies_drop {j : Nat} {m : RespMessage} (replies : Replies s) (here : s.messages[j]? = some m)
    (taken : s.drop j m = some s') : Replies s' := by
  unfold State.drop at taken
  split at taken
  · rename_i stands
    have unfinished : m.pc ≠ .finished := by rw [stands]; intro clash; cases clash
    split at taken
    · rw [← Option.some.inj taken]
      exact replies_setMessage replies here unfinished (fun msg same => by cases same)
        (fun msg k same => by cases same)
    · cases taken
  · cases taken

/-- A call gets the response of a message that is finished with, and that no call has yet. -/
theorem replies_consume {j k : Nat} {m : RespMessage} {resp : MethodResp} (replies : Replies s)
    (here : s.messages[j]? = some m) (finished : m.pc = .finished) (decoded : m.payload = .ok resp)
    (named : getThingIdFromTopic m.topic = .ok c.msg.thingId)
    (token : resp.clientToken = c.msg.req.clientToken) (there : s.calls[k]? = some c)
    (untouched : ∀ (i : Nat) d resp, s.calls[i]? = some d → ¬ d.Consumed resp j) :
    Replies (s.goto k c (.remove .pending .load (.ok (resp, j)))) := by
  have earlier : ∀ (i : Nat) d, (s.goto k c (.remove .pending .load (.ok (resp, j)))).calls[i]? = some d →
      i = k ∧ d = { c with pc := .remove .pending .load (.ok (resp, j)) } ∨ s.calls[i]? = some d := by
    intro i d found
    simp only [State.goto, State.setCall, List.getElem?_set] at found
    split at found
    · rename_i same
      split at found
      · exact .inl ⟨same.symm, (Option.some.inj found).symm⟩
      · cases found
    · exact .inr found
  constructor
  · exact replies.published
  · intro n member msg i stands
    obtain ⟨d, found, key⟩ := replies.addressed n member msg i stands
    simp only [State.goto, State.setCall, List.getElem?_set]
    split
    · rename_i same
      subst same
      obtain ⟨inside, -⟩ := List.getElem?_eq_some_iff.mp there
      rw [there] at found
      cases found
      rw [if_pos inside]
      exact ⟨_, rfl, key⟩
    · exact ⟨d, found, key⟩
  · intro i d resp' j' found eats
    rcases earlier i d found with ⟨rfl, rfl⟩ | before
    · cases eats
      exact ⟨m, here, finished, decoded, named, token⟩
    · exact replies.answered i d resp' j' before eats
  · intro i i' d d' resp' resp'' j' found found' eats eats'
    rcases earlier i d found with ⟨rfl, rfl⟩ | before
    · rcases earlier i' d' found' with ⟨rfl, -⟩ | before'
      · rfl
      · cases eats
        exact absurd eats' (untouched i' d' resp'' before')
    · rcases earlier i' d' found' with ⟨rfl, rfl⟩ | before'
      · cases eats'
        exact absurd eats (untouched i d resp' before)
      · exact replies.once i i' d d' resp' resp'' j' before before' eats eats'

theorem replies_send {j : Nat} {m : RespMessage} (replies : Replies s) (here : s.messages[j]? = some m)
    (taken : s.send j m = some s') : Replies s' := by
  obtain ⟨msg, k, c, stands, there, waits, rfl⟩ := send_cases taken
  have member := List.mem_of_getElem? here
  have unfinished : m.pc ≠ .finished := by rw [stands]; intro clash; cases clash
  obtain ⟨decoded, named⟩ := replies.published m member msg (by rw [stands]; rfl)
  obtain ⟨d, same, key⟩ := replies.addressed m member msg k stands
  rw [there] at same
  cases same
  simp only [Call.key, Prod.mk.injEq] at key
  have finished : Replies (s.setMessage j m .finished) :=
    replies_setMessage replies here unfinished (fun msg same => by cases same) (fun msg k same => by cases same)
  obtain ⟨inside, -⟩ := List.getElem?_eq_some_iff.mp here
  refine replies_consume finished (m := { m with pc := .finished }) (List.getElem?_set_self inside) rfl decoded
    (key.1 ▸ named) key.2.symm there (fun i d resp found eats => ?_)
  obtain ⟨n, same, past', -⟩ := replies.answered i d resp j found eats
  rw [here] at same
  cases same
  exact unfinished past'

theorem replies_step (known : Registry.Known (s.world .pending)) (replies : Replies s)
    (taken : step s a = some s') : Replies s' := by
  have act := act_of_step taken
  cases a with
  | invoke msg =>
    rw [← Option.some.inj act]
    have earlier : ∀ (i : Nat) c resp j, (s.calls ++ [⟨msg, false, .check⟩])[i]? = some c → c.Consumed resp j →
        s.calls[i]? = some c := by
      intro i c resp j found eats
      rw [List.getElem?_append] at found
      split at found
      · exact found
      · rw [List.mem_singleton.mp (List.mem_of_getElem? found)] at eats
        cases eats
    constructor
    · exact replies.published
    · intro m member msg' k stands
      obtain ⟨c, found, key⟩ := replies.addressed m member msg' k stands
      obtain ⟨inside, -⟩ := List.getElem?_eq_some_iff.mp found
      exact ⟨c, (List.getElem?_append_left inside).trans found, key⟩
    · intro i c resp j found eats
      exact replies.answered i c resp j (earlier i c resp j found eats) eats
    · intro i i' c c' resp resp' j found found' eats eats'
      exact replies.once i i' c c' resp resp' j (earlier i c resp j found eats)
        (earlier i' c' resp' j found' eats') eats eats'
  | response topic payload =>
    rw [← Option.some.inj act]
    constructor
    · intro m member msg stands
      rcases List.mem_append.mp member with before | new
      · exact replies.published m before msg stands
      · rw [List.mem_singleton.mp new] at stands
        cases stands
    · intro m member msg k stands
      rcases List.mem_append.mp member with before | new
      · exact replies.addressed m before msg k stands
      · rw [List.mem_singleton.mp new] at stands
        cases stands
    · intro i c resp j found eats
      obtain ⟨m, there, rest⟩ := replies.answered i c resp j found eats
      obtain ⟨inside, -⟩ := List.getElem?_eq_some_iff.mp there
      exact ⟨m, (List.getElem?_append_left inside).trans there, rest⟩
    · exact replies.once
  | call i err =>
    obtain ⟨c, here, next⟩ := Option.bind_eq_some_iff.mp act
    exact replies_advance replies here (call_advances next)
  | timeout i =>
    obtain ⟨c, here, next⟩ := Option.bind_eq_some_iff.mp act
    exact replies_advance replies here (timeout_advances next)
  | ctxDone i =>
    obtain ⟨c, here, next⟩ := Option.bind_eq_some_iff.mp act
    exact replies_advance replies here (ctxDone_advances next)
  | signal =>
    obtain ⟨thingId, visited, due, k, c, -, here, waits, rfl⟩ := signal_cases act
    exact replies_advance replies here
      ⟨c.doInvokeMethod true, rfl, rfl, rfl, fun resp j consumed => by cases consumed⟩
  | connect thingId | disconnect thingId =>
    rw [← Option.some.inj act]
    exact ⟨replies.published, replies.addressed, replies.answered, replies.once⟩
  | receive n =>
    obtain ⟨events, loop, rfl⟩ := receive_frame act
    exact ⟨replies.published, replies.addressed, replies.answered, replies.once⟩
  | loop =>
    obtain ⟨loop, rfl⟩ := loopStep_frame act
    exact ⟨replies.published, replies.addressed, replies.answered, replies.once⟩
  | visit clientToken =>
    obtain ⟨loop, rfl⟩ := visit_frame act
    exact ⟨replies.published, replies.addressed, replies.answered, replies.once⟩
  | skip =>
    obtain ⟨loop, rfl⟩ := skip_frame act
    exact ⟨replies.published, replies.addressed, replies.answered, replies.once⟩
  | deliver j =>
    obtain ⟨m, here, next⟩ := Option.bind_eq_some_iff.mp act
    exact replies_deliver known replies here next
  | send j =>
    obtain ⟨m, here, next⟩ := Option.bind_eq_some_iff.mp act
    exact replies_send replies here next
  | drop j =>
    obtain ⟨m, here, next⟩ := Option.bind_eq_some_iff.mp act
    exact replies_drop replies here next

theorem answered_of_replies (replies : Replies s) : Answered s := by
  intro c member resp j returned
  obtain ⟨i, found⟩ := List.mem_iff_getElem?.mp member
  obtain ⟨m, there, -, rest⟩ := replies.answered i c resp j found (by rw [Call.Consumed, returned]; rfl)
  exact ⟨m, there, rest⟩

end

end Tio.Shadow.Method
