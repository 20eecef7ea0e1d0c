import Tio.Shadow.Answer

namespace Tio.Shadow.Method

open Tio.Core

/-- The call still needs what the map has for it. -/
def Call.waits (c : Call) : Field → Bool
  | .waiting =>
    match c.pc with
    | .waitOnline => true
    | _ => false
  | .pending =>
    match c.pc with
    | .publish | .waitResp => true
    | _ => false

/-- The call whose entry a clean-up closes or removes. -/
def State.cleared (s : State) : Action → Option (Field × Nat)
  | .call i _ => s.calls[i]?.bind fun c =>
    match c.pc with
    | .remove field (.close k) _ => some (field, k)
    | .remove field .delete _ =>
      ((s.maps field).entry c.msg.thingId c.msg.req.clientToken).map fun k => (field, k)
    | _ => none
  | _ => none

/-- No clean-up closes or removes what another call is waiting with. -/
def Undisturbed (s : State) : Action → Prop
  | .call i err => ∀ cleared ∈ s.cleared (.call i err), cleared.2 = i ∨
      ∀ other ∈ s.calls[cleared.2]?, other.waits cleared.1 = false
  | _ => True

/-- A call does not enter a map while another one with its thing and its token is there. -/
def Untwinned (s : State) : Action → Prop
  | .call i _ => ∀ c ∈ s.calls[i]?, ∀ field ∈ c.pc.storing,
      ∀ other ∈ s.calls, other.key = c.key → (other.phase field).registered = false
  | _ => True

instance (s : State) : DecidablePred (Undisturbed s)
  | .call _ _ => inferInstanceAs (Decidable (∀ cleared ∈ _, _))
  | .invoke _ | .timeout _ | .ctxDone _ | .connect _ | .disconnect _ | .receive _ | .loop | .visit _
  | .signal | .skip | .response _ _ | .deliver _ | .send _ | .drop _ => isTrue trivial

instance (s : State) : DecidablePred (Untwinned s)
  | .call _ _ => inferInstanceAs (Decidable (∀ c ∈ _, _))
  | .invoke _ | .timeout _ | .ctxDone _ | .connect _ | .disconnect _ | .receive _ | .loop | .visit _
  | .signal | .skip | .response _ _ | .deliver _ | .send _ | .drop _ => isTrue trivial

section

variable {s s' : State} {a : Action}

theorem alone_of_untwinned (untwinned : Untwinned s a) (field : Field) :
    ∀ i, s.enters field a = some i → Registry.Alone (s.world field) i := by
  intro i enters key phase j other own found
  cases a with
  | call k err =>
    simp only [State.enters, Option.bind_eq_some_iff] at enters
    obtain ⟨f, ⟨c, here, storing⟩, same⟩ := enters
    split at same
    · rename_i eq
      subst eq
      cases same
      simp only [State.world, List.getElem?_map, Option.map_eq_some_iff, Prod.mk.injEq] at own found
      obtain ⟨c', here', rfl, -⟩ := own
      rw [here] at here'
      cases here'
      obtain ⟨d, there, key, rfl⟩ := found
      exact untwinned c here f storing d (List.mem_of_getElem? there) key
    · cases same
  | _ => cases enters

/-- What a clean-up clears is its own, when every call finds itself in the map. -/
theorem undisturbed_of_sound (sound : ∀ field, Registry.Sound (s.world field)) : Undisturbed s a := by
  cases a with
  | call i err =>
    intro cleared found
    left
    simp only [State.cleared, Option.mem_def, Option.bind_eq_some_iff] at found
    obtain ⟨c, here, found⟩ := found
    split at found
    · rename_i field k result stands
      cases found
      refine (sound field).own i c.key k ?_
      rw [client_of_call _ here]
      have phase := phase_remove c result (.close k) field
      rw [← stands] at phase
      rw [phase]
      rfl
    · rename_i field result stands
      obtain ⟨k, entry, rfl⟩ := Option.map_eq_some_iff.mp found
      have phase := phase_remove c result .delete field
      rw [← stands] at phase
      have own := (sound field).entry i c.key _ (client_of_call _ here) (by rw [phase]; rfl)
      exact Option.some.inj (entry.symm.trans own)
    · cases found
  | _ => trivial

theorem closes_nodup (once : ∀ field, (s.world field).closed.Nodup) : s.closes.Nodup := by
  rw [List.nodup_iff_count_le_one]
  intro close
  obtain ⟨field, k⟩ := close
  have below := List.nodup_iff_count_le_one.mp (once field) k
  have mapped := List.count_le_count_map (f := Prod.snd) (l := s.closes.filter fun close => close.1 = field)
    (x := (field, k))
  rw [List.count_filter (by simp)] at mapped
  exact mapped.trans below

theorem panicked_of_sound (sound : ∀ field, Registry.Sound (s.world field)) : s.panicked = false := by
  simp only [State.panicked, Bool.not_eq_false', decide_eq_true_eq]
  exact closes_nodup fun field => (sound field).once

theorem sound_of_step (sound : ∀ field, Registry.Sound (s.world field)) (untwinned : Untwinned s a)
    (taken : step s a = some s') : ∀ field, Registry.Sound (s'.world field) :=
  fun field => Registry.sound_step (sound field) (alone_of_untwinned untwinned field) (step_refines taken field)

theorem world_init (connected : List String) (field : Field) :
    (init connected).world field = { clients := [], table := fun _ => none, closed := [] } := by
  cases field <;> rfl

theorem replies_init (connected : List String) : Replies (init connected) := by
  constructor
  · intro m member
    cases member
  · intro m member
    cases member
  · intro i c resp j found
    cases found
  · intro i i' c c' resp resp' j found
    cases found

end

/-- A response goes to one call at most, and to one of its thing and token. As long as
calls with both in common do not overlap, each cleans up after itself only. -/
theorem calls_apart (connected : List String) (actions : List Action) :
    Always step (fun _ _ s' => Answered s' ∧ ConsumedOnce s') (init connected) actions ∧
    (Meets step Untwinned (init connected) actions →
      Always step (fun s a s' => Undisturbed s a ∧ s'.panicked = false) (init connected) actions) := by
  constructor
  · refine Meets.always (fun s => Registry.Known (s.world .pending) ∧ Replies s) ?_ (meets_true _ actions) ?_
    · rintro s a s' ⟨known, replies⟩ - taken
      have replies' := replies_step known replies taken
      exact ⟨⟨answered_of_replies replies', replies'.once⟩,
        Registry.known_step known (step_refines taken .pending), replies'⟩
    · refine ⟨?_, replies_init connected⟩
      rw [world_init]
      exact Registry.sound_empty.known
  · intro meets
    refine Meets.always (fun s => ∀ field, Registry.Sound (s.world field)) ?_ meets ?_
    · intro s a s' sound untwinned taken
      have sound' := sound_of_step sound untwinned taken
      exact ⟨⟨undisturbed_of_sound sound, panicked_of_sound sound'⟩, sound'⟩
    · intro field
      rw [world_init]
      exact Registry.sound_empty

def ask (clientToken : String) : Action :=
  .invoke { thingId := "lamp", method := "on", connTimeout := 0, respTimeout := 5, req := ⟨clientToken, none⟩ }

/-- A call until it waits for its response. -/
def sending (i : Nat) : List Action := List.replicate 5 (.call i none)

theorem tokens_apart : Always step (fun s a s' => Undisturbed s a ∧ s'.panicked = false) (init ["lamp"])
    ([ask "first", ask "second"] ++ sending 0 ++ sending 1 ++
      [.response "$iothub/things/lamp/methods/on/resp" (.ok ⟨"second", none, 200, "OK"⟩),
        .deliver 0, .deliver 0, .deliver 0, .send 0, .timeout 0] ++
      List.replicate 4 (.call 1 none) ++ List.replicate 4 (.call 0 none)) :=
  (calls_apart ["lamp"] _).2 (by decide +kernel)

/-- Of two calls with one token the first to clean up closes the channel of the other,
and then the other closes it again. -/
theorem token_shared : ¬ Always step (fun s a _ => Undisturbed s a) (init ["lamp"])
      ([ask "same", ask "same"] ++ sending 0 ++ sending 1 ++ [.timeout 0] ++ List.replicate 3 (.call 0 none)) ∧
    (execute step (init ["lamp"])
      ([ask "same", ask "same"] ++ sending 0 ++ sending 1 ++ [.timeout 0] ++ List.replicate 2 (.call 0 none) ++
        [.timeout 1] ++ List.replicate 2 (.call 1 none) ++ [.call 0 none, .call 1 none])).any State.panicked = true := by
  constructor <;> decide +kernel

end Tio.Shadow.Method
