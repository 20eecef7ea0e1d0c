import Mathlib.Logic.Relation

/-! Loops that run until their input is over. A turn ends with an error or goes on; a turn
that does neither leaves the loop without an answer. -/

namespace Tio.Core

universe u v

variable {State : Type u} {Error : Type v}

/-- Turns until the input is over, as many as the fuel allows. -/
def drive (next : State → Option (Except Error State)) (ended : State → Bool) :
    Nat → State → Option (Except Error State)
  | 0, s => if ended s then some (.ok s) else none
  | fuel + 1, s =>
    if ended s then some (.ok s)
    else match next s with
      | some (.ok s') => drive next ended fuel s'
      | answer => answer

/-- The loop goes on from one state to the other. -/
def Turn (next : State → Option (Except Error State)) (ended : State → Bool) (s s' : State) : Prop :=
  ended s = false ∧ next s = some (.ok s')

abbrev Turns (next : State → Option (Except Error State)) (ended : State → Bool) : State → State → Prop :=
  Relation.ReflTransGen (Turn next ended)

variable {next : State → Option (Except Error State)} {ended : State → Bool} {fuel : Nat} {s s' : State}

theorem drive_of_ended (done : ended s = true) : drive next ended fuel s = some (.ok s) := by
  cases fuel <;> rw [drive, if_pos done]

theorem drive_of_turn (turn : Turn next ended s s') :
    drive next ended (fuel + 1) s = drive next ended fuel s' := by
  obtain ⟨going, taken⟩ := turn
  rw [drive, going, taken]
  rfl

/-- What every turn keeps holds where the loop ends. -/
theorem drive_invariant (invariant : State → Prop)
    (kept : ∀ s s', Turn next ended s s' → invariant s → invariant s')
    (answered : drive next ended fuel s = some (.ok s')) (initial : invariant s) :
    invariant s' ∧ ended s' = true := by
  induction fuel generalizing s with
  | zero =>
    rw [drive] at answered
    split at answered <;> cases answered
    exact ⟨initial, ‹_›⟩
  | succ fuel ih =>
    by_cases done : ended s = true
    · rw [drive_of_ended done] at answered
      cases answered
      exact ⟨initial, done⟩
    · have going : ended s = false := by simpa using done
      rw [drive, going] at answered
      cases taken : next s with
      | none => simp [taken] at answered
      | some answer =>
        cases answer with
        | error e => simp [taken] at answered
        | ok s₁ =>
          rw [taken] at answered
          exact ih answered (kept s s₁ ⟨going, taken⟩ initial)

section

variable (size : State → Nat) (shrinks : ∀ s s', Turn next ended s s' → size s' < size s)

include shrinks

/-- The loop ends where turns lead. -/
theorem drive_of_turns (turns : Turns next ended s s') (done : ended s' = true) (enough : size s ≤ fuel) :
    drive next ended fuel s = some (.ok s') := by
  induction turns using Relation.ReflTransGen.head_induction_on generalizing fuel with
  | refl => exact drive_of_ended done
  | head turn _ ih =>
    have less := shrinks _ _ turn
    cases fuel with
    | zero => omega
    | succ fuel =>
      rw [drive_of_turn turn]
      exact ih (by omega)

/-- A loop whose turns all answer answers, when each of them makes the input smaller. -/
theorem drive_answers (nothing : ∀ s, size s = 0 → ended s = true) (invariant : State → Prop)
    (kept : ∀ s s', Turn next ended s s' → invariant s → invariant s')
    (answers : ∀ s, ended s = false → invariant s → (next s).isSome)
    (enough : size s ≤ fuel) (initial : invariant s) : (drive next ended fuel s).isSome := by
  induction fuel generalizing s with
  | zero =>
    rw [drive_of_ended (nothing s (by omega))]
    rfl
  | succ fuel ih =>
    by_cases done : ended s = true
    · rw [drive_of_ended done]
      rfl
    · have going : ended s = false := by simpa using done
      obtain ⟨answer, taken⟩ := Option.isSome_iff_exists.mp (answers s going initial)
      cases answer with
      | error e =>
        rw [drive, going, taken]
        rfl
      | ok s₁ =>
        have turn : Turn next ended s s₁ := ⟨going, taken⟩
        have less := shrinks s s₁ turn
        rw [drive_of_turn turn]
        exact ih (by omega) (kept s s₁ turn initial)

end

section

universe w z

variable {Item : Type w} {Token : Type z} {Progress : Type w}

/-- The tokens of some items, with a separator between two of them. -/
def separated (separator : List Token) (print : Item → List Token) : List Item → List Token
  | [] => []
  | [item] => print item
  | item :: rest => print item ++ separator ++ separated separator print rest

/-- A loop over the items of a text, from what it does with each. -/
theorem turns_separated {separator rest : List Token} {print : Item → List Token} {items : List Item}
    (place : Progress → List Token → State) (after : Progress → State) (effect : Progress → Item → Progress)
    (more : ∀ item ∈ items, ∀ progress tokens,
      Turns next ended (place progress (print item ++ separator ++ tokens)) (place (effect progress item) tokens))
    (last : ∀ item ∈ items, ∀ progress,
      Turns next ended (place progress (print item ++ rest)) (after (effect progress item)))
    (filled : items ≠ []) (progress : Progress) :
    Turns next ended (place progress (separated separator print items ++ rest)) (after (items.foldl effect progress)) := by
  induction items generalizing progress with
  | nil => exact absurd rfl filled
  | cons item items ih =>
    cases items with
    | nil => exact last item List.mem_cons_self progress
    | cons second items =>
      have first := more item List.mem_cons_self progress (separated separator print (second :: items) ++ rest)
      have later := ih (fun other member => more other (List.mem_cons_of_mem _ member))
        (fun other member => last other (List.mem_cons_of_mem _ member)) (List.cons_ne_nil _ _) (effect progress item)
      rw [separated, List.append_assoc]
      · exact first.trans later
      · exact List.cons_ne_nil _ _

end

end Tio.Core
