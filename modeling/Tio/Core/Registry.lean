import Mathlib.Logic.Function.Basic

/-! A table that clients enter under keys of their choice, each with a channel of its
own. To leave, a client looks its key up, closes the channel that it finds there, and
deletes the key. This is safe as long as no client enters under a key that another one
has not left yet. -/

namespace Tio.Core.Registry

universe u

inductive Phase
  | out
  | held
  | closing (entry : Nat)
  | deleting
  | gone
deriving DecidableEq

/-- The clients with their keys, whose channel the table has under a key, and whose
channels were closed. -/
structure World (Key : Type u) where
  clients : List (Key × Phase)
  table : Key → Option Nat
  closed : List Nat

/-- The client has entered and not left yet. -/
def Phase.registered : Phase → Bool
  | .held | .closing _ | .deleting => true
  | _ => false

/-- The client has closed what it found, or found nothing. -/
def Phase.past : Phase → Bool
  | .deleting | .gone => true
  | _ => false

variable {Key : Type u}

def World.move (w : World Key) (i : Nat) (key : Key) (phase : Phase) : World Key :=
  { w with clients := w.clients.set i (key, phase) }

/-- What can happen, and which client enters. -/
inductive Step [DecidableEq Key] (w : World Key) : Option Nat → World Key → Prop
  | join (key : Key) : Step w none { w with clients := w.clients ++ [(key, .out)] }
  | quiet : Step w none w
  | abandon (i : Nat) (key : Key) (here : w.clients[i]? = some (key, .out)) : Step w none (w.move i key .gone)
  | register (i : Nat) (key : Key) (here : w.clients[i]? = some (key, .out)) :
      Step w (some i) { w.move i key .held with table := Function.update w.table key (some i) }
  | find (i : Nat) (key : Key) (k : Nat) (here : w.clients[i]? = some (key, .held))
      (found : w.table key = some k) : Step w none (w.move i key (.closing k))
  | missing (i : Nat) (key : Key) (here : w.clients[i]? = some (key, .held)) (nothing : w.table key = none) :
      Step w none (w.move i key .gone)
  | close (i : Nat) (key : Key) (k : Nat) (here : w.clients[i]? = some (key, .closing k)) :
      Step w none { w.move i key .deleting with closed := w.closed ++ [k] }
  | delete (i : Nat) (key : Key) (here : w.clients[i]? = some (key, .deleting)) :
      Step w none { w.move i key .gone with table := Function.update w.table key none }

/-- The client has the key and has entered, however long ago. -/
def Entered (w : World Key) (key : Key) (k : Nat) : Prop :=
  ∃ phase, w.clients[k]? = some (key, phase) ∧ phase ≠ .out

/-- Whatever is in the table, being closed or closed belongs to a client that entered under the key. -/
structure Known (w : World Key) : Prop where
  table : ∀ key k, w.table key = some k → Entered w key k
  closing : ∀ (i : Nat) key k, w.clients[i]? = some (key, .closing k) → Entered w key k
  closed : ∀ k ∈ w.closed, ∃ key, Entered w key k

/-- Nobody who has the key has entered and not left. -/
def Alone (w : World Key) (i : Nat) : Prop :=
  ∀ key phase (j : Nat) other, w.clients[i]? = some (key, phase) → w.clients[j]? = some (key, other) →
    other.registered = false

/-- Every client in the table finds itself there, and no channel is closed twice. -/
structure Sound (w : World Key) : Prop where
  known : Known w
  entry : ∀ (i : Nat) key phase, w.clients[i]? = some (key, phase) → phase.registered = true →
    w.table key = some i
  own : ∀ (i : Nat) key k, w.clients[i]? = some (key, .closing k) → k = i
  closed : ∀ k ∈ w.closed, ∃ key phase, w.clients[k]? = some (key, phase) ∧ phase.past = true
  once : w.closed.Nodup

section

variable {w w' : World Key} {i : Nat} {entering : Option Nat}

theorem move_cases {key key' : Key} {phase phase' old : Phase} {j : Nat}
    (here : w.clients[i]? = some (key, old)) (found : (w.move i key phase).clients[j]? = some (key', phase')) :
    j = i ∧ key' = key ∧ phase' = phase ∨ j ≠ i ∧ w.clients[j]? = some (key', phase') := by
  obtain ⟨inside, -⟩ := List.getElem?_eq_some_iff.mp here
  simp only [World.move, List.getElem?_set] at found
  by_cases same : i = j
  · subst same
    rw [if_pos rfl, if_pos inside] at found
    cases found
    exact .inl ⟨rfl, rfl, rfl⟩
  · rw [if_neg same] at found
    exact .inr ⟨Ne.symm same, found⟩

theorem move_keeps {key key' : Key} {phase old : Phase} {k : Nat} (here : w.clients[i]? = some (key, old))
    (on : phase ≠ .out) (entered : Entered w key' k) : Entered (w.move i key phase) key' k := by
  obtain ⟨phase', found, past⟩ := entered
  obtain ⟨inside, -⟩ := List.getElem?_eq_some_iff.mp here
  simp only [Entered, World.move, List.getElem?_set]
  by_cases same : i = k
  · subst same
    rw [here] at found
    cases found
    exact ⟨phase, by rw [if_pos rfl, if_pos inside], on⟩
  · exact ⟨phase', by rw [if_neg same]; exact found, past⟩

theorem move_enters {key : Key} {phase old : Phase} (here : w.clients[i]? = some (key, old))
    (on : phase ≠ .out) : Entered (w.move i key phase) key i := by
  obtain ⟨inside, -⟩ := List.getElem?_eq_some_iff.mp here
  exact ⟨phase, List.getElem?_set_self inside, on⟩

theorem join_cases {key key' : Key} {phase : Phase} {j : Nat}
    (found : (w.clients ++ [(key, .out)])[j]? = some (key', phase)) :
    w.clients[j]? = some (key', phase) ∨ phase = .out := by
  rw [List.getElem?_append] at found
  split at found
  · exact .inl found
  · right
    have member := List.mem_of_getElem? found
    exact congrArg Prod.snd (List.mem_singleton.mp member)

theorem join_keeps {key key' : Key} {phase : Phase} {j : Nat} (found : w.clients[j]? = some (key', phase)) :
    (w.clients ++ [(key, .out)])[j]? = some (key', phase) := by
  obtain ⟨inside, -⟩ := List.getElem?_eq_some_iff.mp found
  rwa [List.getElem?_append_left inside]

/-- Who has entered never has not, and keeps its key. -/
theorem Step.keeps [DecidableEq Key] (taken : Step w entering w') {key : Key} {k : Nat}
    (entered : Entered w key k) : Entered w' key k := by
  cases taken with
  | join key' =>
    obtain ⟨phase, found, past⟩ := entered
    exact ⟨phase, join_keeps found, past⟩
  | quiet => exact entered
  | abandon i key' here | missing i key' here | register i key' here | find i key' k' here
  | close i key' k' here | delete i key' here =>
    exact move_keeps here (fun clash => by cases clash) entered

/-- What the table has was there before, or has entered now. -/
theorem Step.table_cases [DecidableEq Key] (taken : Step w entering w') {key : Key} {k : Nat}
    (found : w'.table key = some k) : w.table key = some k ∨ Entered w' key k := by
  cases taken with
  | register i key' here =>
    by_cases same : key = key'
    · subst same
      simp only [Function.update_self, Option.some.injEq] at found
      subst found
      exact .inr (move_enters here (fun clash => by cases clash))
    · simp only [Function.update_of_ne same] at found
      exact .inl found
  | delete i key' here =>
    by_cases same : key = key'
    · subst same
      simp only [Function.update_self] at found
      cases found
    · simp only [Function.update_of_ne same] at found
      exact .inl found
  | _ => exact .inl found

/-- What a client is closing it was closing before, or has found now. -/
theorem Step.closing_cases [DecidableEq Key] (taken : Step w entering w') {key : Key} {j k : Nat}
    (found : w'.clients[j]? = some (key, .closing k)) :
    w.clients[j]? = some (key, .closing k) ∨ w.table key = some k := by
  cases taken with
  | join key' =>
    rcases join_cases found with before | new
    · exact .inl before
    · cases new
  | quiet => exact .inl found
  | find i key' k' here there =>
    rcases move_cases here found with ⟨-, rfl, same⟩ | ⟨-, before⟩
    · cases same
      exact .inr there
    · exact .inl before
  | abandon i key' here | missing i key' here | register i key' here
  | close i key' k' here | delete i key' here =>
    rcases move_cases here found with ⟨-, -, same⟩ | ⟨-, before⟩
    · cases same
    · exact .inl before

theorem Step.closed_cases [DecidableEq Key] (taken : Step w entering w') {k : Nat} (member : k ∈ w'.closed) :
    k ∈ w.closed ∨ ∃ (i : Nat) (key : Key), w.clients[i]? = some (key, .closing k) := by
  cases taken with
  | close i key k' here =>
    rcases List.mem_append.mp member with before | new
    · exact .inl before
    · rw [List.mem_singleton.mp new]
      exact .inr ⟨i, key, here⟩
  | _ => exact .inl member

theorem known_step [DecidableEq Key] (known : Known w) (taken : Step w entering w') : Known w' := by
  constructor
  · intro key k found
    rcases taken.table_cases found with before | new
    · exact taken.keeps (known.table key k before)
    · exact new
  · intro j key k found
    rcases taken.closing_cases found with before | there
    · exact taken.keeps (known.closing j key k before)
    · exact taken.keeps (known.table key k there)
  · intro k member
    rcases taken.closed_cases member with before | ⟨i, key, closing⟩
    · obtain ⟨key, entered⟩ := known.closed k before
      exact ⟨key, taken.keeps entered⟩
    · exact ⟨key, taken.keeps (known.closing i key k closing)⟩

/-- What was past closing stays so. -/
theorem past_move {key : Key} {old phase : Phase} (here : w.clients[i]? = some (key, old))
    (past : old.past = true → phase.past = true) {k : Nat}
    (found : ∃ key phase, w.clients[k]? = some (key, phase) ∧ phase.past = true) :
    ∃ key' phase', (w.move i key phase).clients[k]? = some (key', phase') ∧ phase'.past = true := by
  obtain ⟨key', phase', place, past'⟩ := found
  obtain ⟨inside, -⟩ := List.getElem?_eq_some_iff.mp here
  simp only [World.move, List.getElem?_set]
  by_cases same : i = k
  · subst same
    rw [here] at place
    cases place
    exact ⟨key, phase, by rw [if_pos rfl, if_pos inside], past past'⟩
  · exact ⟨key', phase', by rw [if_neg same]; exact place, past'⟩

/-- Who enters alone with its key is found there, and all others as before. -/
theorem sound_register [DecidableEq Key] {key : Key} (sound : Sound w) (alone : Alone w i)
    (here : w.clients[i]? = some (key, .out))
    (known : Known { w.move i key .held with table := Function.update w.table key (some i) }) :
    Sound { w.move i key .held with table := Function.update w.table key (some i) } := by
  refine ⟨known, fun j key' phase found entered => ?_, fun j key' k found => ?_, fun k member => ?_, sound.once⟩
  · rcases move_cases here found with ⟨rfl, rfl, -⟩ | ⟨other, before⟩
    · exact Function.update_self ..
    · have apart : key' ≠ key := by
        rintro rfl
        have free := alone key' .out j phase here before
        rw [free] at entered
        cases entered
      simp only [Function.update_of_ne apart]
      exact sound.entry j key' phase before entered
  · rcases move_cases here found with ⟨-, -, same⟩ | ⟨-, before⟩
    · cases same
    · exact sound.own j key' k before
  · exact past_move here (fun impossible => by cases impossible) (sound.closed k member)

/-- A client closes its own channel, for the first time. -/
theorem sound_close {key : Key} (sound : Sound w) (here : w.clients[i]? = some (key, .closing i))
    (known : Known { w.move i key .deleting with closed := w.closed ++ [i] }) :
    Sound { w.move i key .deleting with closed := w.closed ++ [i] } := by
  refine ⟨known, fun j key' phase found entered => ?_, fun j key' k' found => ?_, fun k' member => ?_, ?_⟩
  · rcases move_cases here found with ⟨rfl, rfl, -⟩ | ⟨-, before⟩
    · exact sound.entry _ _ _ here rfl
    · exact sound.entry j key' phase before entered
  · rcases move_cases here found with ⟨-, -, same⟩ | ⟨-, before⟩
    · cases same
    · exact sound.own j key' k' before
  · rcases List.mem_append.mp member with before | new
    · exact past_move here (fun _ => rfl) (sound.closed k' before)
    · rw [List.mem_singleton.mp new]
      obtain ⟨inside, -⟩ := List.getElem?_eq_some_iff.mp here
      exact ⟨key, .deleting, by simp [World.move, inside], rfl⟩
  · -- a client that is closing has not closed anything yet
    have fresh : i ∉ w.closed := by
      intro member
      obtain ⟨key', phase, place, past⟩ := sound.closed i member
      rw [here] at place
      cases place
      cases past
    rw [List.nodup_append]
    refine ⟨sound.once, by simp, fun one member two member' same => ?_⟩
    rw [same, List.mem_singleton.mp member'] at member
    exact fresh member

/-- The key that is deleted is that of the client itself. -/
theorem sound_delete [DecidableEq Key] {key : Key} (sound : Sound w) (here : w.clients[i]? = some (key, .deleting))
    (known : Known { w.move i key .gone with table := Function.update w.table key none }) :
    Sound { w.move i key .gone with table := Function.update w.table key none } := by
  have mine := sound.entry i key .deleting here rfl
  refine ⟨known, fun j key' phase found entered => ?_, fun j key' k found => ?_, fun k member => ?_, sound.once⟩
  · rcases move_cases here found with ⟨-, -, rfl⟩ | ⟨other, before⟩
    · cases entered
    · have still := sound.entry j key' phase before entered
      have apart : key' ≠ key := by
        rintro rfl
        exact other (Option.some.inj (still.symm.trans mine))
      simp only [Function.update_of_ne apart]
      exact still
  · rcases move_cases here found with ⟨-, -, same⟩ | ⟨-, before⟩
    · cases same
    · exact sound.own j key' k before
  · exact past_move here (fun _ => rfl) (sound.closed k member)

/-- As long as who enters is alone with its key, everybody finds itself. -/
theorem sound_step [DecidableEq Key] (sound : Sound w) (alone : ∀ i, entering = some i → Alone w i)
    (taken : Step w entering w') : Sound w' := by
  have known := known_step sound.known taken
  cases taken with
  | quiet => exact sound
  | register i key here => exact sound_register sound (alone i rfl) here known
  | delete i key here => exact sound_delete sound here known
  | close i key k here =>
    obtain rfl : k = i := sound.own i key k here
    exact sound_close sound here known
  | join key =>
    refine ⟨known, fun j key' phase found entered => ?_, fun j key' k found => ?_, fun k member => ?_, sound.once⟩
    · rcases join_cases found with before | rfl
      · exact sound.entry j key' phase before entered
      · cases entered
    · rcases join_cases found with before | new
      · exact sound.own j key' k before
      · cases new
    · obtain ⟨key', phase, place, past⟩ := sound.closed k member
      exact ⟨key', phase, join_keeps place, past⟩
  | abandon i key here | missing i key here nothing =>
    refine ⟨known, fun j key' phase found entered => ?_, fun j key' k found => ?_, fun k member => ?_, sound.once⟩
    · rcases move_cases here found with ⟨-, -, rfl⟩ | ⟨-, before⟩
      · cases entered
      · exact sound.entry j key' phase before entered
    · rcases move_cases here found with ⟨-, -, same⟩ | ⟨-, before⟩
      · cases same
      · exact sound.own j key' k before
    · exact past_move here (fun _ => rfl) (sound.closed k member)
  | find i key k here found =>
    refine ⟨known, fun j key' phase found' entered => ?_, fun j key' k' found' => ?_, fun k' member => ?_, sound.once⟩
    · rcases move_cases here found' with ⟨rfl, rfl, -⟩ | ⟨-, before⟩
      · exact sound.entry _ _ _ here rfl
      · exact sound.entry j key' phase before entered
    · rcases move_cases here found' with ⟨rfl, rfl, same⟩ | ⟨-, before⟩
      · cases same
        have mine := sound.entry _ _ _ here rfl
        exact Option.some.inj (found.symm.trans mine)
      · exact sound.own j key' k' before
    · exact past_move here (fun impossible => by cases impossible) (sound.closed k' member)

theorem sound_empty : Sound ({ clients := [], table := fun _ => none, closed := [] } : World Key) := by
  constructor
  · constructor <;> simp
  all_goals simp

end

end Tio.Core.Registry
