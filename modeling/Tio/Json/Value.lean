import Mathlib.Data.Rat.Defs
import Tio.Core.Assoc

/-! JSON values as a decoder hands them over: an object is the list of its
fields, in the order in which a loop over it meets them. -/

namespace Tio.Json

open Tio.Core

inductive Value where
  | null
  | bool (value : Bool)
  | num (value : Rat)
  | str (value : String)
  | arr (items : List Value)
  | obj (fields : List (String × Value))

abbrev Fields := List (String × Value)

/-- Neither null nor an object; an array is one whole value. -/
def Value.isLeaf : Value → Bool
  | .null | .obj _ => false
  | _ => true

def Value.isObject : Value → Bool
  | .obj _ => true
  | _ => false

mutual

/-- Every object of the value, at any depth, names each of its keys once. -/
def Value.unique : Value → Bool
  | .arr items => uniqueItems items
  | .obj fields => decide (Assoc.keys fields).Nodup && uniqueFields fields
  | _ => true
termination_by structural value => value

def uniqueItems : List Value → Bool
  | [] => true
  | item :: rest => item.unique && uniqueItems rest
termination_by structural items => items

def uniqueFields : List (String × Value) → Bool
  | [] => true
  | (_, value) :: rest => value.unique && uniqueFields rest
termination_by structural fields => fields

end

/-- The fields of an object that names each key once, at every depth. -/
def Unique (fields : Fields) : Prop := (Value.obj fields).unique = true

instance (fields : Fields) : Decidable (Unique fields) :=
  inferInstanceAs (Decidable ((Value.obj fields).unique = true))

/-- A JSON object as a decoder builds it. -/
structure Document where
  fields : Fields
  unique : Unique fields

/-- Induction over the objects of a value: an array is not entered. -/
theorem Value.object_induction {motive : Value → Prop}
    (leaf : ∀ value, value.isObject = false → motive value)
    (obj : ∀ fields, (∀ key value, (key, value) ∈ fields → motive value) → motive (.obj fields))
    (value : Value) : motive value := by
  refine Value.rec (motive_1 := motive) (motive_2 := fun _ => True)
    (motive_3 := fun fields => ∀ key value, (key, value) ∈ fields → motive value)
    (motive_4 := fun entry => motive entry.2) ?_ ?_ ?_ ?_ ?_ ?_ ?_ ?_ ?_ ?_ ?_ value
  · exact leaf _ rfl
  · exact fun _ => leaf _ rfl
  · exact fun _ => leaf _ rfl
  · exact fun _ => leaf _ rfl
  · exact fun _ _ => leaf _ rfl
  · exact fun fields each => obj fields each
  · trivial
  · exact fun _ _ _ _ => trivial
  · simp
  · intro entry rest here later key value member
    rcases List.mem_cons.mp member with same | member
    · cases same
      exact here
    · exact later key value member
  · exact fun _ _ here => here

theorem uniqueFields_iff {fields : Fields} :
    uniqueFields fields = true ↔ ∀ key value, (key, value) ∈ fields → value.unique = true := by
  induction fields with
  | nil => simp [uniqueFields]
  | cons entry rest ih =>
    obtain ⟨head, first⟩ := entry
    simp only [uniqueFields, Bool.and_eq_true, ih, List.mem_cons]
    constructor
    · rintro ⟨here, later⟩ key value (same | member)
      · cases same
        exact here
      · exact later key value member
    · intro each
      exact ⟨each head first (.inl rfl), fun key value member => each key value (.inr member)⟩

theorem unique_iff {fields : Fields} :
    Unique fields ↔ (Assoc.keys fields).Nodup ∧
      ∀ key value, (key, value) ∈ fields → value.unique = true := by
  simp [Unique, Value.unique, uniqueFields_iff]

theorem unique_nil : Unique [] := by decide

theorem Unique.nodup {fields : Fields} (unique : Unique fields) : (Assoc.keys fields).Nodup :=
  (unique_iff.mp unique).1

theorem Unique.value {fields : Fields} {key : String} {value : Value} (unique : Unique fields)
    (found : Assoc.get key fields = some value) : value.unique = true :=
  (unique_iff.mp unique).2 key value (Assoc.mem_of_get found)

theorem Unique.tail {entry : String × Value} {rest : Fields} (unique : Unique (entry :: rest)) :
    Unique rest := by
  obtain ⟨distinct, each⟩ := unique_iff.mp unique
  exact unique_iff.mpr ⟨(List.nodup_cons.mp distinct).2,
    fun key value member => each key value (List.mem_cons_of_mem _ member)⟩

theorem Unique.head {key : String} {value : Value} {rest : Fields}
    (unique : Unique ((key, value) :: rest)) : value.unique = true :=
  (unique_iff.mp unique).2 key value List.mem_cons_self

/-- The first key of the list is not met again later in it. -/
theorem Unique.fresh {key : String} {value : Value} {rest : Fields}
    (unique : Unique ((key, value) :: rest)) : Assoc.get key rest = none :=
  Assoc.get_eq_none_iff.mpr (List.nodup_cons.mp unique.nodup).1

theorem Unique.cons {key : String} {value : Value} {rest : Fields} (unique : Unique rest)
    (head : value.unique = true) (fresh : Assoc.get key rest = none) :
    Unique ((key, value) :: rest) := by
  obtain ⟨distinct, each⟩ := unique_iff.mp unique
  refine unique_iff.mpr ⟨List.nodup_cons.mpr ⟨Assoc.get_eq_none_iff.mp fresh, distinct⟩, ?_⟩
  intro other found member
  rcases List.mem_cons.mp member with same | member
  · cases same
    exact head
  · exact each other found member

theorem Unique.put {fields : Fields} {key : String} {value : Option Value} (unique : Unique fields)
    (fine : ∀ new, value = some new → new.unique = true) : Unique (Assoc.put key value fields) := by
  obtain ⟨distinct, each⟩ := unique_iff.mp unique
  refine unique_iff.mpr ⟨Assoc.nodup_keys_put distinct, ?_⟩
  intro other found member
  rcases Assoc.mem_put member with same | old
  · exact fine found same
  · exact each other found old

end Tio.Json
