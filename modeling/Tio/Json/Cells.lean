import Tio.Json.Value

namespace Tio.Json

open Tio.Core

/-- What a map holds under a key: a value that is no map, or a pointer to one. -/
inductive Slot where
  | plain (value : Value) (bare : value.isObject = false)
  | map (cell : Nat)

abbrev Entries := List (String × Slot)

/-- The maps that were made so far, each in its cell. -/
abbrev Cells := List Entries

def Slot.nil : Slot := .plain .null rfl

def Slot.isNil : Slot → Bool
  | .plain .null _ => true
  | _ => false

def entriesAt (cell : Nat) (cells : Cells) : Entries := (cells[cell]?).getD []

def putAt (cell : Nat) (key : String) (slot : Slot) (cells : Cells) : Cells :=
  cells.set cell (Assoc.set key slot (entriesAt cell cells))

def deleteAt (cell : Nat) (key : String) (cells : Cells) : Cells :=
  cells.set cell (Assoc.erase key (entriesAt cell cells))

inductive MapTree where
  | plain (value : Value) (bare : value.isObject = false)
  | map (cell : Nat) (fields : List (String × MapTree))

abbrev Branches := List (String × MapTree)

def MapTree.slot : MapTree → Slot
  | .plain value bare => .plain value bare
  | .map cell _ => .map cell

def slots (fields : Branches) : Entries := fields.map fun field => (field.1, field.2.slot)

mutual

/-- The value without its cells. -/
def MapTree.value : MapTree → Value
  | .plain value _ => value
  | .map _ fields => .obj (values fields)
termination_by structural tree => tree

def values : Branches → Fields
  | [] => []
  | (key, tree) :: rest => (key, tree.value) :: values rest
termination_by structural fields => fields

end

mutual

/-- The maps of the tree, each with its cell. -/
def MapTree.maps : MapTree → List (Nat × Branches)
  | .plain _ _ => []
  | .map cell fields => (cell, fields) :: mapsOf fields
termination_by structural tree => tree

def mapsOf : Branches → List (Nat × Branches)
  | [] => []
  | (_, tree) :: rest => tree.maps ++ mapsOf rest
termination_by structural fields => fields

end

def MapTree.cells (tree : MapTree) : List Nat := tree.maps.map Prod.fst

def cellsOf (fields : Branches) : List Nat := (mapsOf fields).map Prod.fst

mutual

/-- How deep objects are nested. -/
def Value.depth : Value → Nat
  | .obj fields => depthOf fields + 1
  | _ => 0
termination_by structural value => value

def depthOf : Fields → Nat
  | [] => 0
  | (_, value) :: rest => max value.depth (depthOf rest)
termination_by structural fields => fields

end

/-- The cells hold the maps where they belong. -/
def Laid (cells : Cells) (maps : List (Nat × Branches)) : Prop :=
  ∀ node ∈ maps, cells[node.1]? = some (slots node.2)

/-- The cells apart from the named ones are the same. -/
def SameBut (named : List Nat) (before after : Cells) : Prop :=
  ∀ cell, cell ∉ named → cell < before.length → after[cell]? = before[cell]?

@[simp] theorem MapTree.maps_map (cell : Nat) (fields : Branches) :
    (MapTree.map cell fields).maps = (cell, fields) :: mapsOf fields := rfl

@[simp] theorem MapTree.maps_plain (value : Value) (bare : value.isObject = false) :
    (MapTree.plain value bare).maps = [] := rfl

@[simp] theorem mapsOf_nil : mapsOf [] = [] := rfl

@[simp] theorem mapsOf_cons (field : String × MapTree) (rest : Branches) :
    mapsOf (field :: rest) = field.2.maps ++ mapsOf rest := rfl

@[simp] theorem MapTree.cells_map (cell : Nat) (fields : Branches) :
    (MapTree.map cell fields).cells = cell :: cellsOf fields := rfl

@[simp] theorem MapTree.cells_plain (value : Value) (bare : value.isObject = false) :
    (MapTree.plain value bare).cells = [] := rfl

@[simp] theorem cellsOf_nil : cellsOf [] = [] := rfl

@[simp] theorem cellsOf_cons (field : String × MapTree) (rest : Branches) :
    cellsOf (field :: rest) = field.2.cells ++ cellsOf rest := by simp [cellsOf, MapTree.cells]

theorem keys_values (fields : Branches) : Assoc.keys (values fields) = Assoc.keys fields := by
  induction fields with
  | nil => rfl
  | cons field rest ih =>
    obtain ⟨key, tree⟩ := field
    rw [values, Assoc.keys, List.map_cons, ← Assoc.keys, ih]
    rfl

theorem get_slots (key : String) (fields : Branches) :
    Assoc.get key (slots fields) = (Assoc.get key fields).map MapTree.slot := by
  induction fields with
  | nil => rfl
  | cons field rest ih =>
    obtain ⟨head, tree⟩ := field
    change Assoc.get key ((head, tree.slot) :: slots rest) = _
    rw [Assoc.get_cons, Assoc.get_cons, ih]
    split <;> rfl

theorem get_values (key : String) (fields : Branches) :
    Assoc.get key (values fields) = (Assoc.get key fields).map MapTree.value := by
  induction fields with
  | nil => rfl
  | cons field rest ih =>
    obtain ⟨head, tree⟩ := field
    rw [values, Assoc.get_cons, Assoc.get_cons, ih]
    split <;> rfl

theorem set_slots (key : String) (tree : MapTree) (fields : Branches) :
    Assoc.set key tree.slot (slots fields) = slots (Assoc.set key tree fields) := by
  induction fields with
  | nil => rfl
  | cons field rest ih =>
    obtain ⟨head, first⟩ := field
    change Assoc.set key tree.slot ((head, first.slot) :: slots rest) = _
    rw [Assoc.set, Assoc.set]
    split
    · rfl
    · rw [ih]
      rfl

theorem set_values (key : String) (tree : MapTree) (fields : Branches) :
    Assoc.set key tree.value (values fields) = values (Assoc.set key tree fields) := by
  induction fields with
  | nil => rfl
  | cons field rest ih =>
    obtain ⟨head, first⟩ := field
    rw [values, Assoc.set, Assoc.set]
    split
    · rfl
    · rw [ih]
      rfl

theorem erase_slots (key : String) (fields : Branches) :
    Assoc.erase key (slots fields) = slots (Assoc.erase key fields) := by
  simp only [Assoc.erase, slots, List.filter_map]
  rfl

theorem erase_values (key : String) (fields : Branches) :
    Assoc.erase key (values fields) = values (Assoc.erase key fields) := by
  induction fields with
  | nil => rfl
  | cons field rest ih =>
    obtain ⟨head, first⟩ := field
    rw [Assoc.erase] at ih
    by_cases same : head = key
    · simp only [values, Assoc.erase, List.filter_cons, same, ne_eq, not_true_eq_false, decide_false,
        Bool.false_eq_true, if_false]
      exact ih
    · simp only [values, Assoc.erase, List.filter_cons, same, ne_eq, not_false_eq_true, decide_true, if_true]
      rw [ih]
      rfl

/-- The maps below a field that stays are maps of the fields before. -/
theorem mapsOf_erase_sublist (key : String) (fields : Branches) :
    (mapsOf (Assoc.erase key fields)).Sublist (mapsOf fields) := by
  induction fields with
  | nil => exact .refl _
  | cons field rest ih =>
    by_cases same : field.1 = key
    · rw [Assoc.erase, List.filter_cons_of_neg (by simpa using same)]
      exact ih.trans (List.sublist_append_right _ _)
    · rw [Assoc.erase, List.filter_cons_of_pos (by simpa using same)]
      exact ih.append_left _

theorem mapsOf_of_get {key : String} {tree : MapTree} {fields : Branches} (distinct : (Assoc.keys fields).Nodup)
    (found : Assoc.get key fields = some tree) :
    (mapsOf fields).Perm (tree.maps ++ mapsOf (Assoc.erase key fields)) := by
  induction fields with
  | nil => cases found
  | cons field rest ih =>
    obtain ⟨head, first⟩ := field
    obtain ⟨fresh, distinct'⟩ := List.nodup_cons.mp distinct
    rw [Assoc.get_cons] at found
    by_cases same : head = key
    · rw [if_pos same, Option.some.injEq] at found
      subst same found
      rw [Assoc.erase, List.filter_cons_of_neg (by simp)]
      change (_ ++ mapsOf rest).Perm (_ ++ mapsOf (Assoc.erase head rest))
      rw [Assoc.erase_of_fresh fresh]
    · rw [if_neg same] at found
      rw [Assoc.erase, List.filter_cons_of_pos (by simpa using same)]
      refine ((ih distinct' found).append_left first.maps).trans ?_
      rw [← List.append_assoc, mapsOf_cons, ← List.append_assoc]
      exact List.perm_append_comm.append_right _

theorem erase_set (key : String) (tree : MapTree) (fields : Branches) :
    Assoc.erase key (Assoc.set key tree fields) = Assoc.erase key fields := by
  induction fields with
  | nil => simp [Assoc.set, Assoc.erase]
  | cons field rest ih =>
    obtain ⟨head, first⟩ := field
    rw [Assoc.set]
    split
    · rename_i same
      simp [Assoc.erase, same]
    · rename_i apart
      simp only [Assoc.erase, List.filter_cons] at ih ⊢
      rw [ih]

theorem mapsOf_set {key : String} {fields : Branches} (distinct : (Assoc.keys fields).Nodup) (tree : MapTree) :
    (mapsOf (Assoc.set key tree fields)).Perm (tree.maps ++ mapsOf (Assoc.erase key fields)) := by
  have whole := mapsOf_of_get (Assoc.nodup_keys_set distinct)
    (Assoc.get_set_self key tree fields)
  rwa [erase_set] at whole

/-! Writing one map, and what it leaves. -/

section

variable {cell : Nat} {fields : Branches} {cells before after last : Cells}
variable {named named' : List Nat} {maps : List (Nat × Branches)}

theorem SameBut.refl (named : List Nat) (cells : Cells) : SameBut named cells cells := fun _ _ _ => rfl

theorem SameBut.mono (same : SameBut named before after) (wider : ∀ c ∈ named, c ∈ named') :
    SameBut named' before after :=
  fun c outside => same c fun inside => outside (wider c inside)

theorem SameBut.trans (first : SameBut named before after) (second : SameBut named after last)
    (grown : before.length ≤ after.length) : SameBut named before last :=
  fun c outside small => (second c outside (by omega)).trans (first c outside small)

/-- Maps outside the cells that were written stay where they are. -/
theorem Laid.frame (laid : Laid before maps) (same : SameBut named before after)
    (apart : ∀ node ∈ maps, node.1 ∉ named) : Laid after maps := by
  intro node member
  have here := laid node member
  rw [same node.1 (apart node member) (List.getElem?_eq_some_iff.mp here).1]
  exact here

theorem Laid.sublist {maps' : List (Nat × Branches)} (laid : Laid cells maps)
    (fewer : ∀ node ∈ maps', node ∈ maps) : Laid cells maps' :=
  fun node member => laid node (fewer node member)

theorem laid_cons : Laid cells ((cell, fields) :: maps) ↔
    cells[cell]? = some (slots fields) ∧ Laid cells maps := by
  simp [Laid]

theorem laid_append {maps' : List (Nat × Branches)} :
    Laid cells (maps ++ maps') ↔ Laid cells maps ∧ Laid cells maps' := by
  simp [Laid, or_imp, forall_and]

theorem entriesAt_of_laid (here : cells[cell]? = some (slots fields)) : entriesAt cell cells = slots fields := by
  simp [entriesAt, here]

theorem putAt_laid (here : cells[cell]? = some (slots fields)) (key : String) (tree : MapTree) :
    (putAt cell key tree.slot cells)[cell]? = some (slots (Assoc.set key tree fields)) := by
  rw [putAt, entriesAt_of_laid here, set_slots, List.getElem?_set_self (List.getElem?_eq_some_iff.mp here).1]

theorem deleteAt_laid (here : cells[cell]? = some (slots fields)) (key : String) :
    (deleteAt cell key cells)[cell]? = some (slots (Assoc.erase key fields)) := by
  rw [deleteAt, entriesAt_of_laid here, erase_slots, List.getElem?_set_self (List.getElem?_eq_some_iff.mp here).1]

@[simp] theorem length_putAt (cell : Nat) (key : String) (slot : Slot) (cells : Cells) :
    (putAt cell key slot cells).length = cells.length := by simp [putAt]

@[simp] theorem length_deleteAt (cell : Nat) (key : String) (cells : Cells) :
    (deleteAt cell key cells).length = cells.length := by simp [deleteAt]

theorem putAt_others (cell : Nat) (key : String) (slot : Slot) (cells : Cells) :
    SameBut [cell] cells (putAt cell key slot cells) := by
  intro other outside _
  exact List.getElem?_set_ne fun same => outside (by simp [same])

theorem deleteAt_others (cell : Nat) (key : String) (cells : Cells) :
    SameBut [cell] cells (deleteAt cell key cells) := by
  intro other outside _
  exact List.getElem?_set_ne fun same => outside (by simp [same])

end

end Tio.Json
