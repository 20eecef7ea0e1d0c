import Tio.Json.Cells
import Tio.Shadow.Meaning

/-! The merge as it writes maps in place. The source is copied at every depth first,
so nothing that is deleted or stored on the way is deleted from or stored in a map of
the caller. The timestamps, which never hold a map of either document, are left out. -/

namespace Tio.Shadow

open Tio.Core Tio.Json

namespace InPlace

/-- The loop of `DeepCopyMap`, which fills the new map. -/
def copyEach (copyMap : Nat → Cells → Option (Nat × Cells)) (tgt : Nat) : Entries → Cells → Option Cells
  | [], cells => some cells
  | (key, .plain value bare) :: rest, cells =>
    copyEach copyMap tgt rest (putAt tgt key (.plain value bare) cells)
  | (key, .map sub) :: rest, cells => do
    let (copied, cells) ← copyMap sub cells
    copyEach copyMap tgt rest (putAt tgt key (.map copied) cells)

def deepCopyMap : (fuel src : Nat) → Cells → Option (Nat × Cells)
  | 0, _, _ => none
  | fuel + 1, src, cells => do
    let filled ← copyEach (deepCopyMap fuel) cells.length (entriesAt src cells) (cells ++ [[]])
    some (cells.length, filled)

/-- The loop of `removeNilFieldsForValue` over the map `m`. -/
def removeEach (remove : Slot → Cells → Option (Slot × Cells)) (m : Nat) : Entries → Cells → Option Cells
  | [], cells => some cells
  | (key, .plain value bare) :: rest, cells =>
    removeEach remove m rest (if (Slot.plain value bare).isNil then deleteAt m key cells else cells)
  | (key, .map sub) :: rest, cells => do
    let (left, cells) ← remove (.map sub) cells
    removeEach remove m rest (if left.isNil then deleteAt m key cells else cells)

def removeNilFieldsForValue : (fuel : Nat) → Slot → Cells → Option (Slot × Cells)
  | _, .plain value bare, cells => some (.plain value bare, cells)
  | 0, .map _, _ => none
  | fuel + 1, .map m, cells => do
    let cells ← removeEach (removeNilFieldsForValue fuel) m (entriesAt m cells) cells
    some (if (entriesAt m cells).isEmpty then .nil else .map m, cells)

/-- The body of the loop of `doMergeState`. -/
def mergeOne (merge : (tgt src : Nat) → Cells → Option Cells) (remove : Slot → Cells → Option (Slot × Cells))
    (tg : Nat) (key : String) (srcValue : Slot) (cells : Cells) : Option Cells :=
  if srcValue.isNil then some (deleteAt tg key cells)
  else
    match srcValue, Assoc.get key (entriesAt tg cells) with
    | .map subSrc, some (.map subTgt) => merge subTgt subSrc cells
    | _, _ => do
      let (kept, cells) ← remove srcValue cells
      some (putAt tg key kept cells)

def mergeEach (merge : (tgt src : Nat) → Cells → Option Cells) (remove : Slot → Cells → Option (Slot × Cells))
    (tg : Nat) : Entries → Cells → Option Cells
  | [], cells => some cells
  | (key, srcValue) :: rest, cells => do
    let cells ← mergeOne merge remove tg key srcValue cells
    mergeEach merge remove tg rest cells

def doMergeState : (fuel tgt src : Nat) → Cells → Option Cells
  | 0, _, _, _ => none
  | fuel + 1, tgt, src, cells =>
    mergeEach (doMergeState fuel) (removeNilFieldsForValue fuel) tgt (entriesAt src cells) cells

def mergeState (fuel tgt src : Nat) (cells : Cells) : Option Cells := do
  let (srcCopy, cells) ← deepCopyMap fuel src cells
  doMergeState fuel tgt srcCopy cells

/-- A map and what was copied of its fields into another map. -/
structure Copied (tgt : Nat) (before : Cells) (fields : Branches) (after : Cells) (back : Branches) : Prop where
  values : values back = values fields
  laid : Laid after (mapsOf back)
  grown : before.length ≤ after.length
  fresh : ∀ c ∈ cellsOf back, before.length ≤ c ∧ c < after.length
  distinct : (cellsOf back).Nodup
  others : SameBut [tgt] before after

theorem mem_cellsOf {fields : Branches} {node : Nat × Branches} (member : node ∈ mapsOf fields) :
    node.1 ∈ cellsOf fields := List.mem_map_of_mem member

theorem not_mem_named {fields : Branches} {cell : Nat} (apart : cell ∉ cellsOf fields) :
    ∀ node ∈ mapsOf fields, node.1 ≠ cell :=
  fun _ member same => apart (same ▸ mem_cellsOf member)

theorem fresh_of_distinct {front rest : Branches} {key : String} {tree : MapTree}
    (distinct : (Assoc.keys (front ++ (key, tree) :: rest)).Nodup) : Assoc.get key front = none := by
  refine Assoc.get_eq_none_iff.mpr fun member => ?_
  simp only [Assoc.keys, List.map_append, List.map_cons] at distinct member
  exact (List.nodup_append.mp distinct).2.2 key member key List.mem_cons_self rfl

section

variable {tgt : Nat} {cells middle after : Cells} {fields rest below back : Branches} {key : String}

theorem Copied.plain {value : Value} {bare : value.isObject = false}
    (copied : Copied tgt (putAt tgt key (.plain value bare) cells) rest after back) :
    Copied tgt cells ((key, .plain value bare) :: rest) after ((key, .plain value bare) :: back) where
  values := by rw [Tio.Json.values, Tio.Json.values, copied.values]
  laid := copied.laid
  grown := by simpa [length_putAt] using copied.grown
  fresh := by simpa [length_putAt] using copied.fresh
  distinct := by simpa using copied.distinct
  others := (putAt_others tgt key (.plain value bare) cells).trans copied.others (by simp)

theorem Copied.later {slot : Slot} (copied : Copied tgt (putAt tgt key slot middle) rest after back) {c : Nat}
    (member : c ∈ cellsOf back) : middle.length ≤ c ∧ c < after.length := by
  have bounds := copied.fresh c member
  rw [length_putAt] at bounds
  exact bounds

/-! The first map of the fields is copied into a new cell, and then the others. -/

variable (first : Copied cells.length (cells ++ [[]]) fields middle below)

include first

theorem Copied.longer : cells.length < middle.length := by
  have grown := first.grown
  rw [List.length_append] at grown
  exact grown

/-- The copy below writes new maps only. -/
theorem Copied.still : SameBut [] cells middle := by
  intro c _ small
  rw [first.others c (by simp; omega) (by simp; omega), List.getElem?_append_left small]

theorem Copied.between {c : Nat} (member : c ∈ cellsOf below) : cells.length < c ∧ c < middle.length := by
  have bounds := first.fresh c member
  rw [List.length_append] at bounds
  exact bounds

variable (inside : tgt < cells.length) (copied : Copied tgt (putAt tgt key (.map cells.length) middle) rest after back)

include inside copied

theorem Copied.laid_map (filled : middle[cells.length]? = some (slots below)) :
    Laid after ((cells.length, below) :: mapsOf below) := by
  have own : Laid middle ((cells.length, below) :: mapsOf below) := laid_cons.mpr ⟨filled, first.laid⟩
  have newer : ∀ node ∈ (cells.length, below) :: mapsOf below, node.1 ∉ [tgt] := by
    intro node member
    rw [List.mem_singleton]
    rcases List.mem_cons.mp member with rfl | member
    · exact Nat.ne_of_gt inside
    · have late := (first.between (mem_cellsOf member)).1
      omega
  exact (own.frame (putAt_others tgt key (.map cells.length) middle) newer).frame copied.others newer

theorem Copied.map {sub : Nat} (filled : middle[cells.length]? = some (slots below)) :
    Copied tgt cells ((key, .map sub fields) :: rest) after ((key, .map cells.length below) :: back) := by
  have longer := first.longer
  have grown := copied.grown
  rw [length_putAt] at grown
  exact {
    values := by
      rw [Tio.Json.values, Tio.Json.values, copied.values, MapTree.value, MapTree.value, first.values]
    laid := laid_append.mpr ⟨first.laid_map inside copied filled, copied.laid⟩
    grown := by omega
    fresh := by
      intro c member
      simp only [cellsOf_cons, MapTree.cells_map, List.cons_append, List.mem_cons, List.mem_append] at member
      rcases member with rfl | member | member
      · omega
      · have bounds := first.between member
        omega
      · have bounds := copied.later member
        omega
    distinct := by
      simp only [cellsOf_cons, MapTree.cells_map, List.cons_append, List.nodup_cons, List.mem_append, not_or]
      refine ⟨⟨fun member => ?_, fun member => ?_⟩, List.nodup_append.mpr ⟨first.distinct, copied.distinct, ?_⟩⟩
      · have bounds := first.between member
        omega
      · have bounds := copied.later member
        omega
      · intro c member c' member' same
        have bounds := first.between member
        have bounds' := copied.later member'
        omega
    others := ((first.still.mono (by simp)).trans (putAt_others tgt key (.map cells.length) middle)
      (Nat.le_of_lt longer)).trans copied.others (by simp; omega) }

end

mutual

/-- The copy of a map is laid out in new cells. -/
theorem deepCopyMap_laid : ∀ (tree : MapTree) (src : Nat) (fields : Branches), tree = .map src fields →
    ∀ (fuel : Nat) (cells : Cells), tree.value.unique = true → tree.value.depth ≤ fuel → Laid cells tree.maps →
    ∃ back after, deepCopyMap fuel src cells = some (cells.length, after) ∧
      after[cells.length]? = some (slots back) ∧ Copied cells.length (cells ++ [[]]) fields after back
  | .plain _ _, _, _, same, _, _, _, _, _ => by cases same
  | .map cell branches, src, fields, same, fuel, cells, unique, deep, laid => by
    cases same
    cases fuel with
    | zero => simp [MapTree.value, Value.depth] at deep
    | succ fuel =>
      obtain ⟨here, below⟩ := laid_cons.mp laid
      have wide : Laid (cells ++ [[]]) (mapsOf branches) := by
        intro node member
        rw [List.getElem?_append_left (List.getElem?_eq_some_iff.mp (below node member)).1]
        exact below node member
      have apart : cells.length ∉ cellsOf branches := by
        intro member
        obtain ⟨node, inside, same⟩ := List.mem_map.mp member
        have small := (List.getElem?_eq_some_iff.mp (below node inside)).1
        omega
      have shallow : depthOf (values branches) ≤ fuel := by
        rw [MapTree.value, Value.depth] at deep
        omega
      obtain ⟨back, after, ran, filled, copied⟩ := copyEach_laid branches fuel cells.length [] (cells ++ [[]])
        unique shallow wide apart (by simp [slots]) (by simpa [← keys_values] using Unique.nodup unique)
      refine ⟨back, after, ?_, filled, copied⟩
      rw [deepCopyMap, entriesAt_of_laid here, ran]
      rfl
termination_by structural tree => tree

theorem copyEach_laid : ∀ (rest : Branches) (fuel tgt : Nat) (front : Branches) (cells : Cells),
    Unique (values rest) → depthOf (values rest) ≤ fuel → Laid cells (mapsOf rest) → tgt ∉ cellsOf rest →
    cells[tgt]? = some (slots front) → (Assoc.keys (front ++ rest)).Nodup →
    ∃ back after, copyEach (deepCopyMap fuel) tgt (slots rest) cells = some after ∧
      after[tgt]? = some (slots (front ++ back)) ∧ Copied tgt cells rest after back
  | [], fuel, tgt, front, cells, _, _, _, _, here, _ =>
    ⟨[], cells, rfl, by simpa using here, ⟨rfl, by simp [Laid], Nat.le_refl _, by simp, by simp, .refl _ _⟩⟩
  | (key, .plain value bare) :: rest, fuel, tgt, front, cells, unique, deep, laid, apart, here, distinct => by
    have shallow : depthOf (values rest) ≤ fuel := Nat.le_trans (Nat.le_max_right _ _) deep
    have fresh := fresh_of_distinct distinct
    have put := putAt_laid here key (.plain value bare)
    rw [Assoc.set_of_fresh fresh] at put
    have others := putAt_others tgt key (.plain value bare) cells
    have framed := laid.frame others (by simpa using not_mem_named apart)
    obtain ⟨back, after, ran, filled, copied⟩ := copyEach_laid rest fuel tgt _ _ (Unique.tail unique) shallow
      framed apart put (by simpa using distinct)
    exact ⟨(key, .plain value bare) :: back, after, ran, by simpa using filled, copied.plain⟩
  | (key, .map sub fields) :: rest, fuel, tgt, front, cells, unique, deep, laid, apart, here, distinct => by
    have deepest : (MapTree.map sub fields).value.depth ≤ fuel := Nat.le_trans (Nat.le_max_left _ _) deep
    have shallow : depthOf (values rest) ≤ fuel := Nat.le_trans (Nat.le_max_right _ _) deep
    have inside : tgt < cells.length := (List.getElem?_eq_some_iff.mp here).1
    obtain ⟨laidSub, laidRest⟩ := laid_append.mp laid
    rw [cellsOf_cons, List.mem_append, not_or] at apart
    obtain ⟨below, middle, ranSub, filledSub, first⟩ := deepCopyMap_laid (.map sub fields) sub fields rfl fuel cells
      (Unique.head unique) deepest laidSub
    have here' : middle[tgt]? = some (slots front) := (first.still tgt (by simp) inside).trans here
    have put := putAt_laid here' key (.map cells.length below)
    rw [Assoc.set_of_fresh (fresh_of_distinct distinct)] at put
    have others := putAt_others tgt key (.map cells.length) middle
    have framed := (laidRest.frame first.still (by simp)).frame others (by simpa using not_mem_named apart.2)
    obtain ⟨back, after, ran, filled, copied⟩ := copyEach_laid rest fuel tgt _ _ (Unique.tail unique) shallow
      framed apart.2 put (by simpa [Assoc.keys] using distinct)
    refine ⟨(key, .map cells.length below) :: back, after, ?_, by simpa using filled,
      first.map inside copied filledSub⟩
    change (deepCopyMap fuel sub cells).bind _ = _
    rw [ranSub]
    exact ran
termination_by structural rest => rest

end

/-- What is left of maps after some cells were written. -/
structure Pruned (written base : List Nat) (before after : Cells) (maps : List (Nat × Branches)) : Prop where
  laid : Laid after maps
  fewer : (maps.map Prod.fst).Sublist base
  size : after.length = before.length
  others : SameBut written before after

theorem isNil_slot {tree : MapTree} : tree.slot.isNil = true ↔ tree.value = .null := by
  cases tree with
  | plain value bare => cases value <;> simp [MapTree.slot, Slot.isNil, MapTree.value]
  | map cell fields => simp [MapTree.slot, Slot.isNil, MapTree.value]

theorem erase_between {front rest : Branches} {key : String} {tree : MapTree}
    (distinct : (Assoc.keys (front ++ (key, tree) :: rest)).Nodup) :
    Assoc.erase key (front ++ (key, tree) :: rest) = front ++ rest := by
  have split : (Assoc.keys front ++ key :: Assoc.keys rest).Nodup := by simpa [Assoc.keys] using distinct
  obtain ⟨-, later, apart⟩ := List.nodup_append.mp split
  have early : key ∉ Assoc.keys front := fun member => apart key member key List.mem_cons_self rfl
  have late : key ∉ Assoc.keys rest := (List.nodup_cons.mp later).1
  have parts := @List.filter_append _ (fun field : String × MapTree => field.1 ≠ key) front ((key, tree) :: rest)
  rw [Assoc.erase, parts, List.filter_cons_of_neg (by simp)]
  exact congrArg₂ _ (Assoc.erase_of_fresh early) (Assoc.erase_of_fresh late)

theorem removeEach_map {remove : Slot → Cells → Option (Slot × Cells)} (m : Nat) {sub : Nat} (key : String) {left : Slot}
    {cells middle : Cells} (ran : remove (.map sub) cells = some (left, middle)) (rest : Entries) :
    removeEach remove m ((key, .map sub) :: rest) cells =
      removeEach remove m rest (if left.isNil then deleteAt m key middle else middle) := by
  rw [removeEach, ran]
  rfl

section

variable {m : Nat} {key : String} {tree left : MapTree} {rest back : Branches} {cells middle after : Cells}

theorem mem_written_rest (key : String) (tree : MapTree) {c : Nat} (member : c ∈ m :: cellsOf rest) :
    c ∈ m :: cellsOf ((key, tree) :: rest) := by
  simp only [cellsOf_cons, List.mem_cons, List.mem_append] at member ⊢
  exact member.imp_right .inr

theorem mem_written_tree (m : Nat) (key : String) (rest : Branches) {c : Nat} (member : c ∈ tree.cells) :
    c ∈ m :: cellsOf ((key, tree) :: rest) := by
  simp only [cellsOf_cons, List.mem_cons, List.mem_append]
  exact .inr (.inl member)

variable (first : Pruned tree.cells tree.cells cells middle left.maps)

include first

/-- Nothing is left below, and the field goes. -/
theorem Pruned.gone
    (pruned : Pruned (m :: cellsOf rest) (cellsOf rest) (deleteAt m key middle) after (mapsOf back)) :
    Pruned (m :: cellsOf ((key, tree) :: rest)) (cellsOf ((key, tree) :: rest)) cells after (mapsOf back) where
  laid := pruned.laid
  fewer := pruned.fewer.trans (by rw [cellsOf_cons]; exact List.sublist_append_right _ _)
  size := by rw [pruned.size, length_deleteAt, first.size]
  others := by
    have deleted := deleteAt_others m key middle
    have both := (first.others.mono fun c => mem_written_tree m key rest).trans (deleted.mono (by simp))
      (Nat.le_of_eq first.size.symm)
    exact both.trans (pruned.others.mono fun c => mem_written_rest key tree)
      (Nat.le_of_eq (by rw [length_deleteAt, first.size]))

/-- What is left below stays under the key. -/
theorem Pruned.kept (alone : m ∉ tree.cells) (disjoint : ∀ c ∈ tree.cells, c ∉ cellsOf rest)
    (pruned : Pruned (m :: cellsOf rest) (cellsOf rest) middle after (mapsOf back)) :
    Pruned (m :: cellsOf ((key, tree) :: rest)) (cellsOf ((key, tree) :: rest)) cells after
      (mapsOf ((key, left) :: back)) where
  laid := by
    refine laid_append.mpr ⟨first.laid.frame pruned.others fun node member => ?_, pruned.laid⟩
    have inside : node.1 ∈ tree.cells := first.fewer.subset (List.mem_map_of_mem member)
    rw [List.mem_cons, not_or]
    exact ⟨fun same => alone (same ▸ inside), disjoint _ inside⟩
  fewer := by
    rw [mapsOf_cons, List.map_append, cellsOf_cons]
    exact first.fewer.append pruned.fewer
  size := by rw [pruned.size, first.size]
  others := (first.others.mono fun c => mem_written_tree m key rest).trans
    (pruned.others.mono fun c => mem_written_rest key tree) (Nat.le_of_eq first.size.symm)

end

mutual

/-- Stripping writes only the maps of the value. -/
theorem removeNilFieldsForValue_laid : ∀ (tree : MapTree) (fuel : Nat) (cells : Cells), tree.value.unique = true →
    tree.value.depth ≤ fuel → Laid cells tree.maps → tree.cells.Nodup →
    ∃ (left : MapTree) (after : Cells), removeNilFieldsForValue fuel tree.slot cells = some (left.slot, after) ∧
      (left.value ≠ .null → left.slot = tree.slot) ∧ left.value = Shadow.removeNilFieldsForValue tree.value ∧
      Pruned tree.cells tree.cells cells after left.maps
  | .plain value bare, fuel, cells, _, _, _, _ => by
    refine ⟨.plain value bare, cells, ?_, fun _ => rfl, ?_, ?_⟩
    · cases fuel <;> rfl
    · exact (removeNilFieldsForValue_of_not_object bare).symm
    · exact ⟨by simp [Laid], .refl _, rfl, .refl _ _⟩
  | .map m fields, fuel, cells, unique, deep, laid, distinct => by
    cases fuel with
    | zero => simp [MapTree.value, Value.depth] at deep
    | succ fuel =>
      obtain ⟨here, below⟩ := laid_cons.mp laid
      have shallow : depthOf (values fields) ≤ fuel := by
        rw [MapTree.value, Value.depth] at deep
        omega
      obtain ⟨back, after, ran, filled, same, pruned⟩ := removeEach_laid fields fuel m [] cells unique shallow below
        (by simpa using here) distinct (by simpa [← keys_values] using Unique.nodup unique)
      have run : removeNilFieldsForValue (fuel + 1) (.map m) cells =
          some (if (slots back).isEmpty then .nil else .map m, after) := by
        rw [removeNilFieldsForValue, entriesAt_of_laid here, ran]
        change some (if (entriesAt m after).isEmpty then _ else _, after) = _
        rw [entriesAt_of_laid (by simpa using filled)]
      have stripped : Shadow.removeNilFieldsForValue (.obj (values fields)) =
          if (values back).isEmpty then .null else .obj (values back) := by
        rw [removeNilFieldsForValue_obj, same]
      cases back with
      | nil =>
        refine ⟨.plain .null rfl, after, run, fun kept => absurd rfl kept, stripped.symm, ?_⟩
        exact ⟨fun _ member => absurd member List.not_mem_nil, List.nil_sublist _, pruned.size, pruned.others⟩
      | cons field back =>
        refine ⟨.map m (field :: back), after, run, fun _ => rfl, stripped.symm, ?_⟩
        exact ⟨laid_cons.mpr ⟨by simpa using filled, pruned.laid⟩, pruned.fewer.cons_cons m, pruned.size, pruned.others⟩
termination_by structural tree => tree

theorem removeEach_laid : ∀ (rest : Branches) (fuel m : Nat) (front : Branches) (cells : Cells),
    Unique (values rest) → depthOf (values rest) ≤ fuel → Laid cells (mapsOf rest) →
    cells[m]? = some (slots (front ++ rest)) → (m :: cellsOf rest).Nodup → (Assoc.keys (front ++ rest)).Nodup →
    ∃ back after, removeEach (removeNilFieldsForValue fuel) m (slots rest) cells = some after ∧
      after[m]? = some (slots (front ++ back)) ∧ values back = removeNilFields (values rest) ∧
      Pruned (m :: cellsOf rest) (cellsOf rest) cells after (mapsOf back)
  | [], fuel, m, front, cells, _, _, _, here, _, _ =>
    ⟨[], cells, rfl, here, rfl, ⟨by simp [Laid], .refl _, rfl, .refl _ _⟩⟩
  | (key, .plain value bare) :: rest, fuel, m, front, cells, unique, deep, laid, here, apart, distinct => by
    have shallow : depthOf (values rest) ≤ fuel := Nat.le_trans (Nat.le_max_right _ _) deep
    have alone := (List.nodup_cons.mp apart).1
    by_cases null : value = .null
    · subst null
      have gone := deleteAt_laid here key
      rw [erase_between distinct] at gone
      have others := deleteAt_others m key cells
      have framed := laid.frame others (by simpa using not_mem_named alone)
      obtain ⟨back, after, ran, filled, same, pruned⟩ := removeEach_laid rest fuel m front _ (Unique.tail unique)
        shallow framed gone apart (distinct.sublist ((List.sublist_cons_self _ _).append_left _ |>.map _))
      refine ⟨back, after, ran, filled, same, pruned.laid, pruned.fewer, ?_, ?_⟩
      · rw [pruned.size, length_deleteAt]
      · exact (others.mono (by simp)).trans pruned.others (by simp)
    · have kept : Shadow.removeNilFieldsForValue value = value := removeNilFieldsForValue_of_not_object bare
      have stays : (Slot.plain value bare).isNil = false := by
        cases value <;> first | rfl | exact absurd rfl null
      obtain ⟨back, after, ran, filled, same, pruned⟩ := removeEach_laid rest fuel m (front ++ [(key, .plain value bare)])
        cells (Unique.tail unique) shallow laid (by simpa using here) apart (by simpa using distinct)
      refine ⟨(key, .plain value bare) :: back, after, ?_, by simpa using filled, ?_, pruned⟩
      · change removeEach _ m (slots rest) (if (Slot.plain value bare).isNil then _ else cells) = _
        rw [stays]
        exact ran
      · rw [values, values, MapTree.value, removeNilFields_cons (by rw [kept]; exact null), kept, same]
  | (key, .map sub fields) :: rest, fuel, m, front, cells, unique, deep, laid, here, apart, distinct => by
    have deepest : (MapTree.map sub fields).value.depth ≤ fuel := Nat.le_trans (Nat.le_max_left _ _) deep
    have shallow : depthOf (values rest) ≤ fuel := Nat.le_trans (Nat.le_max_right _ _) deep
    obtain ⟨laidSub, laidRest⟩ := laid_append.mp laid
    obtain ⟨alone, below⟩ := List.nodup_cons.mp apart
    rw [cellsOf_cons, List.mem_append, not_or] at alone
    rw [cellsOf_cons] at below
    obtain ⟨distinctSub, distinctRest, disjoint⟩ := List.nodup_append.mp below
    obtain ⟨left, middle, ranSub, slot, value, prunedSub⟩ := removeNilFieldsForValue_laid (.map sub fields) fuel cells
      (Unique.head unique) deepest laidSub distinctSub
    have inside : m < cells.length := (List.getElem?_eq_some_iff.mp here).1
    have here' := (prunedSub.others m alone.1 inside).trans here
    have framed := laidRest.frame prunedSub.others fun node member inside =>
      disjoint _ inside _ (mem_cellsOf member) rfl
    have apart' : (m :: cellsOf rest).Nodup := List.nodup_cons.mpr ⟨alone.2, distinctRest⟩
    have run := removeEach_map m key ranSub (slots rest)
    by_cases null : left.value = .null
    · have gone := deleteAt_laid here' key
      rw [erase_between distinct] at gone
      have others := deleteAt_others m key middle
      obtain ⟨back, after, ran, filled, same, pruned⟩ := removeEach_laid rest fuel m front _ (Unique.tail unique)
        shallow (framed.frame others (by simpa using not_mem_named alone.2)) gone apart'
        (distinct.sublist ((List.sublist_cons_self _ _).append_left _ |>.map _))
      rw [isNil_slot.mpr null] at run
      refine ⟨back, after, run.trans ran, filled, ?_, prunedSub.gone pruned⟩
      rw [values, removeNilFields_cons_of_null (value.symm.trans null)]
      exact same
    · have stays : left.slot.isNil = false := by
        rw [← Bool.not_eq_true, isNil_slot]
        exact null
      have here'' : middle[m]? = some (slots ((front ++ [(key, left)]) ++ rest)) := by
        rw [here']
        simp [slots, slot null]
      obtain ⟨back, after, ran, filled, same, pruned⟩ := removeEach_laid rest fuel m (front ++ [(key, left)]) middle
        (Unique.tail unique) shallow framed here'' apart' (by simpa [Assoc.keys] using distinct)
      rw [stays] at run
      refine ⟨(key, left) :: back, after, run.trans ran, by simpa using filled, ?_,
        prunedSub.kept alone.1 (fun c inSub inRest => disjoint c inSub c inRest rfl) pruned⟩
      rw [values, values, removeNilFields_cons (value ▸ null), value, same]
termination_by structural rest => rest

end

/-- The cells of what a map holds under a key. -/
def heldCells (key : String) (fields : Branches) : List Nat := ((Assoc.get key fields).map MapTree.cells).getD []

theorem cellsOf_perm (key : String) {fields : Branches} (distinct : (Assoc.keys fields).Nodup) :
    (cellsOf fields).Perm (heldCells key fields ++ cellsOf (Assoc.erase key fields)) := by
  rw [heldCells]
  cases found : Assoc.get key fields with
  | none => rw [Assoc.erase_of_fresh (Assoc.get_eq_none_iff.mp found)]; rfl
  | some tree =>
    have parts := (mapsOf_of_get distinct found).map Prod.fst
    rwa [List.map_append] at parts

/-- A merge of fields into a map, seen from the cells. -/
structure Placed (tg : Nat) (tf rest : Branches) (before after : Cells) (tf' : Branches) : Prop where
  values : values tf' = overlaid (values rest) (values tf)
  laid : Laid after ((tg, tf') :: mapsOf tf')
  distinct : (tg :: cellsOf tf').Nodup
  within : ∀ c ∈ cellsOf tf', c ∈ cellsOf tf ++ cellsOf rest
  size : after.length = before.length
  others : SameBut (tg :: (cellsOf tf ++ cellsOf rest)) before after

/-- One field of the target replaced or deleted; `fresh` are the maps of what replaces it. -/
structure Stored (tg : Nat) (key : String) (tree : MapTree) (tf tf1 : Branches) (fresh : List (Nat × Branches))
    (before middle : Cells) : Prop where
  values : values tf1 = Assoc.put key (overlay tree.value (Assoc.get key (values tf))) (values tf)
  parts : (mapsOf tf1).Perm (fresh ++ mapsOf (Assoc.erase key tf))
  held : middle[tg]? = some (slots tf1)
  laid : Laid middle fresh
  distinct : (fresh.map Prod.fst).Nodup
  within : ∀ c ∈ fresh.map Prod.fst, c ∈ heldCells key tf ++ tree.cells
  size : middle.length = before.length
  others : SameBut (tg :: (heldCells key tf ++ tree.cells)) before middle

theorem nodup_replace {tg : Nat} {old others source rest new : List Nat}
    (apart : (tg :: ((old ++ others) ++ (source ++ rest))).Nodup) (distinct : new.Nodup)
    (within : ∀ c ∈ new, c ∈ old ++ source) :
    (tg :: ((new ++ others) ++ rest)).Nodup ∧ (∀ c ∈ others, c ∉ tg :: (old ++ source)) ∧
      ∀ c ∈ rest, c ∉ tg :: (old ++ source) := by
  simp only [List.nodup_cons, List.nodup_append, List.mem_append, List.mem_cons] at apart within ⊢
  grind

/-- What one field leaves is ready for the next field. -/
theorem Stored.ready {tg : Nat} {key : String} {tree : MapTree} {tf tf1 rest : Branches}
    {fresh : List (Nat × Branches)} {before middle : Cells} (stored : Stored tg key tree tf tf1 fresh before middle)
    (keys : (Assoc.keys tf).Nodup) (laid : Laid before (mapsOf tf)) (laidRest : Laid before (mapsOf rest))
    (apart : (tg :: (cellsOf tf ++ cellsOf ((key, tree) :: rest))).Nodup) :
    Laid middle ((tg, tf1) :: mapsOf tf1) ∧ Laid middle (mapsOf rest) ∧
      (tg :: (cellsOf tf1 ++ cellsOf rest)).Nodup ∧ ∀ c ∈ cellsOf tf1, c ∈ cellsOf tf ++ tree.cells := by
  have split := cellsOf_perm key keys
  have parts : (cellsOf tf1).Perm (fresh.map Prod.fst ++ cellsOf (Assoc.erase key tf)) := by
    have mapped := stored.parts.map Prod.fst
    rwa [List.map_append] at mapped
  rw [cellsOf_cons, ((split.append_right _).cons tg).nodup_iff] at apart
  obtain ⟨distinct, erased, later⟩ := nodup_replace apart stored.distinct stored.within
  have kept : Laid before (mapsOf (Assoc.erase key tf)) :=
    laid.sublist fun node member => (mapsOf_erase_sublist key tf).subset member
  have laid' : Laid middle (fresh ++ mapsOf (Assoc.erase key tf)) :=
    laid_append.mpr ⟨stored.laid, kept.frame stored.others fun node member => erased _ (mem_cellsOf member)⟩
  refine ⟨laid_cons.mpr ⟨stored.held, laid'.sublist fun node member => stored.parts.mem_iff.mp member⟩, ?_, ?_, ?_⟩
  · exact laidRest.frame stored.others fun node member => later _ (mem_cellsOf member)
  · exact ((parts.append_right _).cons tg).nodup_iff.mpr distinct
  · intro c member
    have old : c ∈ cellsOf tf ↔ _ := split.mem_iff
    have new := parts.mem_iff.mp member
    have within := stored.within c
    simp only [List.mem_append] at old new within ⊢
    rw [old]
    rcases new with new | new
    · exact (within new).imp_left .inl
    · exact .inl (.inr new)

/-- A field and then the others. -/
theorem Stored.placed {tg : Nat} {key : String} {tree : MapTree} {tf tf1 tf' rest : Branches}
    {fresh : List (Nat × Branches)} {before middle after : Cells}
    (stored : Stored tg key tree tf tf1 fresh before middle) (keys : (Assoc.keys tf).Nodup)
    (within : ∀ c ∈ cellsOf tf1, c ∈ cellsOf tf ++ tree.cells) (placed : Placed tg tf1 rest middle after tf') :
    Placed tg tf ((key, tree) :: rest) before after tf' := by
  have split := cellsOf_perm key keys
  have wide : ∀ c ∈ cellsOf tf1 ++ cellsOf rest, c ∈ cellsOf tf ++ cellsOf ((key, tree) :: rest) := by
    intro c member
    have origin := within c
    simp only [cellsOf_cons, List.mem_append] at member origin ⊢
    rcases member with member | member
    · exact (origin member).imp_right .inl
    · exact .inr (.inr member)
  have narrow : ∀ c ∈ tg :: (heldCells key tf ++ tree.cells), c ∈ tg :: (cellsOf tf ++ cellsOf ((key, tree) :: rest)) := by
    intro c member
    have old : c ∈ cellsOf tf ↔ _ := split.mem_iff
    simp only [cellsOf_cons, List.mem_cons, List.mem_append] at old member ⊢
    rw [old]
    rcases member with member | member | member
    · exact .inl member
    · exact .inr (.inl (.inl member))
    · exact .inr (.inr (.inl member))
  refine ⟨?_, placed.laid, placed.distinct, fun c member => wide c (placed.within c member), ?_, ?_⟩
  · rw [placed.values, stored.values]
    rfl
  · rw [placed.size, stored.size]
  · refine (stored.others.mono narrow).trans (placed.others.mono fun c member => ?_) (Nat.le_of_eq stored.size.symm)
    exact List.mem_cons.mpr ((List.mem_cons.mp member).imp_right (wide c))

theorem mergeOne_default {merge : (tgt src : Nat) → Cells → Option Cells}
    {remove : Slot → Cells → Option (Slot × Cells)} {tg : Nat} {key : String} {srcValue : Slot} {cells : Cells}
    (something : srcValue.isNil = false)
    (bare : ∀ subSrc subTgt, srcValue = .map subSrc → Assoc.get key (entriesAt tg cells) ≠ some (.map subTgt)) :
    mergeOne merge remove tg key srcValue cells =
      (remove srcValue cells).bind fun left => some (putAt tg key left.1 left.2) := by
  unfold mergeOne
  rw [something, if_neg (by simp)]
  split
  · rename_i target
    exact absurd target (bare _ _ rfl)
  · rfl

section

variable {tg fuel : Nat} {key : String} {tree : MapTree} {tf : Branches} {cells : Cells}

theorem slot_eq_map {tree : MapTree} {cell : Nat} (same : tree.slot = .map cell) :
    ∃ fields, tree = .map cell fields := by
  cases tree with
  | plain value bare => cases same
  | map cell fields =>
    cases same
    exact ⟨fields, rfl⟩

theorem value_eq_obj {tree : MapTree} {fields : Fields} (same : tree.value = .obj fields) :
    ∃ cell branches, tree = .map cell branches := by
  cases tree with
  | plain value bare =>
    subst same
    cases bare
  | map cell branches => exact ⟨cell, branches, rfl⟩

/-- What is stored where no two objects meet. -/
theorem overlay_stripped {value : Value} {held : Option Value} (something : value ≠ .null)
    (bare : ∀ fields below, value = .obj fields → held ≠ some (.obj below)) :
    overlay value held = some (Shadow.removeNilFieldsForValue value) := by
  cases value with
  | null => exact absurd rfl something
  | obj fields => exact overlay_bare_obj fun below => bare fields below rfl
  | _ => exact overlay_leaf rfl held

/-- A null deletes the field. -/
theorem mergeOne_null (here : cells[tg]? = some (slots tf)) (null : tree.value = .null) :
    ∃ (tf1 : Branches) (fresh : List (Nat × Branches)) (middle : Cells),
      mergeOne (doMergeState fuel) (removeNilFieldsForValue fuel) tg key tree.slot cells = some middle ∧
        Stored tg key tree tf tf1 fresh cells middle := by
  refine ⟨Assoc.erase key tf, [], deleteAt tg key cells, ?_, ?_⟩
  · unfold mergeOne
    rw [isNil_slot.mpr null, if_pos rfl]
  · exact {
      values := by
        rw [null, overlay, Assoc.put, erase_values]
      parts := .refl _
      held := deleteAt_laid here key
      laid := by simp [Laid]
      distinct := by simp
      within := by simp
      size := length_deleteAt tg key cells
      others := (deleteAt_others tg key cells).mono (by simp) }

/-- Two maps are merged where the one of the target is. -/
theorem mergeOne_map {sub subTgt : Nat} {fields below below' : Branches} {middle : Cells}
    (keys : (Assoc.keys tf).Nodup) (here : cells[tg]? = some (slots tf))
    (found : Assoc.get key tf = some (.map subTgt below)) (ran : doMergeState fuel subTgt sub cells = some middle)
    (placed : Placed subTgt below fields cells middle below')
    (outside : tg ∉ subTgt :: (cellsOf below ++ cellsOf fields)) :
    ∃ (tf1 : Branches) (fresh : List (Nat × Branches)) (middle : Cells),
      mergeOne (doMergeState fuel) (removeNilFieldsForValue fuel) tg key (.map sub) cells = some middle ∧
        Stored tg key (.map sub fields) tf tf1 fresh cells middle := by
  have inside : tg < cells.length := (List.getElem?_eq_some_iff.mp here).1
  have there : Assoc.get key (slots tf) = some (.map subTgt) := by
    rw [get_slots, found]
    rfl
  have written : ∀ c ∈ subTgt :: (cellsOf below ++ cellsOf fields),
      c ∈ heldCells key tf ++ (MapTree.map sub fields).cells := by
    intro c member
    rw [heldCells, found]
    simp only [Option.map_some, Option.getD_some, MapTree.cells_map, List.mem_append, List.mem_cons] at member ⊢
    rcases member with member | member | member
    · exact .inl (.inl member)
    · exact .inl (.inr member)
    · exact .inr (.inr member)
  refine ⟨Assoc.set key (.map subTgt below') tf, (subTgt, below') :: mapsOf below', middle, ?_, ?_⟩
  · unfold mergeOne
    rw [entriesAt_of_laid here, there]
    exact ran
  · exact {
      values := by
        rw [← set_values, get_values, found]
        change Assoc.set key (Value.obj (values below')) _ =
          Assoc.set key (Value.obj (overlaid (values fields) (values below))) _
        rw [placed.values]
      parts := mapsOf_set keys _
      held := by
        rw [placed.others tg outside inside, here, ← set_slots]
        exact congrArg some (Assoc.set_of_get there).symm
      laid := placed.laid
      distinct := placed.distinct
      within := by
        intro c member
        refine written c ?_
        rcases List.mem_cons.mp member with rfl | member
        · exact List.mem_cons_self
        · exact List.mem_cons_of_mem _ (placed.within c member)
      size := placed.size
      others := placed.others.mono fun c member => List.mem_cons_of_mem _ (written c member) }

/-- A value that does not meet a map in the target is stripped and stored. -/
theorem mergeOne_bare (keys : (Assoc.keys tf).Nodup) (here : cells[tg]? = some (slots tf))
    (something : tree.value ≠ .null)
    (bare : ∀ fields below, tree.value = .obj fields → Assoc.get key (values tf) ≠ some (.obj below))
    (unique : tree.value.unique = true) (deep : tree.value.depth ≤ fuel) (laid : Laid cells tree.maps)
    (apart : tree.cells.Nodup) (outside : tg ∉ tree.cells) :
    ∃ (tf1 : Branches) (fresh : List (Nat × Branches)) (middle : Cells),
      mergeOne (doMergeState fuel) (removeNilFieldsForValue fuel) tg key tree.slot cells = some middle ∧
        Stored tg key tree tf tf1 fresh cells middle := by
  obtain ⟨left, middle, ran, -, value, pruned⟩ := removeNilFieldsForValue_laid tree fuel cells unique deep laid apart
  have stays : tree.slot.isNil = false := by
    rw [← Bool.not_eq_true, isNil_slot]
    exact something
  have inside : tg < cells.length := (List.getElem?_eq_some_iff.mp here).1
  have here' := (pruned.others tg outside inside).trans here
  refine ⟨Assoc.set key left tf, left.maps, putAt tg key left.slot middle, ?_, ?_⟩
  · rw [mergeOne_default stays, ran]
    · rfl
    · intro subSrc subTgt source target
      rw [entriesAt_of_laid here, get_slots, Option.map_eq_some_iff] at target
      obtain ⟨old, found, target⟩ := target
      obtain ⟨fields, rfl⟩ := slot_eq_map source
      obtain ⟨below, rfl⟩ := slot_eq_map target
      refine bare (values fields) (values below) rfl ?_
      rw [get_values, found]
      rfl
  · exact {
      values := by
        rw [← set_values, value, overlay_stripped something bare]
        rfl
      parts := mapsOf_set keys left
      held := putAt_laid here' key left
      laid := by
        refine pruned.laid.frame (putAt_others tg key left.slot middle) fun node member => ?_
        rw [List.mem_singleton]
        rintro rfl
        exact outside (pruned.fewer.subset (List.mem_map_of_mem member))
      distinct := apart.sublist pruned.fewer
      within := fun c member => List.mem_append_right _ (pruned.fewer.subset member)
      size := by rw [length_putAt, pruned.size]
      others := by
        refine (pruned.others.mono fun c member => ?_).trans
          ((putAt_others tg key left.slot middle).mono fun c member => ?_) (Nat.le_of_eq pruned.size.symm)
        · exact List.mem_cons_of_mem _ (List.mem_append_right _ member)
        · simp_all }

end

mutual

/-- The merge writes the maps of the target and those of the source it was given, and
leaves the overlay of the one on the other. -/
theorem doMergeState_laid : ∀ (source : MapTree) (src : Nat) (fields : Branches), source = .map src fields →
    ∀ (fuel tgt : Nat) (tf : Branches) (cells : Cells), source.value.unique = true → Unique (values tf) →
    source.value.depth ≤ fuel → Laid cells ((tgt, tf) :: mapsOf tf) → Laid cells source.maps →
    (tgt :: (cellsOf tf ++ cellsOf fields)).Nodup →
    ∃ (tf' : Branches) (after : Cells), doMergeState fuel tgt src cells = some after ∧
      Placed tgt tf fields cells after tf'
  | .plain _ _, _, _, same, _, _, _, _, _, _, _, _, _, _ => by cases same
  | .map cell branches, src, fields, same, fuel, tgt, tf, cells, unique, uniqueTgt, deep, laid, laidSrc, apart => by
    cases same
    cases fuel with
    | zero => simp [MapTree.value, Value.depth] at deep
    | succ fuel =>
      obtain ⟨here, below⟩ := laid_cons.mp laidSrc
      have shallow : depthOf (values branches) ≤ fuel := by
        rw [MapTree.value, Value.depth] at deep
        omega
      obtain ⟨tf', after, ran, placed⟩ := mergeEach_laid branches fuel tgt tf cells unique uniqueTgt shallow laid below apart
      refine ⟨tf', after, ?_, placed⟩
      rw [doMergeState, entriesAt_of_laid here]
      exact ran
termination_by structural source => source

theorem mergeEach_laid : ∀ (rest : Branches) (fuel tg : Nat) (tf : Branches) (cells : Cells),
    Unique (values rest) → Unique (values tf) → depthOf (values rest) ≤ fuel → Laid cells ((tg, tf) :: mapsOf tf) →
    Laid cells (mapsOf rest) → (tg :: (cellsOf tf ++ cellsOf rest)).Nodup →
    ∃ (tf' : Branches) (after : Cells),
      mergeEach (doMergeState fuel) (removeNilFieldsForValue fuel) tg (slots rest) cells = some after ∧
        Placed tg tf rest cells after tf'
  | [], fuel, tg, tf, cells, _, _, _, laid, _, apart => by
    refine ⟨tf, cells, rfl, rfl, laid, by simpa using apart, by simp, rfl, .refl _ _⟩
  | (key, tree) :: rest, fuel, tg, tf, cells, unique, uniqueTgt, deep, laid, laidSrc, apart => by
    have deepest : tree.value.depth ≤ fuel := Nat.le_trans (Nat.le_max_left _ _) deep
    have shallow : depthOf (values rest) ≤ fuel := Nat.le_trans (Nat.le_max_right _ _) deep
    have keys : (Assoc.keys tf).Nodup := keys_values tf ▸ uniqueTgt.nodup
    obtain ⟨here, laidTgt⟩ := laid_cons.mp laid
    obtain ⟨laidTree, laidRest⟩ := laid_append.mp laidSrc
    have field : ∃ (tf1 : Branches) (fresh : List (Nat × Branches)) (middle : Cells),
        mergeOne (doMergeState fuel) (removeNilFieldsForValue fuel) tg key tree.slot cells = some middle ∧
          Stored tg key tree tf tf1 fresh cells middle := by
      by_cases null : tree.value = .null
      · exact mergeOne_null here null
      by_cases both : ∃ sub fields subTgt below, tree = .map sub fields ∧
          Assoc.get key tf = some (.map subTgt below)
      · obtain ⟨sub, fields, subTgt, below, same, found⟩ := both
        have held := mapsOf_of_get keys found
        have laidBelow : Laid cells ((subTgt, below) :: mapsOf below) :=
          laidTgt.sublist fun node member => held.mem_iff.mpr (List.mem_append_left _ member)
        have apartBelow : (subTgt :: (cellsOf below ++ cellsOf fields)).Nodup ∧
            tg ∉ subTgt :: (cellsOf below ++ cellsOf fields) := by
          have split := cellsOf_perm key keys
          rw [heldCells, found, Option.map_some, Option.getD_some] at split
          rw [cellsOf_cons, ((split.append_right _).cons tg).nodup_iff, same] at apart
          simp only [MapTree.cells_map, List.nodup_cons, List.nodup_append, List.mem_append, List.mem_cons] at apart ⊢
          grind
        obtain ⟨below', middle, ran, placed⟩ := doMergeState_laid tree sub fields same fuel subTgt below cells
          (Unique.head unique) (uniqueTgt.value (by rw [get_values, found]; rfl)) deepest laidBelow laidTree
          apartBelow.1
        rw [same]
        exact mergeOne_map keys here found ran placed apartBelow.2
      · have apartTree : tree.cells.Nodup ∧ tg ∉ tree.cells := by
          simp only [cellsOf_cons, List.nodup_cons, List.nodup_append, List.mem_append] at apart
          exact ⟨apart.2.2.1.1, fun member => apart.1 (.inr (.inl member))⟩
        refine mergeOne_bare keys here null ?_ (Unique.head unique) deepest laidTree apartTree.1 apartTree.2
        · intro fields below source target
          rw [get_values, Option.map_eq_some_iff] at target
          obtain ⟨old, found, target⟩ := target
          obtain ⟨sub, fields', rfl⟩ := value_eq_obj source
          obtain ⟨subTgt, below', rfl⟩ := value_eq_obj target
          exact both ⟨sub, fields', subTgt, below', rfl, found⟩
    obtain ⟨tf1, fresh, middle, stepped, stored⟩ := field
    obtain ⟨laid', laidRest', apart', within⟩ := stored.ready keys laidTgt laidRest apart
    have unique' : Unique (values tf1) := by
      rw [stored.values]
      exact uniqueTgt.put (overlay_unique tree.value _ (Unique.head unique) fun _ found => uniqueTgt.value found)
    obtain ⟨tf', after, ran, placed⟩ := mergeEach_laid rest fuel tg tf1 middle (Unique.tail unique) unique' shallow
      laid' laidRest' apart'
    refine ⟨tf', after, ?_, stored.placed keys within placed⟩
    change (mergeOne _ _ tg key tree.slot cells).bind _ = _
    rw [stepped]
    exact ran
termination_by structural rest => rest

end

/-- The merge in place: the target map is the overlay, and the source is where it was. -/
theorem mergeState_laid {fuel tgt src : Nat} {tf sf : Branches} {cells : Cells} (unique : Unique (values sf))
    (uniqueTgt : Unique (values tf)) (deep : (MapTree.map src sf).value.depth ≤ fuel)
    (laid : Laid cells (MapTree.map tgt tf).maps) (laidSrc : Laid cells (MapTree.map src sf).maps)
    (distinct : (MapTree.map tgt tf).cells.Nodup)
    (apart : ∀ c ∈ (MapTree.map src sf).cells, c ∉ (MapTree.map tgt tf).cells) :
    ∃ (tf' : Branches) (after : Cells), mergeState fuel tgt src cells = some after ∧
      values tf' = overlaid (values sf) (values tf) ∧ Laid after (MapTree.map tgt tf').maps ∧
      Laid after (MapTree.map src sf).maps := by
  obtain ⟨back, copiedCells, ranCopy, filled, copied⟩ :=
    deepCopyMap_laid (.map src sf) src sf rfl fuel cells unique deep laidSrc
  have grown := copied.grown
  rw [List.length_append, List.length_singleton] at grown
  have still : SameBut [] cells copiedCells := by
    intro c _ small
    rw [copied.others c (by simp; omega) (by simp; omega), List.getElem?_append_left small]
  have small : ∀ {maps : List (Nat × Branches)}, Laid cells maps → ∀ node ∈ maps, node.1 < cells.length :=
    fun laid node member => (List.getElem?_eq_some_iff.mp (laid node member)).1
  have later : ∀ c ∈ cells.length :: cellsOf back, cells.length ≤ c := by
    intro c member
    rcases List.mem_cons.mp member with rfl | member
    · exact Nat.le_refl _
    · have bounds := (copied.fresh c member).1
      rw [List.length_append] at bounds
      omega
  have below : ∀ c ∈ (MapTree.map tgt tf).cells, c < cells.length := by
    intro c member
    obtain ⟨node, inside, rfl⟩ := List.mem_map.mp member
    exact small laid node inside
  have apart' : (tgt :: (cellsOf tf ++ cellsOf back)).Nodup := by
    rw [← List.cons_append]
    refine List.nodup_append.mpr ⟨distinct, copied.distinct, ?_⟩
    intro c member c' member' same
    have bounds := below c member
    have bounds' := later c' (List.mem_cons_of_mem _ member')
    omega
  obtain ⟨tf', after, ran, placed⟩ := doMergeState_laid (.map cells.length back) cells.length back rfl fuel tgt tf
    copiedCells (by rw [MapTree.value, copied.values]; exact unique) uniqueTgt
    (by rw [MapTree.value, copied.values]; exact deep) (laid.frame still (by simp))
    (laid_cons.mpr ⟨filled, copied.laid⟩) apart'
  refine ⟨tf', after, ?_, ?_, placed.laid, ?_⟩
  · rw [mergeState, ranCopy]
    exact ran
  · rw [placed.values, copied.values]
  · refine (laidSrc.frame still (by simp)).frame placed.others fun node member written => ?_
    have bounds := small laidSrc node member
    rw [← List.cons_append, List.mem_append] at written
    rcases written with written | written
    · exact apart node.1 (List.mem_map_of_mem member) written
    · have bounds' := later node.1 (List.mem_cons_of_mem _ written)
      omega

end InPlace

/-- What a merge means: the leaves of the target, however the metadata is; the merge in
place leaves the same target, and the source as it was. -/
theorem merge_meaning (t s : Document) : ∃ t2 : Fields,
    (∀ path leaf, LeafAt (.obj t2) path leaf ↔
      LeafAt (.obj s.fields) path leaf ∨ LeafAt (.obj t.fields) path leaf ∧ Untouched (.obj s.fields) path) ∧
    (∀ clock allMeta updatedMeta merged,
      mergeState clock (some t.fields) s.fields allMeta updatedMeta = .ok merged → merged.1 = some t2) ∧
    (∀ clock allMeta, MirrorsMap t.fields allMeta →
      ∃ merged, mergeState clock (some t.fields) s.fields allMeta none = .ok merged) ∧
    ∀ (fuel tgt src : Nat) (tf sf : Branches) (cells : Cells), values tf = t.fields → values sf = s.fields →
      (MapTree.map src sf).value.depth ≤ fuel → Laid cells (MapTree.map tgt tf).maps → Laid cells (MapTree.map src sf).maps →
      (MapTree.map tgt tf).cells.Nodup → (∀ c ∈ (MapTree.map src sf).cells, c ∉ (MapTree.map tgt tf).cells) →
      ∃ (tf' : Branches) (after : Cells), InPlace.mergeState fuel tgt src cells = some after ∧ values tf' = t2 ∧
        Laid after (MapTree.map tgt tf').maps ∧ Laid after (MapTree.map src sf).maps := by
  refine ⟨overlaid s.fields t.fields, leafAt_overlaid s.unique, fun _ _ _ _ done => mergeState_tgt done, ?_, ?_⟩
  · intro clock allMeta mirrors
    obtain ⟨am, um, done, -⟩ := mergeState_mirrors s.unique mirrors clock
    exact ⟨_, done⟩
  · intro fuel tgt src tf sf cells target source deep laid laidSrc distinct apart
    rw [← target, ← source]
    exact InPlace.mergeState_laid (source ▸ s.unique) (target ▸ t.unique) deep laid laidSrc distinct apart

/-- `{"a":{"b":1}}` in cells 0 and 1. -/
def nestedTarget : Branches := [("a", .map 1 [("b", .plain (.num 1) rfl)])]

theorem null_bare : Value.null.isObject = false := rfl

/-- `{"a":{"b":null},"c":null}` in cells 2 and 3. -/
def nestedSource : Branches := [("a", .map 3 [("b", .plain .null null_bare)]), ("c", .plain .null null_bare)]

def nestedCells : Cells :=
  [slots nestedTarget, slots [("b", .plain (.num 1) rfl)], slots nestedSource, slots [("b", .plain .null null_bare)]]

theorem nestedTarget_laid : Laid nestedCells (MapTree.map 0 nestedTarget).maps :=
  laid_cons.mpr ⟨rfl, laid_cons.mpr ⟨rfl, fun _ member => absurd member List.not_mem_nil⟩⟩

theorem nestedSource_laid : Laid nestedCells (MapTree.map 2 nestedSource).maps :=
  laid_cons.mpr ⟨rfl, laid_cons.mpr ⟨rfl, fun _ member => absurd member List.not_mem_nil⟩⟩

theorem nested_merged : ∃ (tf' : Branches) (after : Cells), InPlace.mergeState 2 0 2 nestedCells = some after ∧
    Laid after (MapTree.map 0 tf').maps ∧ Laid after (MapTree.map 2 nestedSource).maps := by
  obtain ⟨t2, -, -, -, inPlace⟩ := merge_meaning ⟨values nestedTarget, by decide⟩ ⟨values nestedSource, by decide⟩
  obtain ⟨tf', after, ran, -, laid, kept⟩ := inPlace 2 0 2 nestedTarget nestedSource nestedCells rfl rfl (by decide)
    nestedTarget_laid nestedSource_laid (by decide) (by decide)
  exact ⟨tf', after, ran, laid, kept⟩

end Tio.Shadow
