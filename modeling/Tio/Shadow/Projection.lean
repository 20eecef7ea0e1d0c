import Tio.Core.Writes
import Tio.Json.Path
import Tio.Shadow.Columns
import Tio.Shadow.Delta

/-! The projection of a row on the select list of a query (`sqlparser.go`, `transmap.go`).
The list becomes a map from fields to output names, and a loop over that map builds the
row that is returned. -/

namespace Tio.Shadow

open Tio.Core Tio.Json

/-- A field expression and its alias, as the parser prints them. -/
structure AliasedExpr where
  expr : String
  as : String

inductive SelectExpr where
  | star
  | aliased (sel : AliasedExpr)

def splitKey (key : String) : List String := (splitDots key.toList).map String.ofList

namespace AliasedExpr

/-- The printed expression without the back quotes around it. -/
def field (sel : AliasedExpr) : String :=
  .ofList (((sel.expr.toList.dropWhile (· = '`')).reverse.dropWhile (· = '`')).reverse)

/-- The alias, or else the last segment of the path. -/
def outputName (sel : AliasedExpr) : String :=
  if sel.as = "" then (splitKey sel.field).getLast?.getD "" else sel.as

end AliasedExpr

def toSelectAlias (sel : List SelectExpr) : List (String × String) :=
  sel.foldl (fun selAlias sel => match sel with
    | .aliased asel => Assoc.set asel.field asel.outputName selAlias
    | .star => selAlias) []

/-- The loop over the keys; what is missing is nil, which is null. -/
def getPropFrom : (cur : Fields) → (keys : List String) → Value
  | _, [] => .null
  | cur, [k] => (Assoc.get k cur).getD .null
  | cur, k :: next :: rest =>
    match Assoc.get k cur with
    | some (.obj v) => getPropFrom v (next :: rest)
    | _ => .null

def getPropFromMap (m : Fields) (key : String) : Value := getPropFrom m (splitKey key)

/-- The alias map is given in the order in which the loop meets its entries. -/
def transMap (m : Fields) (p : List (String × String)) : Fields :=
  if p = [] then m
  else p.foldl (fun resM entry => match getPropFromMap m entry.1 with
    | .null => resM
    | propValue => Assoc.set entry.2 propValue resM) []

/-- The value of a field in the row, when it is present and not null. -/
def valueOf (row : Fields) (field : String) : Option Value :=
  match (Value.obj row).walk (splitKey field) with
  | some .null => none
  | found => found

/-- What the returned row contains, for the select list. -/
structure Projects (row : Fields) (list : List AliasedExpr) (res : Fields) : Prop where
  values : (list.map AliasedExpr.outputName).Nodup → ∀ sel ∈ list, ∀ value, valueOf row sel.field = some value →
    Assoc.get sel.outputName res = some value
  keys : ∀ name value, Assoc.get name res = some value →
    ∃ sel ∈ list, sel.outputName = name ∧ (valueOf row sel.field).isSome

/-- Two rows with the same keys and the same values. -/
def SameRow (left right : Fields) : Prop :=
  ∀ name, match Assoc.get name left, Assoc.get name right with
    | none, none => True
    | some value, some other => deepEqual value other = true
    | _, _ => False

/-- The item is the last one of the list with its field. -/
def LastSelected (list : List AliasedExpr) (sel : AliasedExpr) : Prop :=
  ∃ front back, list = front ++ sel :: back ∧ ∀ other ∈ back, other.field ≠ sel.field

/-- When the output names are distinct, no field with a value is selected under two of them;
and items with one output name agree, where they are the last ones with their fields. -/
structure Unambiguous (row : Fields) (list : List AliasedExpr) : Prop where
  once : (list.map AliasedExpr.outputName).Nodup → ∀ sel ∈ list, ∀ other ∈ list, sel.field = other.field →
    (valueOf row sel.field).isSome → sel.outputName = other.outputName
  agree : ∀ sel other value value', LastSelected list sel → LastSelected list other →
    sel.outputName = other.outputName → valueOf row sel.field = some value → valueOf row other.field = some value' →
    deepEqual value value' = true

/-- Reading a property walks the row. -/
theorem getPropFrom_eq (cur : Fields) {keys : List String} (filled : keys ≠ []) :
    getPropFrom cur keys = ((Value.obj cur).walk keys).getD .null := by
  fun_induction getPropFrom cur keys with
  | case1 cur => exact absurd rfl filled
  | case2 cur k =>
    rw [walk_obj_cons]
    cases Assoc.get k cur <;> simp
  | case3 cur k next rest v found ih =>
    rw [walk_obj_cons, found]
    exact ih (by simp)
  | case4 cur k next rest found =>
    rw [walk_obj_cons]
    cases held : Assoc.get k cur with
    | none => rfl
    | some value =>
      have plain : value.isObject = false := by
        by_contra object
        obtain ⟨v, rfl⟩ := isObject_eq_true.mp (by simpa using object)
        exact found v held
      rw [Option.bind_some, walk_cons_of_not_object plain]
      rfl

theorem splitKey_ne_nil (key : String) : splitKey key ≠ [] := by
  rw [splitKey]
  exact fun empty => splitDots_ne_nil _ (List.map_eq_nil_iff.mp empty)

/-- The pairs of output names and values that the loop writes. -/
def shown (row : Fields) (order : List (String × String)) : List (String × Value) :=
  order.filterMap fun entry => (valueOf row entry.1).map fun value => (entry.2, value)

theorem mem_shown {row : Fields} {order : List (String × String)} {name : String} {value : Value} :
    (name, value) ∈ shown row order ↔ ∃ field, (field, name) ∈ order ∧ valueOf row field = some value := by
  simp only [shown, List.mem_filterMap, Option.map_eq_some_iff, Prod.mk.injEq]
  constructor
  · rintro ⟨⟨field, name'⟩, member, value', held, rfl, rfl⟩
    exact ⟨field, member, held⟩
  · rintro ⟨field, member, held⟩
    exact ⟨(field, name), member, value, held, rfl, rfl⟩

theorem transMap_eq (row : Fields) {order : List (String × String)} (filled : order ≠ []) :
    transMap row order = Assoc.writeAll (shown row order) [] := by
  have step : ∀ (entry : String × String) (resM : Fields), (match getPropFromMap row entry.1 with
      | .null => resM
      | propValue => Assoc.set entry.2 propValue resM) =
      Assoc.writeAll ((valueOf row entry.1).map fun value => (entry.2, value)).toList resM := by
    intro entry resM
    rw [getPropFromMap, getPropFrom_eq row (splitKey_ne_nil entry.1), valueOf]
    cases (Value.obj row).walk (splitKey entry.1) with
    | none => rfl
    | some value => cases value <;> rfl
  rw [transMap, if_neg filled]
  generalize ([] : Fields) = resM
  clear filled
  induction order generalizing resM with
  | nil => rfl
  | cons entry rest ih =>
    rw [List.foldl_cons, ih, step, ← Assoc.writeAll_append]
    congr 1
    rw [shown, shown, List.filterMap_cons]
    cases valueOf row entry.1 <;> rfl

theorem get_transMap_iff {row : Fields} {order : List (String × String)} (filled : order ≠ []) {name : String}
    {value : Value} : Assoc.get name (transMap row order) = some value ↔
      Assoc.LastOf (shown row order) name value := by
  rw [transMap_eq row filled, Assoc.get_writeAll_iff]

/-- What the loop meets last is returned under its name. -/
theorem get_transMap_last {row : Fields} (order : List (String × String)) {field name : String} {value : Value}
    (held : valueOf row field = some value) :
    Assoc.get name (transMap row (order ++ [(field, name)])) = some value := by
  rw [get_transMap_iff (by simp)]
  refine ⟨shown row order, [], ?_, fun pair no => nomatch no⟩
  simp [shown, held]

theorem exists_get_transMap {row : Fields} {order : List (String × String)} {field name : String} {value : Value}
    (member : (field, name) ∈ order) (held : valueOf row field = some value) :
    ∃ value', Assoc.get name (transMap row order) = some value' := by
  have written : (name, value) ∈ shown row order := mem_shown.mpr ⟨field, member, held⟩
  obtain ⟨value', last⟩ := Assoc.exists_lastOf ⟨_, written, rfl⟩
  exact ⟨value', (get_transMap_iff (List.ne_nil_of_mem member)).mpr last⟩

/-- Every entry of the returned row stands for an entry of the alias map. -/
theorem entry_of_get {row : Fields} {order : List (String × String)} (filled : order ≠ []) {name : String}
    {value : Value} (found : Assoc.get name (transMap row order) = some value) :
    ∃ field, (field, name) ∈ order ∧ valueOf row field = some value :=
  mem_shown.mp ((get_transMap_iff filled).mp found).mem

def pairs (list : List AliasedExpr) : List (String × String) := list.map fun sel => (sel.field, sel.outputName)

theorem toSelectAlias_eq (list : List AliasedExpr) :
    toSelectAlias (list.map .aliased) = Assoc.writeAll (pairs list) [] := by
  rw [toSelectAlias, Assoc.writeAll, pairs, List.foldl_map, List.foldl_map]

/-- The alias map keeps the last item of every field. -/
theorem mem_toSelectAlias {list : List AliasedExpr} {field name : String} :
    (field, name) ∈ toSelectAlias (list.map .aliased) ↔
      ∃ sel, LastSelected list sel ∧ sel.field = field ∧ sel.outputName = name := by
  rw [toSelectAlias_eq, Assoc.mem_writeAll_iff]
  constructor
  · rintro ⟨front, back, split, fresh⟩
    obtain ⟨before, after, rfl, first, second⟩ := List.map_eq_append_iff.mp split
    obtain ⟨sel, behind, rfl, here, rfl⟩ := List.map_eq_cons_iff.mp second
    cases here
    exact ⟨sel, ⟨before, behind, rfl, fun other member => fresh _ (List.mem_map_of_mem member)⟩, rfl, rfl⟩
  · rintro ⟨sel, ⟨front, back, rfl, fresh⟩, rfl, rfl⟩
    refine ⟨pairs front, pairs back, by simp [pairs], fun pair member => ?_⟩
    obtain ⟨other, present, rfl⟩ := List.mem_map.mp member
    exact fresh other present

theorem LastSelected.mem {list : List AliasedExpr} {sel : AliasedExpr} (last : LastSelected list sel) : sel ∈ list := by
  obtain ⟨front, back, rfl, -⟩ := last
  exact List.mem_append_right front List.mem_cons_self

theorem toSelectAlias_ne_nil {list : List AliasedExpr} (filled : list ≠ []) :
    toSelectAlias (list.map .aliased) ≠ [] := by
  have split := List.dropLast_append_getLast filled
  have last : LastSelected list (list.getLast filled) :=
    ⟨list.dropLast, [], split.symm, fun other no => nomatch no⟩
  exact List.ne_nil_of_mem (mem_toSelectAlias.mpr ⟨_, last, rfl, rfl⟩)

theorem exists_lastSelected {list : List AliasedExpr} {sel : AliasedExpr} (member : sel ∈ list) :
    ∃ other, LastSelected list other ∧ other.field = sel.field := by
  have written : ∃ pair ∈ pairs list, pair.1 = sel.field := ⟨_, List.mem_map_of_mem member, rfl⟩
  obtain ⟨name, last⟩ := Assoc.exists_lastOf written
  have entry := Assoc.mem_writeAll_iff.mpr last
  rw [← toSelectAlias_eq] at entry
  obtain ⟨other, chosen, same, -⟩ := mem_toSelectAlias.mp entry
  exact ⟨other, chosen, same⟩

/-- Two items of one field that are both the last ones with it have one name. -/
theorem lastSelected_name {list : List AliasedExpr} {sel other : AliasedExpr} (last : LastSelected list sel)
    (last' : LastSelected list other) (same : sel.field = other.field) : sel.outputName = other.outputName := by
  have distinct : (Assoc.keys (toSelectAlias (list.map .aliased))).Nodup := by
    rw [toSelectAlias_eq]
    exact Assoc.nodup_keys_writeAll _ List.nodup_nil
  have first := Assoc.get_of_mem distinct (mem_toSelectAlias.mpr ⟨sel, last, rfl, rfl⟩)
  have second := Assoc.get_of_mem distinct (mem_toSelectAlias.mpr ⟨other, last', rfl, rfl⟩)
  rw [same, second] at first
  exact (Option.some.inj first).symm

section

variable {row : Fields} {list : List AliasedExpr} {order : List (String × String)}

/-- Every entry of the returned row stands for an item of the list. -/
theorem item_of_get (filled : list ≠ []) (perm : order.Perm (toSelectAlias (list.map .aliased))) {name : String}
    {value : Value} (found : Assoc.get name (transMap row order) = some value) :
    ∃ sel, LastSelected list sel ∧ sel.outputName = name ∧ valueOf row sel.field = some value := by
  have full : order ≠ [] := fun empty => toSelectAlias_ne_nil filled (List.nil_perm.mp (empty ▸ perm))
  obtain ⟨field, member, held⟩ := entry_of_get full found
  obtain ⟨sel, last, rfl, rfl⟩ := mem_toSelectAlias.mp (perm.mem_iff.mp member)
  exact ⟨sel, last, rfl, held⟩

theorem exists_get_of_last (perm : order.Perm (toSelectAlias (list.map .aliased))) {sel : AliasedExpr}
    (last : LastSelected list sel) {value : Value} (held : valueOf row sel.field = some value) :
    ∃ value', Assoc.get sel.outputName (transMap row order) = some value' :=
  exists_get_transMap (perm.mem_iff.mpr (mem_toSelectAlias.mpr ⟨sel, last, rfl, rfl⟩)) held

theorem projects_of_unambiguous (filled : list ≠ []) (unambiguous : Unambiguous row list)
    (perm : order.Perm (toSelectAlias (list.map .aliased))) : Projects row list (transMap row order) := by
  constructor
  · intro distinct sel member value held
    obtain ⟨latest, last, field⟩ := exists_lastSelected member
    have name := unambiguous.once distinct sel member latest last.mem field.symm (by rw [held]; rfl)
    rw [← List.inj_on_of_nodup_map distinct member last.mem name] at last
    obtain ⟨value', found⟩ := exists_get_of_last perm last held
    obtain ⟨other, chosen, same, held'⟩ := item_of_get filled perm found
    rw [List.inj_on_of_nodup_map distinct chosen.mem member same] at held'
    rw [found, ← held', held]
  · intro name value found
    obtain ⟨sel, last, same, held⟩ := item_of_get filled perm found
    exact ⟨sel, last.mem, same, by rw [held]; rfl⟩

theorem sameRow_of_unambiguous (filled : list ≠ []) (unambiguous : Unambiguous row list)
    {order' : List (String × String)} (perm : order.Perm (toSelectAlias (list.map .aliased)))
    (perm' : order'.Perm (toSelectAlias (list.map .aliased))) :
    SameRow (transMap row order) (transMap row order') := by
  intro name
  cases left : Assoc.get name (transMap row order) with
  | some value =>
    obtain ⟨sel, last, rfl, held⟩ := item_of_get filled perm left
    obtain ⟨value', right⟩ := exists_get_of_last perm' last held
    obtain ⟨other, last', same, held'⟩ := item_of_get filled perm' right
    rw [right]
    exact unambiguous.agree sel other value value' last last' same.symm held held'
  | none =>
    cases right : Assoc.get name (transMap row order') with
    | none => exact trivial
    | some value =>
      obtain ⟨sel, last, rfl, held⟩ := item_of_get filled perm' right
      obtain ⟨value', found⟩ := exists_get_of_last perm last held
      rw [left] at found
      cases found

/-- Any entry of the alias map may be met last. -/
theorem exists_order_last {entry : String × String} (member : entry ∈ toSelectAlias (list.map .aliased)) :
    ∃ front, (front ++ [entry]).Perm (toSelectAlias (list.map .aliased)) :=
  ⟨_, (List.perm_append_singleton entry _).trans (List.perm_cons_erase member).symm⟩

theorem unambiguous_of_projects (filled : list ≠ [])
    (projects : ∀ order : List (String × String), order.Perm (toSelectAlias (list.map .aliased)) →
      Projects row list (transMap row order))
    (same : ∀ order order' : List (String × String), order.Perm (toSelectAlias (list.map .aliased)) →
      order'.Perm (toSelectAlias (list.map .aliased)) → SameRow (transMap row order) (transMap row order')) :
    Unambiguous row list := by
  constructor
  · intro distinct sel member other member' equal held
    have last : ∀ item ∈ list, (valueOf row item.field).isSome → LastSelected list item := by
      intro item present held
      obtain ⟨value, held⟩ := Option.isSome_iff_exists.mp held
      have found := (projects _ (.refl _)).values distinct item present value held
      obtain ⟨chosen, last, name, -⟩ := item_of_get filled (.refl _) found
      rwa [List.inj_on_of_nodup_map distinct last.mem present name] at last
    exact lastSelected_name (last sel member held) (last other member' (equal ▸ held)) equal
  · intro sel other value value' last last' name held held'
    obtain ⟨front, perm⟩ := exists_order_last (mem_toSelectAlias.mpr ⟨sel, last, rfl, rfl⟩)
    obtain ⟨front', perm'⟩ := exists_order_last (mem_toSelectAlias.mpr ⟨other, last', rfl, rfl⟩)
    have alike := same _ _ perm perm' sel.outputName
    rw [get_transMap_last front held, name, get_transMap_last front' held'] at alike
    exact alike

end

end Tio.Shadow
