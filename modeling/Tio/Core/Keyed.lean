import Mathlib.Data.List.Nodup

/-! Tables of rows with a primary key. No two rows of a table have the same key: an
insertion of a key that is there is refused, and saving a row takes the place of the
one that has its key. -/

namespace Tio.Core

universe u v

structure Keyed {Row : Type u} {Key : Type v} (key : Row → Key) where
  rows : List Row
  primaryKey : (rows.map key).Nodup

namespace Keyed

variable {Row : Type u} {Key : Type v} {key : Row → Key}

def keys (table : Keyed key) : List Key := table.rows.map key

def empty (key : Row → Key) : Keyed key := ⟨[], List.nodup_nil⟩

theorem mem_keys {table : Keyed key} {k : Key} : k ∈ table.keys ↔ ∃ row ∈ table.rows, key row = k :=
  List.mem_map

/-- The rows are changed, none of them in its key. -/
def change (table : Keyed key) (rows : List Row) (same : rows.map key = table.keys) : Keyed key :=
  ⟨rows, by rw [same]; exact table.primaryKey⟩

@[simp] theorem keys_change (table : Keyed key) (rows : List Row) (same : rows.map key = table.keys) :
    (table.change rows same).keys = table.keys := same

section

variable [DecidableEq Key]

def find (k : Key) (table : Keyed key) : Option Row := table.rows.find? fun row => key row = k

theorem find_mem {table : Keyed key} {k : Key} {row : Row} (found : table.find k = some row) :
    row ∈ table.rows ∧ key row = k :=
  ⟨List.mem_of_find?_eq_some found, of_decide_eq_true (List.find?_some (p := fun row => decide (key row = k)) found)⟩

theorem find_eq_none_iff {table : Keyed key} {k : Key} : table.find k = none ↔ k ∉ table.keys := by
  rw [find, List.find?_eq_none, mem_keys]
  constructor
  · rintro all ⟨row, member, same⟩
    exact all row member (decide_eq_true same)
  · intro missing row member same
    exact missing ⟨row, member, of_decide_eq_true same⟩

/-- `none` when the key is taken. -/
def insert (row : Row) (table : Keyed key) : Option (Keyed key) :=
  if taken : key row ∈ table.keys then none
  else some ⟨table.rows ++ [row], by
    rw [List.map_append, List.map_cons, List.map_nil, ← List.concat_eq_append]
    exact table.primaryKey.concat taken⟩

theorem insert_eq_some_iff {table next : Keyed key} {row : Row} :
    table.insert row = some next ↔ key row ∉ table.keys ∧ next.rows = table.rows ++ [row] := by
  rw [insert]
  split
  · rename_i taken
    exact iff_of_false (by simp) fun both => both.1 taken
  · rename_i fresh
    rw [Option.some.injEq]
    refine ⟨fun same => ⟨fresh, same ▸ rfl⟩, fun both => ?_⟩
    obtain ⟨rows, primaryKey⟩ := next
    obtain rfl : rows = table.rows ++ [row] := both.2
    rfl

theorem mem_keys_insert {table next : Keyed key} {row : Row} (inserted : table.insert row = some next)
    {k : Key} : k ∈ next.keys ↔ k ∈ table.keys ∨ k = key row := by
  rw [keys, (insert_eq_some_iff.mp inserted).2, List.map_append, List.mem_append, List.map_cons,
    List.map_nil, List.mem_singleton, keys]

/-- The row with the same key is replaced; without one the row is added. -/
def saveRow (key : Row → Key) (row : Row) : List Row → List Row
  | [] => [row]
  | other :: rest => if key other = key row then row :: rest else other :: saveRow key row rest

theorem map_saveRow (row : Row) (rows : List Row) :
    (saveRow key row rows).map key =
      if key row ∈ rows.map key then rows.map key else rows.map key ++ [key row] := by
  induction rows with
  | nil => rfl
  | cons other rest ih =>
    rw [saveRow]
    by_cases same : key other = key row
    · rw [if_pos same, List.map_cons, List.map_cons, same, if_pos List.mem_cons_self]
    · rw [if_neg same, List.map_cons, ih, List.map_cons]
      have apart : key row ≠ key other := Ne.symm same
      by_cases held : key row ∈ rest.map key
      · rw [if_pos held, if_pos (List.mem_cons_of_mem _ held)]
      · rw [if_neg held, if_neg fun member => (List.mem_cons.mp member).elim apart held, List.cons_append]

theorem mem_saveRow {row other : Row} {rows : List Row} (member : other ∈ saveRow key row rows) :
    other = row ∨ other ∈ rows := by
  induction rows with
  | nil => exact .inl (List.mem_singleton.mp member)
  | cons first rest ih =>
    rw [saveRow] at member
    split at member
    · rcases List.mem_cons.mp member with same | later
      · exact .inl same
      · exact .inr (List.mem_cons_of_mem _ later)
    · rcases List.mem_cons.mp member with rfl | later
      · exact .inr List.mem_cons_self
      · exact (ih later).imp_right (List.mem_cons_of_mem _)

def save (row : Row) (table : Keyed key) : Keyed key :=
  ⟨saveRow key row table.rows, by
    rw [map_saveRow]
    split
    · exact table.primaryKey
    · rename_i fresh
      rw [← List.concat_eq_append]
      exact table.primaryKey.concat fresh⟩

theorem mem_keys_save {table : Keyed key} {row : Row} {k : Key} :
    k ∈ (table.save row).keys ↔ k ∈ table.keys ∨ k = key row := by
  rw [keys, save, map_saveRow, ← keys]
  split
  · rename_i held
    exact ⟨.inl, fun either => either.elim id fun same => same ▸ held⟩
  · rw [List.mem_append, List.mem_singleton]

theorem mem_save {table : Keyed key} {row other : Row} (member : other ∈ (table.save row).rows) :
    other = row ∨ other ∈ table.rows := mem_saveRow member

def delete (k : Key) (table : Keyed key) : Keyed key :=
  ⟨table.rows.filter fun row => key row ≠ k, table.primaryKey.sublist (List.filter_sublist.map key)⟩

theorem mem_keys_delete {table : Keyed key} {k other : Key} :
    other ∈ (table.delete k).keys ↔ other ∈ table.keys ∧ other ≠ k := by
  rw [mem_keys, mem_keys]
  constructor
  · rintro ⟨row, member, rfl⟩
    obtain ⟨held, kept⟩ := List.mem_filter.mp member
    exact ⟨⟨row, held, rfl⟩, of_decide_eq_true kept⟩
  · rintro ⟨⟨row, held, rfl⟩, kept⟩
    exact ⟨row, List.mem_filter.mpr ⟨held, decide_eq_true kept⟩, rfl⟩

theorem mem_delete {table : Keyed key} {k : Key} {row : Row} (member : row ∈ (table.delete k).rows) :
    row ∈ table.rows := (List.mem_filter.mp member).1

end

end Keyed

end Tio.Core
