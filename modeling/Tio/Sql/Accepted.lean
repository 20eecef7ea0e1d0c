import Tio.Sql.Steps

namespace Tio.Sql

open Tio.Core

/-- A name that a command may have. -/
def Name (name : Text) : Prop := isIdentifier name = true ∧ Quoted name

/-- The fields of a selection, and what they are called. -/
structure Chosen (fields : List Text) (aliases : List (Text × Text)) : Prop where
  chosen : ∀ field ∈ fields, isIdentifierOrAsterisk field = true ∧ Quoted field
  named : ∀ entry ∈ aliases, entry.1 ∈ fields ∧ Name entry.2
  distinct : (Assoc.keys aliases).Nodup

/-- The new values of an update. -/
structure Assigned (updates : List (Text × Text)) : Prop where
  named : ∀ entry ∈ updates, Name entry.1 ∧ Quoted entry.2
  distinct : (Assoc.keys updates).Nodup

/-- A condition of which the first operand at least was read. -/
structure Begun (c : Condition) : Prop where
  operand1 : Name c.operand1
  operand1IsField : c.operand1IsField = true
  operand2 : Quoted c.operand2
  operand2IsField : c.operand2IsField = isIdentifier c.operand2

/-- The command before its conditions. -/
inductive Filters : Query → Prop
  | select (tableName : Text) (conditions : List Condition) (fields : List Text) (aliases : List (Text × Text))
      (table : Quoted tableName) (begun : ∀ c ∈ conditions, Begun c) (chosen : Chosen fields aliases)
      (filled : fields ≠ []) : Filters ⟨.select, tableName, conditions, none, [], fields, aliases⟩
  | update (tableName : Text) (conditions : List Condition) (updates : List (Text × Text))
      (table : Quoted tableName) (begun : ∀ c ∈ conditions, Begun c) (assigned : Assigned updates)
      (filled : updates ≠ []) : Filters ⟨.update, tableName, conditions, some updates, [], [], []⟩
  | delete (tableName : Text) (conditions : List Condition)
      (table : Quoted tableName) (begun : ∀ c ∈ conditions, Begun c) :
      Filters ⟨.delete, tableName, conditions, none, [], [], []⟩

/-- The rows of an insertion so far. -/
def Inserts (q : Query) (tableName : Text) (fields : List Text) (inserts : List (List Text)) : Prop :=
  q = ⟨.insert, tableName, [], none, inserts, fields, []⟩ ∧ Quoted tableName ∧ (∀ field ∈ fields, Name field) ∧
    ∀ row ∈ inserts, ∀ value ∈ row, Quoted value

/-- The query so far, and the name that waits for its value, at each step. -/
def Shape (q : Query) (nextUpdateField : Text) : Step → Prop
  | .type => q = ⟨.unknownType, [], [], none, [], [], []⟩
  | .selectField => ∃ fields aliases, q = ⟨.select, [], [], none, [], fields, aliases⟩ ∧ Chosen fields aliases
  | .selectComma | .selectFrom | .selectFromTable =>
    ∃ fields aliases, q = ⟨.select, [], [], none, [], fields, aliases⟩ ∧ Chosen fields aliases ∧ fields ≠ []
  | .insertTable => q = ⟨.insert, [], [], none, [], [], []⟩
  | .insertFieldsOpeningParens | .insertFields => ∃ tableName fields, Inserts q tableName fields []
  | .insertFieldsCommaOrClosingParens | .insertValuesRWord =>
    ∃ tableName fields, Inserts q tableName fields [] ∧ fields ≠ []
  | .insertValuesOpeningParens => ∃ tableName fields inserts, Inserts q tableName fields inserts ∧ fields ≠ []
  | .insertValues | .insertValuesCommaOrClosingParens | .insertValuesCommaBeforeOpeningParens =>
    ∃ tableName fields inserts, Inserts q tableName fields inserts ∧ fields ≠ [] ∧ inserts ≠ []
  | .updateTable => q = ⟨.update, [], [], some [], [], [], []⟩
  | .updateSet | .updateField => ∃ tableName updates,
    q = ⟨.update, tableName, [], some updates, [], [], []⟩ ∧ Quoted tableName ∧ Assigned updates
  | .updateEquals | .updateValue => ∃ tableName updates,
    q = ⟨.update, tableName, [], some updates, [], [], []⟩ ∧ Quoted tableName ∧ Assigned updates ∧ Name nextUpdateField
  | .updateComma => ∃ tableName updates,
    q = ⟨.update, tableName, [], some updates, [], [], []⟩ ∧ Quoted tableName ∧ Assigned updates ∧ updates ≠ []
  | .deleteFromTable => q = ⟨.delete, [], [], none, [], [], []⟩
  | .where_ | .whereField => Filters q
  | .whereOperator | .whereValue | .whereAnd => Filters q ∧ q.conditions ≠ []

section

variable {q : Query} {c : Condition} {conditions : List Condition}

theorem name_peek {p : Parser} (named : isIdentifier p.peek = true) : Name p.peek :=
  ⟨named, quoted_peekWithLength p.sql⟩

/-- The conditions are replaced by ones that were begun as well. -/
theorem Filters.withConditions (filters : Filters q) (begun : ∀ c ∈ conditions, Begun c) :
    Filters { q with conditions := conditions } := by
  cases filters with
  | select tableName _ fields aliases table _ chosen filled =>
    exact .select tableName conditions fields aliases table begun chosen filled
  | update tableName _ updates table _ assigned filled =>
    exact .update tableName conditions updates table begun assigned filled
  | delete tableName _ table _ => exact .delete tableName conditions table begun

theorem Filters.begun (filters : Filters q) : ∀ c ∈ q.conditions, Begun c := by
  cases filters <;> assumption

/-- The last condition takes a change. -/
theorem Filters.changeLast (filters : Filters q) (changed : Begun c) :
    Filters { q with conditions := q.conditions.dropLast ++ [c] } := by
  refine filters.withConditions fun other member => ?_
  rcases List.mem_append.mp member with old | last
  · exact filters.begun other ((List.dropLast_sublist _).subset old)
  · exact List.mem_singleton.mp last ▸ changed

theorem Chosen.field {fields : List Text} {aliases : List (Text × Text)} {field : Text} (chosen : Chosen fields aliases)
    (named : isIdentifierOrAsterisk field = true) (quoted : Quoted field) : Chosen (fields ++ [field]) aliases := by
  refine ⟨fun other member => ?_, fun entry member => ?_, chosen.distinct⟩
  · rcases List.mem_append.mp member with old | last
    · exact chosen.chosen other old
    · exact List.mem_singleton.mp last ▸ ⟨named, quoted⟩
  · exact ⟨List.mem_append_left _ (chosen.named entry member).1, (chosen.named entry member).2⟩

theorem Assigned.set {updates : List (Text × Text)} {name value : Text} (assigned : Assigned updates)
    (named : Name name) (quoted : Quoted value) : Assigned (Assoc.set name value updates) := by
  refine ⟨fun entry member => ?_, Assoc.nodup_keys_set assigned.distinct⟩
  rcases Assoc.mem_set member with rfl | old
  · exact ⟨named, quoted⟩
  · exact assigned.named entry old

theorem Chosen.set {fields : List Text} {aliases : List (Text × Text)} {field alias_ : Text}
    (chosen : Chosen fields aliases) (listed : field ∈ fields) (named : Name alias_) :
    Chosen fields (Assoc.set field alias_ aliases) := by
  refine ⟨chosen.chosen, fun entry member => ?_, Assoc.nodup_keys_set chosen.distinct⟩
  rcases Assoc.mem_set member with rfl | old
  · exact ⟨listed, named⟩
  · exact chosen.named entry old

theorem set_ne_nil {Key Value : Type} [DecidableEq Key] (key : Key) (value : Value) (entries : List (Key × Value)) :
    Assoc.set key value entries ≠ [] := by
  intro empty
  have found := Assoc.get_set_self key value entries
  rw [empty] at found
  cases found

variable {p p' : Parser}

theorem shape_type (shape : Shape p.query p.nextUpdateField .type) (taken : p.type = .ok p') :
    Shape p'.query p'.nextUpdateField p'.step := by
  obtain ⟨type, onward, begins, moved⟩ := Parser.type_ok taken
  have shape : p.query = ⟨.unknownType, [], [], none, [], [], []⟩ := shape
  rw [moved.query, moved.step, shape]
  simp only [Parser.Begins, List.mem_cons, Prod.mk.injEq, List.not_mem_nil, or_false] at begins
  rcases begins with ⟨rfl, rfl⟩ | ⟨rfl, rfl⟩ | ⟨rfl, rfl⟩ | ⟨rfl, rfl⟩
  · exact ⟨[], [], rfl, by simp, by simp, List.nodup_nil⟩
  · rfl
  · rfl
  · rfl

theorem shape_selectField (shape : Shape p.query p.nextUpdateField .selectField) (taken : p.selectField = .ok p') :
    Shape p'.query p'.nextUpdateField p'.step := by
  obtain ⟨named, onward, -, aliases', given, query⟩ := Parser.selectField_ok taken
  obtain ⟨fields, aliases, same, chosen⟩ := shape
  rw [same] at given query
  have more := chosen.field named (quoted_peekWithLength p.sql)
  have shape : ∃ fields aliases, p'.query = ⟨.select, [], [], none, [], fields, aliases⟩ ∧ Chosen fields aliases ∧
      fields ≠ [] := by
    refine ⟨fields ++ [p.peek], aliases', query, ?_, by simp⟩
    rcases given with rfl | ⟨alias_, known, quoted, rfl⟩
    · exact more
    · exact more.set (by simp) ⟨known, quoted⟩
  rcases onward with here | here <;> exact here ▸ shape

theorem shape_table {onward : Step} {message : String} (here : p.step = .selectFromTable ∧ onward = .where_ ∨
      p.step = .insertTable ∧ onward = .insertFieldsOpeningParens ∨ p.step = .updateTable ∧ onward = .updateSet ∨
      p.step = .deleteFromTable ∧ onward = .where_) (shape : Shape p.query p.nextUpdateField p.step)
    (taken : p.table onward message = .ok p') : Shape p'.query p'.nextUpdateField p'.step := by
  obtain ⟨-, moved⟩ := Parser.table_ok taken
  have quoted : Quoted p.peek := quoted_peekWithLength p.sql
  rw [moved.query, moved.step]
  rcases here with ⟨here, rfl⟩ | ⟨here, rfl⟩ | ⟨here, rfl⟩ | ⟨here, rfl⟩ <;> rw [here] at shape
  · obtain ⟨fields, aliases, same, chosen, filled⟩ := shape
    rw [same]
    exact .select p.peek [] fields aliases quoted (by simp) chosen filled
  · have shape : p.query = _ := shape
    rw [shape]
    exact ⟨p.peek, [], rfl, quoted, by simp, by simp⟩
  · have shape : p.query = _ := shape
    rw [shape]
    exact ⟨p.peek, [], rfl, quoted, by simp, List.nodup_nil⟩
  · have shape : p.query = _ := shape
    rw [shape]
    exact .delete p.peek [] quoted (by simp)

theorem shape_updateField (shape : Shape p.query p.nextUpdateField .updateField) (taken : p.updateField = .ok p') :
    Shape p'.query p'.nextUpdateField p'.step := by
  obtain ⟨named, waits, moved⟩ := Parser.updateField_ok taken
  obtain ⟨tableName, updates, same, table, assigned⟩ := shape
  rw [moved.query, moved.step, waits]
  exact ⟨tableName, updates, same, table, assigned, name_peek named⟩

theorem shape_updateValue (shape : Shape p.query p.nextUpdateField .updateValue)
    (taken : p.updateValue = some (.ok p')) : Shape p'.query p'.nextUpdateField p'.step := by
  obtain ⟨onward, updates', here, made, moved⟩ := Parser.updateValue_ok taken
  obtain ⟨tableName, updates, same, table, assigned, named⟩ := shape
  rw [same] at made
  obtain rfl : updates = updates' := Option.some.inj made
  have more := assigned.set named (quoted_peekWithLength p.sql)
  have filled := set_ne_nil p.nextUpdateField p.peek updates
  rw [moved.query, moved.step, same]
  rcases here with rfl | rfl
  · exact .update tableName [] _ table (by simp) more filled
  · exact ⟨tableName, _, rfl, table, more, filled⟩

theorem shape_whereField (shape : Shape p.query p.nextUpdateField .whereField) (taken : p.whereField = .ok p') :
    Shape p'.query p'.nextUpdateField p'.step := by
  obtain ⟨named, moved⟩ := Parser.whereField_ok taken
  have filters : Filters p.query := shape
  rw [moved.query, moved.step]
  refine ⟨filters.withConditions fun c member => ?_, by simp⟩
  rcases List.mem_append.mp member with old | last
  · exact filters.begun c old
  · cases List.mem_singleton.mp last
    exact ⟨name_peek named, rfl, (by decide : Quoted []), rfl⟩

theorem shape_whereOperator (shape : Shape p.query p.nextUpdateField .whereOperator)
    (taken : p.whereOperator = some (.ok p')) : Shape p'.query p'.nextUpdateField p'.step := by
  obtain ⟨c, operator, last, moved⟩ := Parser.whereOperator_ok taken
  obtain ⟨filters, -⟩ := shape
  have begun := filters.begun c (List.mem_of_getLast? last)
  rw [moved.query, moved.step]
  exact ⟨filters.changeLast ⟨begun.operand1, begun.operand1IsField, begun.operand2, begun.operand2IsField⟩, by simp⟩

theorem shape_whereValue (shape : Shape p.query p.nextUpdateField .whereValue)
    (taken : p.whereValue = some (.ok p')) : Shape p'.query p'.nextUpdateField p'.step := by
  obtain ⟨c, last, moved⟩ := Parser.whereValue_ok taken
  obtain ⟨filters, -⟩ := shape
  have begun := filters.begun c (List.mem_of_getLast? last)
  rw [moved.query, moved.step]
  exact ⟨filters.changeLast ⟨begun.operand1, begun.operand1IsField, quoted_peekWithLength p.sql, rfl⟩, by simp⟩

theorem shape_insertFields (shape : Shape p.query p.nextUpdateField .insertFields) (taken : p.insertFields = .ok p') :
    Shape p'.query p'.nextUpdateField p'.step := by
  obtain ⟨named, moved⟩ := Parser.insertFields_ok taken
  obtain ⟨tableName, fields, same, table, names, rows⟩ := shape
  rw [moved.query, moved.step, same]
  refine ⟨tableName, fields ++ [p.peek], ⟨rfl, table, fun field member => ?_, rows⟩, by simp⟩
  rcases List.mem_append.mp member with old | last
  · exact names field old
  · exact List.mem_singleton.mp last ▸ name_peek named

theorem shape_insertValuesOpeningParens (shape : Shape p.query p.nextUpdateField .insertValuesOpeningParens)
    (taken : p.insertValuesOpeningParens = .ok p') : Shape p'.query p'.nextUpdateField p'.step := by
  have moved := Parser.insertValuesOpeningParens_ok taken
  obtain ⟨tableName, fields, inserts, ⟨same, table, names, rows⟩, filled⟩ := shape
  rw [moved.query, moved.step, same]
  refine ⟨tableName, fields, inserts ++ [[]], ⟨rfl, table, names, fun row member => ?_⟩, filled, by simp⟩
  rcases List.mem_append.mp member with old | last
  · exact rows row old
  · cases List.mem_singleton.mp last
    simp

theorem shape_insertValues (shape : Shape p.query p.nextUpdateField .insertValues)
    (taken : p.insertValues = some (.ok p')) : Shape p'.query p'.nextUpdateField p'.step := by
  obtain ⟨row, last, moved⟩ := Parser.insertValues_ok taken
  obtain ⟨tableName, fields, inserts, ⟨same, table, names, rows⟩, filled, -⟩ := shape
  rw [same] at last
  have begun := rows row (List.mem_of_getLast? last)
  rw [moved.query, moved.step, same]
  refine ⟨tableName, fields, inserts.dropLast ++ [row ++ [p.peek]], ⟨rfl, table, names, fun other member => ?_⟩, filled,
    by simp⟩
  rcases List.mem_append.mp member with old | new
  · exact rows other ((List.dropLast_sublist _).subset old)
  · cases List.mem_singleton.mp new
    intro value within
    rcases List.mem_append.mp within with before | here
    · exact begun value before
    · exact List.mem_singleton.mp here ▸ quoted_peekWithLength p.sql

/-- The words and signs between the parts of a command say nothing of the query. -/
theorem shape_pass {nextUpdateField : Text} {onward : Step} : {here : Step} → (passes : (here, onward) ∈
    [(Step.selectComma, Step.selectField), (.selectFrom, .selectFromTable), (.updateSet, .updateField),
      (.updateEquals, .updateValue), (.updateComma, .updateField), (.where_, .whereField), (.whereAnd, .whereField),
      (.insertFieldsOpeningParens, .insertFields), (.insertFieldsCommaOrClosingParens, .insertFields),
      (.insertFieldsCommaOrClosingParens, .insertValuesRWord), (.insertValuesRWord, .insertValuesOpeningParens),
      (.insertValuesCommaOrClosingParens, .insertValues),
      (.insertValuesCommaOrClosingParens, .insertValuesCommaBeforeOpeningParens),
      (.insertValuesCommaBeforeOpeningParens, .insertValuesOpeningParens)]) →
    Shape q nextUpdateField here → Shape q nextUpdateField onward := by
  intro here passes shape
  simp only [List.mem_cons, Prod.mk.injEq, List.not_mem_nil, or_false] at passes
  rcases passes with ⟨rfl, rfl⟩ | ⟨rfl, rfl⟩ | ⟨rfl, rfl⟩ | ⟨rfl, rfl⟩ | ⟨rfl, rfl⟩ | ⟨rfl, rfl⟩ | ⟨rfl, rfl⟩ |
    ⟨rfl, rfl⟩ | ⟨rfl, rfl⟩ | ⟨rfl, rfl⟩ | ⟨rfl, rfl⟩ | ⟨rfl, rfl⟩ | ⟨rfl, rfl⟩ | ⟨rfl, rfl⟩
  · obtain ⟨fields, aliases, same, chosen, -⟩ := shape
    exact ⟨fields, aliases, same, chosen⟩
  · exact shape
  · exact shape
  · exact shape
  · obtain ⟨tableName, updates, same, table, assigned, -⟩ := shape
    exact ⟨tableName, updates, same, table, assigned⟩
  · exact shape
  · exact shape.1
  · exact shape
  · obtain ⟨tableName, fields, inserts, -⟩ := shape
    exact ⟨tableName, fields, inserts⟩
  · exact shape
  · obtain ⟨tableName, fields, inserts, filled⟩ := shape
    exact ⟨tableName, fields, [], inserts, filled⟩
  · exact shape
  · exact shape
  · obtain ⟨tableName, fields, rows, inserts, filled, -⟩ := shape
    exact ⟨tableName, fields, rows, inserts, filled⟩

theorem shape_next (shape : Shape p.query p.nextUpdateField p.step) (taken : p.next = some (.ok p')) :
    Shape p'.query p'.nextUpdateField p'.step := by
  have passed : ∀ {onward : Step}, Shape p.query p.nextUpdateField onward →
      p'.nextUpdateField = p.nextUpdateField ∧ Parser.Moved p onward id p' →
      Shape p'.query p'.nextUpdateField p'.step := by
    rintro onward after ⟨waits, moved⟩
    rwa [moved.query, moved.step, waits]
  cases here : p.step <;> simp only [Parser.next, here, Option.some.injEq] at taken
  case type => exact shape_type (here ▸ shape) taken
  case selectField => exact shape_selectField (here ▸ shape) taken
  case selectFromTable | insertTable | updateTable | deleteFromTable => exact shape_table (by simp [here]) shape taken
  case updateField => exact shape_updateField (here ▸ shape) taken
  case updateValue => exact shape_updateValue (here ▸ shape) taken
  case whereField => exact shape_whereField (here ▸ shape) taken
  case whereOperator => exact shape_whereOperator (here ▸ shape) taken
  case whereValue => exact shape_whereValue (here ▸ shape) taken
  case insertFields => exact shape_insertFields (here ▸ shape) taken
  case insertValuesOpeningParens => exact shape_insertValuesOpeningParens (here ▸ shape) taken
  case insertValues => exact shape_insertValues (here ▸ shape) taken
  case insertFieldsCommaOrClosingParens =>
    obtain ⟨onward, goes, moved⟩ := Parser.insertFieldsCommaOrClosingParens_ok taken
    rcases goes with rfl | rfl <;> exact passed (shape_pass (by simp) (here ▸ shape)) moved
  case insertValuesCommaOrClosingParens =>
    obtain ⟨onward, goes, moved⟩ := Parser.insertValuesCommaOrClosingParens_ok taken
    rcases goes with rfl | rfl <;> exact passed (shape_pass (by simp) (here ▸ shape)) moved
  case selectComma | updateSet | updateEquals | updateComma | insertFieldsOpeningParens =>
    exact passed (shape_pass (by simp) (here ▸ shape)) (Parser.token_ok (by decide) taken)
  case selectFrom | where_ | whereAnd | insertValuesRWord | insertValuesCommaBeforeOpeningParens =>
    exact passed (shape_pass (by simp) (here ▸ shape)) (Parser.word_ok (by decide) taken)

/-- No index is out of range, and the map of an update is there. -/
theorem next_answers (going : p.ended = false) (shape : Shape p.query p.nextUpdateField p.step) : p.next.isSome := by
  have filled : p.sql ≠ [] := by simpa [Parser.ended] using going
  have quoted : peekQuotedStringWithLength p.sql = some (quotedString p.sql) := if_neg filled
  have last : ∀ {α : Type} {l : List α}, l ≠ [] → ∃ x, l.getLast? = some x := fun {_ l} nonempty =>
    ⟨l.getLast nonempty, List.getLast?_eq_some_getLast nonempty⟩
  cases here : p.step <;> simp only [Parser.next, here, Option.isSome_some]
  case updateValue =>
    rw [here] at shape
    obtain ⟨tableName, updates, same, -⟩ := shape
    simp only [Parser.updateValue, same, quoted, bind, Option.bind_some]
    split
    · rfl
    · split <;> rfl
  case whereOperator =>
    rw [here] at shape
    obtain ⟨c, found⟩ := last shape.2
    simp only [Parser.whereOperator, found, bind, Option.bind_some]
    split <;> rfl
  case whereValue =>
    rw [here] at shape
    obtain ⟨c, found⟩ := last shape.2
    simp only [Parser.whereValue, found, quoted, bind, Option.bind_some]
    split
    · rfl
    · split <;> rfl
  case insertValues =>
    rw [here] at shape
    obtain ⟨tableName, fields, inserts, ⟨same, -⟩, -, rows⟩ := shape
    obtain ⟨row, found⟩ := last rows
    simp only [Parser.insertValues, same, found, quoted, bind, Option.bind_some]
    split <;> rfl
  case insertValuesCommaOrClosingParens =>
    rw [here] at shape
    obtain ⟨tableName, fields, inserts, ⟨same, -⟩, -, rows⟩ := shape
    obtain ⟨row, found⟩ := last rows
    simp only [Parser.insertValuesCommaOrClosingParens, same, found, bind, Option.bind_some]
    split
    · rfl
    · split
      · split <;> rfl
      · rfl

end

/-- A condition that was read to its end. -/
structure Complete (c : Condition) : Prop extends Begun c where
  operator : c.operator ≠ .unknownOperator

/-- The queries that the parser is to build. -/
inductive WellFormed : Query → Prop
  | select (tableName : Text) (conditions : List Condition) (fields : List Text) (aliases : List (Text × Text))
      (named : tableName ≠ []) (table : Quoted tableName) (complete : ∀ c ∈ conditions, Complete c)
      (chosen : Chosen fields aliases) (filled : fields ≠ []) :
      WellFormed ⟨.select, tableName, conditions, none, [], fields, aliases⟩
  | insert (tableName : Text) (inserts : List (List Text)) (fields : List Text)
      (named : tableName ≠ []) (table : Quoted tableName) (names : ∀ field ∈ fields, Name field) (filled : fields ≠ [])
      (rows : ∀ row ∈ inserts, row.length = fields.length ∧ ∀ value ∈ row, Quoted value) (nonempty : inserts ≠ []) :
      WellFormed ⟨.insert, tableName, [], none, inserts, fields, []⟩
  | update (tableName : Text) (conditions : List Condition) (updates : List (Text × Text))
      (named : tableName ≠ []) (table : Quoted tableName) (complete : ∀ c ∈ conditions, Complete c)
      (nonempty : conditions ≠ []) (assigned : Assigned updates) (filled : updates ≠ []) :
      WellFormed ⟨.update, tableName, conditions, some updates, [], [], []⟩
  | delete (tableName : Text) (conditions : List Condition)
      (named : tableName ≠ []) (table : Quoted tableName) (complete : ∀ c ∈ conditions, Complete c)
      (nonempty : conditions ≠ []) : WellFormed ⟨.delete, tableName, conditions, none, [], [], []⟩

section

variable {p : Parser} {q : Query}

theorem operator_of_valid {c : Condition} (valid : conditionError c = none) : c.operator ≠ .unknownOperator := by
  intro unknown
  rw [conditionError, if_pos unknown] at valid
  cases valid

/-- What `validate` asks. -/
structure Valid (q : Query) : Prop where
  type : q.type ≠ .unknownType
  table : q.tableName ≠ []
  filtered : q.type = .update ∨ q.type = .delete → q.conditions ≠ []
  operators : ∀ c ∈ q.conditions, c.operator ≠ .unknownOperator
  rows : q.type = .insert → q.inserts ≠ [] ∧ ∀ row ∈ q.inserts, row.length = q.fields.length

theorem valid_of_validate (passed : validate p = .ok ()) : Valid p.query := by
  simp only [validate] at passed
  split at passed
  · cases passed
  split at passed
  · cases passed
  rename_i type
  split at passed
  · cases passed
  rename_i table
  split at passed
  · cases passed
  rename_i filtered
  split at passed
  · cases passed
  rename_i conditions
  split at passed
  · cases passed
  rename_i inserts
  split at passed
  · cases passed
  rename_i counts
  refine ⟨type, table, fun filters empty => filtered ?_, fun c member => ?_, fun insert => ⟨fun empty => inserts ?_, ?_⟩⟩
  · simpa [empty] using filters
  · exact operator_of_valid (List.findSome?_eq_none_iff.mp conditions c member)
  · simp [insert, empty]
  · simpa [insert] using counts

theorem wellFormed_of_valid (shape : ∃ nextUpdateField step, Shape q nextUpdateField step) (valid : Valid q) :
    WellFormed q := by
  obtain ⟨nextUpdateField, step, shape⟩ := shape
  have filtered : Filters q → WellFormed q := by
    intro filters
    have complete : ∀ c ∈ q.conditions, Complete c := fun c member => ⟨filters.begun c member, valid.operators c member⟩
    cases filters with
    | select tableName conditions fields aliases table _ chosen filled =>
      exact .select tableName conditions fields aliases valid.table table complete chosen filled
    | update tableName conditions updates table _ assigned filled =>
      exact .update tableName conditions updates valid.table table complete (valid.filtered (.inl rfl)) assigned filled
    | delete tableName conditions table =>
      exact .delete tableName conditions valid.table table complete (valid.filtered (.inr rfl))
  have inserted : ∀ {tableName fields inserts}, Inserts q tableName fields inserts → fields ≠ [] → WellFormed q := by
    rintro tableName fields inserts ⟨rfl, table, names, rows⟩ filled
    obtain ⟨nonempty, counts⟩ := valid.rows rfl
    exact .insert tableName inserts fields valid.table table names filled
      (fun row member => ⟨counts row member, rows row member⟩) nonempty
  cases step
  case where_ | whereField => exact filtered shape
  case whereOperator | whereValue | whereAnd => exact filtered shape.1
  case insertValuesOpeningParens =>
    obtain ⟨_, _, _, rows, filled⟩ := shape
    exact inserted rows filled
  case insertValues | insertValuesCommaOrClosingParens | insertValuesCommaBeforeOpeningParens =>
    obtain ⟨_, _, _, rows, filled, -⟩ := shape
    exact inserted rows filled
  case insertFieldsOpeningParens | insertFields =>
    obtain ⟨_, _, rfl, -⟩ := shape
    exact absurd rfl (valid.rows rfl).1
  case insertFieldsCommaOrClosingParens | insertValuesRWord =>
    obtain ⟨_, _, ⟨rfl, -⟩, -⟩ := shape
    exact absurd rfl (valid.rows rfl).1
  case updateSet | updateField | updateEquals | updateValue | updateComma =>
    obtain ⟨_, _, rfl, -⟩ := shape
    exact absurd rfl (valid.filtered (.inl rfl))
  case selectField | selectComma | selectFrom | selectFromTable =>
    obtain ⟨_, _, rfl, -⟩ := shape
    exact absurd rfl valid.table
  case type | insertTable | updateTable | deleteFromTable =>
    have shape : q = _ := shape
    subst shape
    exact absurd rfl valid.table

end

/-- For every text the parser comes to its end without a panic, and a query that it
accepts is well-formed. -/
theorem parse_answers (sql : Text) : ∃ answer, parse sql = some answer ∧ ∀ q, answer = .ok q → WellFormed q := by
  have nothing : ∀ p : Parser, p.sql.length = 0 → p.ended = true := fun p used => by
    simpa [Parser.ended] using used
  have kept : ∀ p p', Turn Parser.next Parser.ended p p' → Shape p.query p.nextUpdateField p.step →
      Shape p'.query p'.nextUpdateField p'.step := fun p p' turn shape => shape_next shape turn.2
  have initial : Shape (Parser.start (trimSpace sql)).query (Parser.start (trimSpace sql)).nextUpdateField
      (Parser.start (trimSpace sql)).step := rfl
  have enough : (Parser.start (trimSpace sql)).sql.length ≤ (trimSpace sql).length := le_rfl
  obtain ⟨parsed, answered⟩ := Option.isSome_iff_exists.mp (drive_answers (fun p : Parser => p.sql.length)
    (fun p p' turn => Parser.next_shorter turn.2) nothing _ kept (fun p going shape => next_answers going shape)
    enough initial)
  rw [parse, answered]
  refine ⟨_, rfl, fun q accepted => ?_⟩
  cases parsed with
  | error message => cases accepted
  | ok p =>
    obtain ⟨shape, -⟩ := drive_invariant _ kept answered initial
    cases valid : validate p with
    | error message => simp [valid, bind, Except.bind] at accepted
    | ok =>
      simp only [valid, bind, Except.bind, pure, Except.pure, Except.ok.injEq] at accepted
      exact accepted ▸ wellFormed_of_valid ⟨_, _, shape⟩ (valid_of_validate valid)

end Tio.Sql
