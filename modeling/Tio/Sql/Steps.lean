import Tio.Sql.Tokens

namespace Tio.Sql

open Tio.Core

namespace Parser

variable {p p' : Parser} {onward : Step} {literal message : String}

/-- The parser goes on behind what it has read, and the query is changed so. -/
structure Moved (p : Parser) (onward : Step) (change : Query → Query) (p' : Parser) : Prop where
  step : p'.step = onward
  query : p'.query = change p.query
  shorter : p'.sql.length < p.sql.length

theorem peek_ne_nil_of_isIdentifier {text : Text} (named : isIdentifier text = true) : text ≠ [] := by
  rintro rfl
  cases named

theorem peek_ne_nil_of_toUpper {text word : Text} (same : toUpper text = word) (filled : word ≠ []) : text ≠ [] := by
  rintro rfl
  exact filled same.symm

theorem word_ok (filled : literal.toList ≠ []) (taken : p.word literal onward message = .ok p') :
    p'.nextUpdateField = p.nextUpdateField ∧ Moved p onward id p' := by
  rw [word] at taken
  split at taken
  · rename_i same
    cases taken
    exact ⟨rfl, rfl, rfl, pop_lt (peek_ne_nil_of_toUpper same filled)⟩
  · cases taken

theorem token_ok (filled : literal.toList ≠ []) (taken : p.token literal onward message = .ok p') :
    p'.nextUpdateField = p.nextUpdateField ∧ Moved p onward id p' := by
  rw [token] at taken
  split at taken
  · rename_i same
    cases taken
    exact ⟨rfl, rfl, rfl, pop_lt (same ▸ filled)⟩
  · cases taken

theorem table_ok (taken : p.table onward message = .ok p') :
    p.peek ≠ [] ∧ Moved p onward (fun q => { q with tableName := p.peek }) p' := by
  rw [table] at taken
  split at taken
  · cases taken
  · rename_i filled
    cases taken
    exact ⟨filled, rfl, rfl, pop_lt (p := p) filled⟩

/-- The commands, with the step that follows each. -/
def Begins (type : QueryType) (onward : Step) : Prop :=
  (type, onward) ∈ [(QueryType.select, Step.selectField), (.insert, .insertTable), (.update, .updateTable),
    (.delete, .deleteFromTable)]

theorem type_ok (taken : p.type = .ok p') :
    ∃ type onward, Begins type onward ∧ Moved p onward type.begin_ p' := by
  have begins : ∀ {word : Text} {type : QueryType} {onward : Step}, toUpper p.peek = word → word ≠ [] →
      Moved p onward type.begin_ ((p.edit type.begin_).pop.goto onward) := fun same filled =>
    ⟨rfl, rfl, pop_lt (p := p) (peek_ne_nil_of_toUpper same filled)⟩
  simp only [type] at taken
  repeat' split at taken
  · rename_i same
    cases taken
    exact ⟨_, _, by simp [Begins], begins same (by decide)⟩
  · rename_i same
    cases taken
    exact ⟨.insert, .insertTable, by simp [Begins], begins same (by decide)⟩
  · rename_i same
    cases taken
    exact ⟨.update, .updateTable, by simp [Begins], begins same (by decide)⟩
  · rename_i same
    cases taken
    exact ⟨.delete, .deleteFromTable, by simp [Begins], begins same (by decide)⟩
  · cases taken

theorem selectNext_step (p : Parser) : p.selectNext.step = .selectFrom ∨ p.selectNext.step = .selectComma := by
  rw [selectNext]
  split
  · exact .inl rfl
  · exact .inr rfl

theorem selectNext_query (p : Parser) : p.selectNext.query = p.query := by
  rw [selectNext]
  split <;> rfl

theorem selectNext_sql (p : Parser) : p.selectNext.sql = p.sql := by
  rw [selectNext]
  split <;> rfl

/-- A field is chosen, perhaps with an alias. -/
theorem selectField_ok (taken : p.selectField = .ok p') :
    isIdentifierOrAsterisk p.peek = true ∧ (p'.step = .selectFrom ∨ p'.step = .selectComma) ∧
      p'.sql.length < p.sql.length ∧ ∃ aliases,
        (aliases = p.query.aliases ∨ ∃ alias_, isIdentifier alias_ = true ∧ Quoted alias_ ∧
          aliases = Assoc.set p.peek alias_ p.query.aliases) ∧
        p'.query = { p.query with fields := p.query.fields ++ [p.peek], aliases := aliases } := by
  simp only [selectField] at taken
  split at taken
  · rename_i named
    have filled : p.peek ≠ [] := by
      intro empty
      rw [empty] at named
      cases named
    have read : p.pop.sql.length < p.sql.length := pop_lt filled
    split at taken
    · split at taken
      · rename_i alias_
        cases taken
        refine ⟨named, selectNext_step _, ?_, _, .inr ⟨_, alias_, quoted_peekWithLength _, rfl⟩, selectNext_query _⟩
        rw [selectNext_sql]
        exact lt_of_le_of_lt ((pop_le _).trans (pop_le _)) read
      · cases taken
    · cases taken
      refine ⟨named, selectNext_step _, ?_, _, .inl rfl, selectNext_query _⟩
      rw [selectNext_sql]
      exact read
  · cases taken

theorem updateField_ok (taken : p.updateField = .ok p') :
    isIdentifier p.peek = true ∧ p'.nextUpdateField = p.peek ∧ Moved p .updateEquals id p' := by
  rw [updateField] at taken
  split at taken
  · rename_i named
    cases taken
    exact ⟨named, rfl, rfl, rfl, pop_lt (p := p) (peek_ne_nil_of_isIdentifier named)⟩
  · cases taken

theorem quotedString_read {text : Text} (read : (quotedString text).2 ≠ 0) : ∃ rest, text = '\'' :: rest := by
  revert read
  unfold quotedString
  split
  · exact fun read => absurd rfl read
  · split
    · rename_i c rest same
      exact fun _ => ⟨rest, by rw [same]⟩
    · exact fun read => absurd rfl read

/-- A quoted string is what the parser reads anyway. -/
theorem quoted_read {value : Text} {ln : Nat} (quoted : peekQuotedStringWithLength p.sql = some (value, ln))
    (read : ¬ln = 0) : value = p.peek ∧ p.pop.sql.length < p.sql.length := by
  rw [peekQuotedStringWithLength] at quoted
  split at quoted
  · cases quoted
  · have found : quotedString p.sql = (value, ln) := Option.some.inj quoted
    have filled : (quotedString p.sql).2 ≠ 0 := by rw [found]; exact read
    obtain ⟨rest, begins⟩ := quotedString_read filled
    have same : peekWithLength p.sql = (value, ln) := by rw [← found, begins, peekWithLength_quote]
    refine ⟨by rw [peek, same], pop_lt_of_pos (by rw [begins]; exact List.cons_ne_nil _ _) ?_⟩
    rw [same]
    exact Nat.pos_of_ne_zero read

theorem updateValue_ok (taken : p.updateValue = some (.ok p')) :
    ∃ onward updates, (onward = .where_ ∨ onward = .updateComma) ∧ p.query.updates = some updates ∧
      Moved p onward (fun q => { q with updates := some (Assoc.set p.nextUpdateField p.peek updates) }) p' := by
  simp only [updateValue, bind, Option.bind_eq_some_iff] at taken
  obtain ⟨⟨value, ln⟩, quoted, taken⟩ := taken
  dsimp only at taken
  split at taken
  · cases taken
  · rename_i read
    obtain ⟨rfl, shorter⟩ := quoted_read quoted read
    obtain ⟨updates, made, taken⟩ := Option.bind_eq_some_iff.mp taken
    split at taken
    · cases taken
      exact ⟨.where_, updates, .inl rfl, made, rfl, rfl, shorter⟩
    · cases taken
      exact ⟨.updateComma, updates, .inr rfl, made, rfl, rfl, shorter⟩

theorem whereField_ok (taken : p.whereField = .ok p') :
    isIdentifier p.peek = true ∧ Moved p .whereOperator (fun q => { q with
      conditions := q.conditions ++ [⟨p.peek, true, .unknownOperator, [], false⟩] }) p' := by
  simp only [whereField] at taken
  split at taken
  · rename_i named
    cases taken
    exact ⟨named, rfl, rfl, pop_lt (p := p) (peek_ne_nil_of_isIdentifier named)⟩
  · cases taken

theorem toOperator_ne_nil {text : Text} {operator : Operator} (known : toOperator text = some operator) : text ≠ [] := by
  rintro rfl
  cases known

theorem whereOperator_ok (taken : p.whereOperator = some (.ok p')) :
    ∃ c operator, p.query.conditions.getLast? = some c ∧ Moved p .whereValue (fun q => { q with
      conditions := q.conditions.dropLast ++ [{ c with operator := operator }] }) p' := by
  simp only [whereOperator, bind, Option.bind_eq_some_iff] at taken
  obtain ⟨c, last, taken⟩ := taken
  split at taken
  · rename_i operator known
    cases taken
    exact ⟨c, operator, last, rfl, rfl, pop_lt (p := p) (toOperator_ne_nil known)⟩
  · cases taken

theorem whereValue_ok (taken : p.whereValue = some (.ok p')) :
    ∃ c, p.query.conditions.getLast? = some c ∧ Moved p .whereAnd (fun q => { q with
      conditions := q.conditions.dropLast ++
        [{ c with operand2 := p.peek, operand2IsField := isIdentifier p.peek }] }) p' := by
  simp only [whereValue, bind, Option.bind_eq_some_iff] at taken
  obtain ⟨c, last, taken⟩ := taken
  split at taken
  · rename_i named
    cases taken
    refine ⟨c, last, rfl, ?_, pop_lt (p := p) (peek_ne_nil_of_isIdentifier named)⟩
    rw [named]
    rfl
  · rename_i unnamed
    obtain ⟨⟨value, ln⟩, quoted, taken⟩ := Option.bind_eq_some_iff.mp taken
    dsimp only at taken
    split at taken
    · cases taken
    · rename_i read
      obtain ⟨rfl, shorter⟩ := quoted_read quoted read
      cases taken
      refine ⟨c, last, rfl, ?_, shorter⟩
      rw [eq_false_of_ne_true unnamed]
      rfl

theorem insertFields_ok (taken : p.insertFields = .ok p') :
    isIdentifier p.peek = true ∧
      Moved p .insertFieldsCommaOrClosingParens (fun q => { q with fields := q.fields ++ [p.peek] }) p' := by
  simp only [insertFields] at taken
  split at taken
  · rename_i named
    cases taken
    exact ⟨named, rfl, rfl, pop_lt (p := p) (peek_ne_nil_of_isIdentifier named)⟩
  · cases taken

theorem insertFieldsCommaOrClosingParens_ok (taken : p.insertFieldsCommaOrClosingParens = .ok p') :
    ∃ onward, (onward = .insertFields ∨ onward = .insertValuesRWord) ∧
      p'.nextUpdateField = p.nextUpdateField ∧ Moved p onward id p' := by
  simp only [insertFieldsCommaOrClosingParens] at taken
  split at taken
  · rename_i same
    cases taken
    exact ⟨_, .inl rfl, rfl, rfl, rfl, pop_lt (same ▸ by decide)⟩
  · split at taken
    · rename_i same
      cases taken
      exact ⟨_, .inr rfl, rfl, rfl, rfl, pop_lt (same ▸ by decide)⟩
    · cases taken

theorem insertValuesOpeningParens_ok (taken : p.insertValuesOpeningParens = .ok p') :
    Moved p .insertValues (fun q => { q with inserts := q.inserts ++ [[]] }) p' := by
  simp only [insertValuesOpeningParens] at taken
  split at taken
  · rename_i same
    cases taken
    exact ⟨rfl, rfl, pop_lt (p := p) (same ▸ by decide)⟩
  · cases taken

theorem insertValues_ok (taken : p.insertValues = some (.ok p')) :
    ∃ row, p.query.inserts.getLast? = some row ∧ Moved p .insertValuesCommaOrClosingParens (fun q => { q with
      inserts := q.inserts.dropLast ++ [row ++ [p.peek]] }) p' := by
  simp only [insertValues, bind, Option.bind_eq_some_iff] at taken
  obtain ⟨⟨value, ln⟩, quoted, taken⟩ := taken
  dsimp only at taken
  split at taken
  · cases taken
  · rename_i read
    obtain ⟨rfl, shorter⟩ := quoted_read quoted read
    obtain ⟨row, last, taken⟩ := Option.bind_eq_some_iff.mp taken
    cases taken
    exact ⟨row, last, rfl, rfl, shorter⟩

theorem insertValuesCommaOrClosingParens_ok (taken : p.insertValuesCommaOrClosingParens = some (.ok p')) :
    ∃ onward, (onward = .insertValues ∨ onward = .insertValuesCommaBeforeOpeningParens) ∧
      p'.nextUpdateField = p.nextUpdateField ∧ Moved p onward id p' := by
  simp only [insertValuesCommaOrClosingParens] at taken
  split at taken
  · rename_i same
    cases taken
    exact ⟨_, .inl rfl, rfl, rfl, rfl, pop_lt (same ▸ by decide)⟩
  · split at taken
    · rename_i same
      obtain ⟨row, -, taken⟩ := Option.bind_eq_some_iff.mp taken
      split at taken <;> cases taken
      exact ⟨_, .inr rfl, rfl, rfl, rfl, pop_lt (same ▸ by decide)⟩
    · cases taken

/-- Each turn of the loop takes something off the text. -/
theorem next_shorter (taken : p.next = some (.ok p')) : p'.sql.length < p.sql.length := by
  cases here : p.step <;> simp only [next, here, Option.some.injEq] at taken
  case type =>
    obtain ⟨_, _, _, moved⟩ := type_ok taken
    exact moved.shorter
  case selectField =>
    obtain ⟨-, -, shorter, -⟩ := selectField_ok taken
    exact shorter
  case selectFromTable | insertTable | updateTable | deleteFromTable => exact (table_ok taken).2.shorter
  case updateField => exact (updateField_ok taken).2.2.shorter
  case updateValue =>
    obtain ⟨_, _, -, -, moved⟩ := updateValue_ok taken
    exact moved.shorter
  case whereField => exact (whereField_ok taken).2.shorter
  case whereOperator =>
    obtain ⟨_, _, _, moved⟩ := whereOperator_ok taken
    exact moved.shorter
  case whereValue =>
    obtain ⟨_, _, moved⟩ := whereValue_ok taken
    exact moved.shorter
  case insertFields => exact (insertFields_ok taken).2.shorter
  case insertFieldsCommaOrClosingParens =>
    obtain ⟨_, _, _, moved⟩ := insertFieldsCommaOrClosingParens_ok taken
    exact moved.shorter
  case insertValuesOpeningParens => exact (insertValuesOpeningParens_ok taken).shorter
  case insertValues =>
    obtain ⟨_, _, moved⟩ := insertValues_ok taken
    exact moved.shorter
  case insertValuesCommaOrClosingParens =>
    obtain ⟨_, _, _, moved⟩ := insertValuesCommaOrClosingParens_ok taken
    exact moved.shorter
  case selectComma | updateSet | updateEquals | updateComma | insertFieldsOpeningParens =>
    exact (token_ok (by decide) taken).2.shorter
  case selectFrom | where_ | whereAnd | insertValuesRWord | insertValuesCommaBeforeOpeningParens =>
    exact (word_ok (by decide) taken).2.shorter

end Parser

end Tio.Sql
