import Tio.Sql.Canonical

namespace Tio.Sql

open Tio.Core

namespace Parser

/-- The parser before these tokens. -/
def reading (step : Step) (q : Query) (nextUpdateField : Text) (tokens : List Token) : Parser :=
  ⟨spell tokens, step, q, nextUpdateField⟩

variable {step onward : Step} {q : Query} {name content : Text} {w : Word} {tokens : List Token}
  {literal message : String}

abbrev Goes : Parser → Parser → Prop := Turns next ended

@[simp] theorem reading_step : (reading step q name tokens).step = step := rfl
@[simp] theorem reading_query : (reading step q name tokens).query = q := rfl
@[simp] theorem reading_nextUpdateField : (reading step q name tokens).nextUpdateField = name := rfl
@[simp] theorem goto_reading : (reading step q name tokens).goto onward = reading onward q name tokens := rfl
@[simp] theorem edit_reading (change : Query → Query) :
    (reading step q name tokens).edit change = reading step (change q) name tokens := rfl

theorem renamed_reading (q' : Query) (name' : Text) :
    (⟨(reading step q name tokens).sql, onward, q', name'⟩ : Parser) = reading onward q' name' tokens := rfl

theorem spell_ne_nil (token : Token) (tokens : List Token) : spell (token :: tokens) ≠ [] := by
  obtain ⟨c, rest, same, -⟩ := spell_begins (List.cons_ne_nil token tokens)
  rw [same]
  exact List.cons_ne_nil c rest

@[simp] theorem ended_reading (token : Token) : (reading step q name (token :: tokens)).ended = false := by
  simp [ended, reading, spell_ne_nil]

theorem peekWithLength_spell (w : Word) (tokens : List Token) :
    peekWithLength (spell (.word w :: tokens)) = (w.text, w.text.length) := by
  rw [spell_cons]
  split
  · rw [List.append_nil]
    exact peekWithLength_word_last w
  · exact peekWithLength_word w _

theorem peekWithLength_spell_quoted (quoted : Quoted content) (tokens : List Token) :
    peekWithLength (spell (.quoted content :: tokens)) = (content, content.length + 2) := by
  rw [spell_cons]
  simp only [Token.text, List.cons_append, List.append_assoc, List.nil_append]
  exact peekWithLength_quoted quoted _

/-- Behind a token there is the space and the next one. -/
theorem drop_spell (token : Token) (tokens : List Token) :
    ((spell (token :: tokens)).drop token.text.length).dropWhile (· = ' ') = spell tokens := by
  rw [spell_cons, List.drop_left]
  split
  · rename_i last
    rw [last]
    rfl
  · rename_i filled
    obtain ⟨c, rest, same, solid⟩ := spell_begins filled
    have other : c ≠ ' ' := by
      rintro rfl
      exact absurd solid (by decide)
    simp [same, other]

@[simp] theorem peek_word (w : Word) : (reading step q name (.word w :: tokens)).peek = w.text := by
  rw [peek, reading, peekWithLength_spell]

@[simp] theorem pop_word (w : Word) :
    (reading step q name (.word w :: tokens)).pop = reading step q name tokens := by
  simp only [pop, reading, peekWithLength_spell]
  exact congrArg (Parser.mk · step q name) (drop_spell (.word w) tokens)

theorem peek_quoted (quoted : Quoted content) : (reading step q name (.quoted content :: tokens)).peek = content := by
  rw [peek, reading, peekWithLength_spell_quoted quoted]

theorem pop_quoted (quoted : Quoted content) :
    (reading step q name (.quoted content :: tokens)).pop = reading step q name tokens := by
  simp only [pop, reading, peekWithLength_spell_quoted quoted]
  have all := drop_spell (.quoted content) tokens
  simp only [Token.text, List.length_cons, List.length_append, List.length_nil] at all
  exact congrArg (Parser.mk · step q name) all

theorem turn_of (token : Token) {p : Parser} (taken : (reading step q name (token :: tokens)).next = some (.ok p)) :
    Goes (reading step q name (token :: tokens)) p :=
  .single ⟨ended_reading token, taken⟩

/-- A word stands where the parser expects it. -/
theorem turn_word (same : w.text = literal.toList)
    (taken : (reading step q name (.word w :: tokens)).next =
      some ((reading step q name (.word w :: tokens)).word literal onward message)) :
    Goes (reading step q name (.word w :: tokens)) (reading onward q name tokens) := by
  refine turn_of _ (taken.trans ?_)
  rw [word, peek_word, toUpper_text, if_pos same, pop_word, goto_reading]

theorem turn_token (same : w.text = literal.toList)
    (taken : (reading step q name (.word w :: tokens)).next =
      some ((reading step q name (.word w :: tokens)).token literal onward message)) :
    Goes (reading step q name (.word w :: tokens)) (reading onward q name tokens) := by
  refine turn_of _ (taken.trans ?_)
  rw [token, peek_word, if_pos same, pop_word, goto_reading]

theorem turn_table (filled : content ≠ []) (quoted : Quoted content)
    (taken : (reading step q name (.quoted content :: tokens)).next =
      some ((reading step q name (.quoted content :: tokens)).table onward message)) :
    Goes (reading step q name (.quoted content :: tokens))
      (reading onward { q with tableName := content } name tokens) := by
  refine turn_of _ (taken.trans ?_)
  simp only [table, peek_quoted quoted, if_neg filled, edit_reading, pop_quoted quoted, goto_reading]

/-! Conditions. -/

theorem turn_whereField {conditions : List Condition} (known : Name content) :
    Goes (reading .whereField { q with conditions := conditions } name (.quoted content :: tokens))
      (reading .whereOperator { q with conditions := conditions ++ [⟨content, true, .unknownOperator, [], false⟩] }
        name tokens) := by
  refine turn_of _ ?_
  simp only [next, reading_step, whereField, peek_quoted known.2, known.1, if_true, edit_reading, pop_quoted known.2,
    goto_reading]

theorem toOperator_word {operator : Operator} (known : operator ≠ .unknownOperator) :
    toOperator operator.word.text = some operator := by
  cases operator <;> first | rfl | exact absurd rfl known

theorem turn_whereOperator {conditions : List Condition} {c : Condition} {operator : Operator}
    (known : operator ≠ .unknownOperator) :
    Goes (reading .whereOperator { q with conditions := conditions ++ [c] } name (.word operator.word :: tokens))
      (reading .whereValue { q with conditions := conditions ++ [{ c with operator := operator }] } name tokens) := by
  refine turn_of _ ?_
  simp only [next, reading_step, whereOperator, reading_query, List.getLast?_append, List.getLast?_singleton, bind,
    peek_word, toOperator_word known, setCondition, edit_reading, pop_word, goto_reading, List.dropLast_concat]
  rfl

theorem peekQuoted_reading (quoted : Quoted content) :
    peekQuotedStringWithLength (reading step q name (.quoted content :: tokens)).sql =
      some (content, content.length + 2) := by
  rw [peekQuotedStringWithLength, reading, if_neg (spell_ne_nil _ _), spell_cons]
  simp only [Token.text, List.cons_append, List.append_assoc, List.nil_append]
  rw [← peekWithLength_quote, peekWithLength_quoted quoted]

theorem turn_whereValue {conditions : List Condition} {c : Condition} (quoted : Quoted content) :
    Goes (reading .whereValue { q with conditions := conditions ++ [c] } name (.quoted content :: tokens))
      (reading .whereAnd { q with conditions := conditions ++
        [{ c with operand2 := content, operand2IsField := isIdentifier content }] } name tokens) := by
  refine turn_of _ ?_
  simp only [next, reading_step, whereValue, reading_query, List.getLast?_append, List.getLast?_singleton,
    bind, Option.bind_some, peek_quoted quoted, peekQuoted_reading quoted, setCondition, edit_reading,
    pop_quoted quoted, goto_reading, List.dropLast_concat]
  split
  · rename_i named
    simp [named]
  · rename_i unnamed
    simp [eq_false_of_ne_true unnamed]

theorem goes_condition {conditions : List Condition} {c : Condition} (complete : Complete c) :
    Goes (reading .whereField { q with conditions := conditions } name (conditionTokens c ++ tokens))
      (reading .whereAnd { q with conditions := conditions ++ [c] } name tokens) := by
  obtain ⟨operand1, isField, operator, operand2, isField'⟩ := c
  obtain ⟨⟨named, rfl, quoted, same⟩, known⟩ := complete
  have same : isField' = isIdentifier operand2 := same
  subst same
  exact ((turn_whereField named).trans (turn_whereOperator known)).trans (turn_whereValue quoted)

theorem goes_and {conditions : List Condition} {c : Condition} (complete : Complete c) :
    Goes (reading .whereField { q with conditions := conditions } name (conditionTokens c ++ [.word .and_] ++ tokens))
      (reading .whereField { q with conditions := conditions ++ [c] } name tokens) := by
  rw [List.append_assoc]
  have last : Goes (reading .whereAnd { q with conditions := conditions ++ [c] } name (.word .and_ :: tokens))
      (reading .whereField { q with conditions := conditions ++ [c] } name tokens) := turn_word rfl rfl
  exact (goes_condition complete).trans last

theorem foldl_concat {α : Type} (front items : List α) :
    items.foldl (fun done item => done ++ [item]) front = front ++ items := by
  induction items generalizing front with
  | nil => simp
  | cons item items ih => simp [ih]

/-- The conditions are the last part of a command. -/
theorem goes_where {conditions : List Condition} (complete : ∀ c ∈ conditions, Complete c) (empty : q.conditions = []) :
    ∃ step, step ≠ .whereField ∧ Goes (reading .where_ q name (whereTokens conditions))
      (reading step { q with conditions := conditions } name []) := by
  rw [whereTokens]
  split
  · rename_i bare
    subst bare
    refine ⟨.where_, by simp, ?_⟩
    rw [← empty]
  · rename_i filled
    refine ⟨.whereAnd, by simp, ?_⟩
    have first : Goes (reading .where_ q name (.word .where_ :: separated [.word .and_] conditionTokens conditions))
        (reading .whereField { q with conditions := [] } name
          (separated [.word .and_] conditionTokens conditions ++ [])) := by
      rw [List.append_nil, ← empty]
      exact turn_word rfl rfl
    have later : Goes (reading .whereField { q with conditions := [] } name
          (separated [.word .and_] conditionTokens conditions ++ []))
        (reading .whereAnd { q with conditions := conditions.foldl (fun done c => done ++ [c]) [] } name []) :=
      turns_separated (fun conditions tokens => reading .whereField { q with conditions := conditions } name tokens)
        (fun conditions => reading .whereAnd { q with conditions := conditions } name []) _
        (fun c member _ _ => goes_and (complete c member)) (fun c member _ => goes_condition (complete c member)) filled []
    rw [foldl_concat] at later
    exact first.trans later

/-! Fields. -/

/-- The fields and aliases with another field. -/
def chosenWith (all : List (Text × Text)) (done : List Text × List (Text × Text)) (field : Text) :
    List Text × List (Text × Text) :=
  (done.1 ++ [field], match Assoc.get field all with
    | some alias_ => Assoc.set field alias_ done.2
    | none => done.2)

def selecting (done : List Text × List (Text × Text)) : Query := ⟨.select, [], [], none, [], done.1, done.2⟩

/-- The parser looks whether the list of fields is over. -/
theorem selectNext_reading (w : Word) : (reading step q name (.word w :: tokens)).selectNext =
    reading (if w.text = "FROM".toList then .selectFrom else .selectComma) q name (.word w :: tokens) := by
  rw [selectNext, peek_word, toUpper_text]
  split <;> rfl

theorem turn_selectField {all : List (Text × Text)} {done : List Text × List (Text × Text)} {field : Text}
    (chosen : isIdentifierOrAsterisk field = true ∧ Quoted field) (named : ∀ entry ∈ all, Name entry.2)
    (plain : w.text ≠ "AS".toList) :
    Goes (reading .selectField (selecting done) name (fieldTokens all field ++ .word w :: tokens))
      (reading (if w.text = "FROM".toList then .selectFrom else .selectComma) (selecting (chosenWith all done field))
        name (.word w :: tokens)) := by
  have quoted := chosen.2
  rw [fieldTokens, chosenWith]
  cases found : Assoc.get field all with
  | none =>
    show Goes (reading .selectField (selecting done) name (.quoted field :: .word w :: tokens)) _
    refine turn_of _ ?_
    simp only [next, reading_step, selectField, peek_quoted quoted, chosen.1, if_true, edit_reading,
      pop_quoted quoted, peek_word, toUpper_text, if_neg plain, selectNext_reading]
    rfl
  | some alias_ =>
    obtain ⟨known, quoted'⟩ := named _ (Assoc.mem_of_get found)
    have as_ : toUpper Word.as_.text = "AS".toList := rfl
    show Goes (reading .selectField (selecting done) name
      (.quoted field :: .word .as_ :: .quoted alias_ :: .word w :: tokens)) _
    refine turn_of _ ?_
    simp only [next, reading_step, selectField, peek_quoted quoted, chosen.1, if_true,
      edit_reading, pop_quoted quoted, peek_word, as_, pop_word, peek_quoted quoted', known, pop_quoted quoted',
      selectNext_reading]
    rfl

theorem goes_fields {fields : List Text} {all : List (Text × Text)} (chosen : Chosen fields all) (filled : fields ≠ []) :
    Goes (reading .selectField (selecting ([], [])) name
        (separated [.word .comma] (fieldTokens all) fields ++ .word .from_ :: tokens))
      (reading .selectFromTable (selecting (fields.foldl (chosenWith all) ([], []))) name tokens) := by
  have named : ∀ entry ∈ all, Name entry.2 := fun entry member => (chosen.named entry member).2
  have more : ∀ field ∈ fields, ∀ done tokens,
      Goes (reading .selectField (selecting done) name (fieldTokens all field ++ [.word .comma] ++ tokens))
        (reading .selectField (selecting (chosenWith all done field)) name tokens) := by
    intro field member done tokens
    rw [List.append_assoc]
    have comma : Goes (reading .selectComma (selecting (chosenWith all done field)) name (.word .comma :: tokens))
        (reading .selectField (selecting (chosenWith all done field)) name tokens) := turn_token rfl rfl
    exact (turn_selectField (chosen.chosen field member) named (by decide)).trans comma
  have last : ∀ field ∈ fields, ∀ done,
      Goes (reading .selectField (selecting done) name (fieldTokens all field ++ .word .from_ :: tokens))
        (reading .selectFromTable (selecting (chosenWith all done field)) name tokens) := by
    intro field member done
    have onward : Goes (reading .selectFrom (selecting (chosenWith all done field)) name (.word .from_ :: tokens))
        (reading .selectFromTable (selecting (chosenWith all done field)) name tokens) := turn_word rfl rfl
    exact (turn_selectField (chosen.chosen field member) named (by decide)).trans onward
  exact turns_separated (fun done tokens => reading .selectField (selecting done) name tokens)
    (fun done => reading .selectFromTable (selecting done) name tokens) _ more last filled ([], [])

/-- What the loop over the fields leaves. -/
theorem chosenWith_all (all : List (Text × Text)) (fields : List Text) (done : List Text × List (Text × Text)) :
    (fields.foldl (chosenWith all) done).1 = done.1 ++ fields ∧
      ∀ field, Assoc.get field (fields.foldl (chosenWith all) done).2 =
        if field ∈ fields then (Assoc.get field all).or (Assoc.get field done.2) else Assoc.get field done.2 := by
  induction fields generalizing done with
  | nil => simp
  | cons first fields ih =>
    obtain ⟨front, aliases⟩ := ih (chosenWith all done first)
    refine ⟨by rw [List.foldl_cons, front, chosenWith, List.append_assoc]; rfl, fun field => ?_⟩
    have here : Assoc.get field (chosenWith all done first).2 =
        if first = field then (Assoc.get field all).or (Assoc.get field done.2) else Assoc.get field done.2 := by
      rw [chosenWith]
      by_cases same : first = field
      · subst same
        cases found : Assoc.get first all <;> simp
      · cases found : Assoc.get first all <;> simp [same, Assoc.get_set]
    rw [List.foldl_cons, aliases, here]
    by_cases same : first = field
    · subst same
      cases found : Assoc.get first all <;> simp
    · simp [same, Ne.symm same]

/-! Updates. -/

theorem turn_updateField (named : Name content) :
    Goes (reading .updateField q name (.quoted content :: tokens)) (reading .updateEquals q content tokens) := by
  refine turn_of _ ?_
  simp only [next, reading_step, updateField, peek_quoted named.2, named.1, if_true, renamed_reading,
    pop_quoted named.2, goto_reading, reading_query]

theorem turn_updateValue {updates : List (Text × Text)} (quoted : Quoted content) (made : q.updates = some updates) :
    Goes (reading .updateValue q name (.quoted content :: .word w :: tokens))
      (reading (if w.text = "WHERE".toList then .where_ else .updateComma)
        { q with updates := some (Assoc.set name content updates) } [] (.word w :: tokens)) := by
  refine turn_of _ ?_
  have positive : ¬content.length + 2 = 0 := Nat.succ_ne_zero _
  simp only [next, reading_step, updateValue, peekQuoted_reading quoted, bind, Option.bind_some, if_neg positive, made,
    edit_reading, reading_nextUpdateField, reading_query, renamed_reading, pop_quoted quoted, peek_word, toUpper_text,
    goto_reading]
  split <;> rfl

/-- An entry is read up to the next sign. -/
theorem goes_update {updates : List (Text × Text)} {tableName : Text} {entry : Text × Text}
    (named : Name entry.1 ∧ Quoted entry.2) :
    Goes (reading .updateField ⟨.update, tableName, [], some updates, [], [], []⟩ []
        (updateTokens entry ++ .word w :: tokens))
      (reading (if w.text = "WHERE".toList then .where_ else .updateComma)
        ⟨.update, tableName, [], some (Assoc.set entry.1 entry.2 updates), [], [], []⟩ [] (.word w :: tokens)) := by
  have equals : Goes (reading .updateEquals ⟨.update, tableName, [], some updates, [], [], []⟩ entry.1
        (.word .eq :: .quoted entry.2 :: .word w :: tokens))
      (reading .updateValue ⟨.update, tableName, [], some updates, [], [], []⟩ entry.1
        (.quoted entry.2 :: .word w :: tokens)) := turn_token rfl rfl
  exact ((turn_updateField named.1).trans equals).trans (turn_updateValue named.2 rfl)

theorem foldl_set (front updates : List (Text × Text)) (distinct : (Assoc.keys (front ++ updates)).Nodup) :
    updates.foldl (fun done entry => Assoc.set entry.1 entry.2 done) front = front ++ updates := by
  induction updates generalizing front with
  | nil => simp
  | cons entry updates ih =>
    have missing : Assoc.get entry.1 front = none := by
      refine Assoc.get_eq_none_iff.mpr fun present => ?_
      rw [Assoc.keys, List.map_append, List.nodup_append] at distinct
      exact distinct.2.2 entry.1 present entry.1 (by simp) rfl
    have same : front ++ [entry] ++ updates = front ++ entry :: updates := by simp
    rw [List.foldl_cons, Assoc.set_of_fresh missing, ih _ (by rw [same]; exact distinct), same]

theorem goes_updates {updates : List (Text × Text)} {tableName : Text} (assigned : Assigned updates)
    (filled : updates ≠ []) :
    Goes (reading .updateField ⟨.update, tableName, [], some [], [], [], []⟩ []
        (separated [.word .comma] updateTokens updates ++ .word .where_ :: tokens))
      (reading .where_ ⟨.update, tableName, [], some updates, [], [], []⟩ [] (.word .where_ :: tokens)) := by
  have more : ∀ entry ∈ updates, ∀ done tokens,
      Goes (reading .updateField ⟨.update, tableName, [], some done, [], [], []⟩ []
          (updateTokens entry ++ [.word .comma] ++ tokens))
        (reading .updateField ⟨.update, tableName, [], some (Assoc.set entry.1 entry.2 done), [], [], []⟩ [] tokens) := by
    intro entry member done tokens
    rw [List.append_assoc]
    have comma : Goes
        (reading .updateComma ⟨.update, tableName, [], some (Assoc.set entry.1 entry.2 done), [], [], []⟩ []
          (.word .comma :: tokens))
        (reading .updateField ⟨.update, tableName, [], some (Assoc.set entry.1 entry.2 done), [], [], []⟩ [] tokens) :=
      turn_token rfl rfl
    exact (goes_update (assigned.named entry member)).trans comma
  have all := turns_separated
    (fun done tokens => reading .updateField ⟨.update, tableName, [], some done, [], [], []⟩ [] tokens)
    (fun done => reading .where_ ⟨.update, tableName, [], some done, [], [], []⟩ [] (.word .where_ :: tokens)) _ more
    (fun entry member done => goes_update (assigned.named entry member)) filled []
  rwa [foldl_set [] updates assigned.distinct] at all

/-! Insertions. -/

theorem turn_insertFields (named : Name content) :
    Goes (reading .insertFields q name (.quoted content :: tokens))
      (reading .insertFieldsCommaOrClosingParens { q with fields := q.fields ++ [content] } name tokens) := by
  refine turn_of _ ?_
  simp only [next, reading_step, insertFields, peek_quoted named.2, named.1, if_true, edit_reading, pop_quoted named.2,
    goto_reading]

theorem comma_text : Word.comma.text = ",".toList := rfl

theorem openingParens_text : Word.openingParens.text = "(".toList := rfl

theorem closingParens_text : Word.closingParens.text = ")".toList := rfl

theorem closingParens_ne : Word.closingParens.text ≠ ",".toList := by decide

theorem turn_insertComma : Goes (reading .insertFieldsCommaOrClosingParens q name (.word .comma :: tokens))
    (reading .insertFields q name tokens) := by
  refine turn_of _ ?_
  simp only [next, reading_step, insertFieldsCommaOrClosingParens, peek_word]
  rw [if_pos comma_text, pop_word, goto_reading]

theorem turn_insertClosing : Goes (reading .insertFieldsCommaOrClosingParens q name (.word .closingParens :: tokens))
    (reading .insertValuesRWord q name tokens) := by
  refine turn_of _ ?_
  simp only [next, reading_step, insertFieldsCommaOrClosingParens, peek_word]
  rw [if_neg closingParens_ne, if_pos closingParens_text, pop_word, goto_reading]

theorem goes_insertFields {fields : List Text} {tableName : Text} (names : ∀ field ∈ fields, Name field)
    (filled : fields ≠ []) :
    Goes (reading .insertFields ⟨.insert, tableName, [], none, [], [], []⟩ []
        (separated [.word .comma] (fun field => [.quoted field]) fields ++ .word .closingParens :: tokens))
      (reading .insertValuesRWord ⟨.insert, tableName, [], none, [], fields, []⟩ [] tokens) := by
  have more : ∀ field ∈ fields, ∀ done tokens,
      Goes (reading .insertFields ⟨.insert, tableName, [], none, [], done, []⟩ []
          ([.quoted field] ++ [.word .comma] ++ tokens))
        (reading .insertFields ⟨.insert, tableName, [], none, [], done ++ [field], []⟩ [] tokens) :=
    fun field member done tokens => (turn_insertFields (names field member)).trans turn_insertComma
  have all := turns_separated
    (fun done tokens => reading .insertFields ⟨.insert, tableName, [], none, [], done, []⟩ [] tokens)
    (fun done => reading .insertValuesRWord ⟨.insert, tableName, [], none, [], done, []⟩ [] tokens) _ more
    (fun field member done => (turn_insertFields (names field member)).trans turn_insertClosing) filled []
  rwa [foldl_concat] at all

/-- A value is added to the row that is open. -/
theorem turn_insertValues {inserts : List (List Text)} {row : List Text} (quoted : Quoted content) :
    Goes (reading .insertValues { q with inserts := inserts ++ [row] } name (.quoted content :: tokens))
      (reading .insertValuesCommaOrClosingParens { q with inserts := inserts ++ [row ++ [content]] } name tokens) := by
  have positive : ¬content.length + 2 = 0 := Nat.succ_ne_zero _
  refine turn_of _ ?_
  simp only [next, reading_step, insertValues, peekQuoted_reading quoted, bind, Option.bind_some, if_neg positive,
    reading_query, List.getLast?_append, List.getLast?_singleton, edit_reading, pop_quoted quoted, goto_reading,
    List.dropLast_concat]
  rfl

theorem turn_valuesComma : Goes (reading .insertValuesCommaOrClosingParens q name (.word .comma :: tokens))
    (reading .insertValues q name tokens) := by
  refine turn_of _ ?_
  simp only [next, reading_step, insertValuesCommaOrClosingParens, peek_word]
  rw [if_pos comma_text, pop_word, goto_reading]

/-- The row has as many values as there are fields. -/
theorem turn_valuesClosing {inserts : List (List Text)} {row : List Text} (counts : row.length = q.fields.length) :
    Goes (reading .insertValuesCommaOrClosingParens { q with inserts := inserts ++ [row] } name
        (.word .closingParens :: tokens))
      (reading .insertValuesCommaBeforeOpeningParens { q with inserts := inserts ++ [row] } name tokens) := by
  refine turn_of _ ?_
  simp only [next, reading_step, insertValuesCommaOrClosingParens, peek_word]
  rw [if_neg closingParens_ne, if_pos closingParens_text]
  simp [counts]

theorem turn_insertValuesOpeningParens :
    Goes (reading .insertValuesOpeningParens q name (.word .openingParens :: tokens))
      (reading .insertValues { q with inserts := q.inserts ++ [[]] } name tokens) := by
  refine turn_of _ ?_
  simp only [next, reading_step, insertValuesOpeningParens, peek_word]
  rw [if_pos openingParens_text, edit_reading, pop_word, goto_reading]

theorem goes_row {inserts : List (List Text)} {row : List Text} (counts : row.length = q.fields.length)
    (filled : row ≠ []) (quoted : ∀ value ∈ row, Quoted value) :
    Goes (reading .insertValuesOpeningParens { q with inserts := inserts } name (rowTokens row ++ tokens))
      (reading .insertValuesCommaBeforeOpeningParens { q with inserts := inserts ++ [row] } name tokens) := by
  have opened : Goes (reading .insertValuesOpeningParens { q with inserts := inserts } name (rowTokens row ++ tokens))
      (reading .insertValues { q with inserts := inserts ++ [[]] } name
        (separated [.word .comma] (fun value => [.quoted value]) row ++ .word .closingParens :: tokens)) := by
    rw [rowTokens, List.cons_append, List.cons_append, List.append_assoc]
    exact turn_insertValuesOpeningParens
  have more : ∀ value ∈ row, ∀ done tokens,
      Goes (reading .insertValues { q with inserts := inserts ++ [done] } name
          ([.quoted value] ++ [.word .comma] ++ tokens))
        (reading .insertValues { q with inserts := inserts ++ [done ++ [value]] } name tokens) :=
    fun value member done tokens => (turn_insertValues (quoted value member)).trans turn_valuesComma
  have all := turns_separated
    (fun done tokens => reading .insertValues { q with inserts := inserts ++ [done] } name tokens)
    (fun done => reading .insertValuesCommaOrClosingParens { q with inserts := inserts ++ [done] } name
      (.word .closingParens :: tokens)) _ more (fun value member done => turn_insertValues (quoted value member)) filled []
  rw [foldl_concat] at all
  exact (opened.trans all).trans (turn_valuesClosing counts)

theorem goes_inserts {inserts : List (List Text)} (empty : q.inserts = [])
    (rows : ∀ row ∈ inserts, row.length = q.fields.length ∧ ∀ value ∈ row, Quoted value) (fields : q.fields ≠ [])
    (filled : inserts ≠ []) :
    Goes (reading .insertValuesOpeningParens q name (separated [.word .comma] rowTokens inserts))
      (reading .insertValuesCommaBeforeOpeningParens { q with inserts := inserts } name []) := by
  have every : ∀ row ∈ inserts, row ≠ [] := by
    rintro row member rfl
    exact fields (List.length_eq_zero_iff.mp (rows [] member).1.symm)
  have more : ∀ row ∈ inserts, ∀ done tokens,
      Goes (reading .insertValuesOpeningParens { q with inserts := done } name
          (rowTokens row ++ [.word .comma] ++ tokens))
        (reading .insertValuesOpeningParens { q with inserts := done ++ [row] } name tokens) := by
    intro row member done tokens
    rw [List.append_assoc]
    have comma : Goes (reading .insertValuesCommaBeforeOpeningParens { q with inserts := done ++ [row] } name
          (.word .comma :: tokens))
        (reading .insertValuesOpeningParens { q with inserts := done ++ [row] } name tokens) := turn_word rfl rfl
    exact (goes_row (rows row member).1 (every row member) (rows row member).2).trans comma
  have all := turns_separated
    (fun done tokens => reading .insertValuesOpeningParens { q with inserts := done } name tokens)
    (fun done => reading .insertValuesCommaBeforeOpeningParens { q with inserts := done } name []) _ more
    (fun row member done => goes_row (rows row member).1 (every row member) (rows row member).2) filled []
  have before : ({ q with inserts := [] } : Query) = q := by rw [← empty]
  rwa [foldl_concat, List.append_nil, List.nil_append, before] at all

/-! Commands. -/

theorem turn_type (type : QueryType) (begins : (w, type, onward) ∈ [(Word.select, QueryType.select, Step.selectField),
      (.insertInto, .insert, .insertTable), (.update, .update, .updateTable),
      (.deleteFrom, .delete, .deleteFromTable)]) :
    Goes (reading .type q name (.word w :: tokens)) (reading onward (type.begin_ q) name tokens) := by
  refine turn_of _ ?_
  simp only [List.mem_cons, Prod.mk.injEq, List.not_mem_nil, or_false] at begins
  rcases begins with ⟨rfl, rfl, rfl⟩ | ⟨rfl, rfl, rfl⟩ | ⟨rfl, rfl, rfl⟩ | ⟨rfl, rfl, rfl⟩ <;>
    simp only [next, reading_step, type, peek_word, toUpper_text, edit_reading, pop_word, goto_reading] <;> rfl

/-- The parser before a text. -/
abbrev starting (tokens : List Token) : Parser := reading .type ⟨.unknownType, [], [], none, [], [], []⟩ [] tokens

variable {tableName : Text} {conditions : List Condition}

theorem goes_select {fields : List Text} {aliases : List (Text × Text)} (named : tableName ≠ []) (table : Quoted tableName)
    (complete : ∀ c ∈ conditions, Complete c) (chosen : Chosen fields aliases) (filled : fields ≠ []) :
    ∃ step q', step ≠ .whereField ∧ Query.Same ⟨.select, tableName, conditions, none, [], fields, aliases⟩ q' ∧
      Goes (starting (Query.tokens ⟨.select, tableName, conditions, none, [], fields, aliases⟩)) (reading step q' [] []) := by
  obtain ⟨all, called⟩ := chosenWith_all aliases fields ([], [])
  have first : Goes (starting (Query.tokens ⟨.select, tableName, conditions, none, [], fields, aliases⟩))
      (reading .selectField (selecting ([], [])) [] (separated [.word .comma] (fieldTokens aliases) fields ++
        .word .from_ :: .quoted tableName :: whereTokens conditions)) := turn_type .select (by simp)
  have second := first.trans (goes_fields chosen filled)
  generalize fields.foldl (chosenWith aliases) ([], []) = done at second all called
  obtain ⟨fields', aliases'⟩ := done
  obtain rfl : fields' = fields := all
  have third : Goes
      (reading .selectFromTable (selecting (fields', aliases')) [] (.quoted tableName :: whereTokens conditions))
      (reading .where_ ⟨.select, tableName, [], none, [], fields', aliases'⟩ [] (whereTokens conditions)) :=
    turn_table named table rfl
  obtain ⟨step, other, last⟩ := goes_where (q := ⟨.select, tableName, [], none, [], fields', aliases'⟩) complete rfl
  refine ⟨step, _, other, ⟨rfl, fun field => ?_⟩, (second.trans third).trans last⟩
  have found := called field
  by_cases listed : field ∈ fields'
  · simpa [listed] using found
  · have missing : Assoc.get field aliases = none := by
      refine Assoc.get_eq_none_iff.mpr fun present => ?_
      obtain ⟨entry, member, rfl⟩ := List.mem_map.mp present
      exact listed (chosen.named entry member).1
    simpa [listed, missing] using found

theorem goes_insert {inserts : List (List Text)} {fields : List Text} (named : tableName ≠ []) (table : Quoted tableName)
    (names : ∀ field ∈ fields, Name field) (filled : fields ≠ [])
    (rows : ∀ row ∈ inserts, row.length = fields.length ∧ ∀ value ∈ row, Quoted value) (nonempty : inserts ≠ []) :
    Goes (starting (Query.tokens ⟨.insert, tableName, [], none, inserts, fields, []⟩))
      (reading .insertValuesCommaBeforeOpeningParens ⟨.insert, tableName, [], none, inserts, fields, []⟩ [] []) := by
  have first : Goes (starting (Query.tokens ⟨.insert, tableName, [], none, inserts, fields, []⟩))
      (reading .insertTable ⟨.insert, [], [], none, [], [], []⟩ [] (.quoted tableName :: .word .openingParens ::
        (separated [.word .comma] (fun field => [.quoted field]) fields ++
          .word .closingParens :: .word .values :: separated [.word .comma] rowTokens inserts))) :=
    turn_type .insert (by simp)
  have second : Goes (reading .insertTable ⟨.insert, [], [], none, [], [], []⟩ [] (.quoted tableName ::
        .word .openingParens :: (separated [.word .comma] (fun field => [.quoted field]) fields ++
          .word .closingParens :: .word .values :: separated [.word .comma] rowTokens inserts)))
      (reading .insertFieldsOpeningParens ⟨.insert, tableName, [], none, [], [], []⟩ [] (.word .openingParens ::
        (separated [.word .comma] (fun field => [.quoted field]) fields ++
          .word .closingParens :: .word .values :: separated [.word .comma] rowTokens inserts))) :=
    turn_table named table rfl
  have third : Goes (reading .insertFieldsOpeningParens ⟨.insert, tableName, [], none, [], [], []⟩ []
        (.word .openingParens :: (separated [.word .comma] (fun field => [.quoted field]) fields ++
          .word .closingParens :: .word .values :: separated [.word .comma] rowTokens inserts)))
      (reading .insertFields ⟨.insert, tableName, [], none, [], [], []⟩ []
        (separated [.word .comma] (fun field => [.quoted field]) fields ++
          .word .closingParens :: .word .values :: separated [.word .comma] rowTokens inserts)) := turn_token rfl rfl
  have values : Goes (reading .insertValuesRWord ⟨.insert, tableName, [], none, [], fields, []⟩ []
        (.word .values :: separated [.word .comma] rowTokens inserts))
      (reading .insertValuesOpeningParens ⟨.insert, tableName, [], none, [], fields, []⟩ []
        (separated [.word .comma] rowTokens inserts)) := turn_word rfl rfl
  exact ((((first.trans second).trans third).trans (goes_insertFields names filled)).trans values).trans
    (goes_inserts rfl rows filled nonempty)

theorem goes_updateCommand {updates : List (Text × Text)} (named : tableName ≠ []) (table : Quoted tableName)
    (complete : ∀ c ∈ conditions, Complete c) (nonempty : conditions ≠ []) (assigned : Assigned updates)
    (filled : updates ≠ []) :
    ∃ step, step ≠ .whereField ∧
      Goes (starting (Query.tokens ⟨.update, tableName, conditions, some updates, [], [], []⟩))
        (reading step ⟨.update, tableName, conditions, some updates, [], [], []⟩ [] []) := by
  have filters : whereTokens conditions = .word .where_ :: separated [.word .and_] conditionTokens conditions :=
    if_neg nonempty
  have first : Goes (starting (Query.tokens ⟨.update, tableName, conditions, some updates, [], [], []⟩))
      (reading .updateTable ⟨.update, [], [], some [], [], [], []⟩ [] (.quoted tableName :: .word .set ::
        (separated [.word .comma] updateTokens updates ++ whereTokens conditions))) := turn_type .update (by simp)
  have second : Goes (reading .updateTable ⟨.update, [], [], some [], [], [], []⟩ [] (.quoted tableName :: .word .set ::
        (separated [.word .comma] updateTokens updates ++ whereTokens conditions)))
      (reading .updateSet ⟨.update, tableName, [], some [], [], [], []⟩ [] (.word .set ::
        (separated [.word .comma] updateTokens updates ++ whereTokens conditions))) := turn_table named table rfl
  have third : Goes (reading .updateSet ⟨.update, tableName, [], some [], [], [], []⟩ [] (.word .set ::
        (separated [.word .comma] updateTokens updates ++ whereTokens conditions)))
      (reading .where_ ⟨.update, tableName, [], some updates, [], [], []⟩ [] (whereTokens conditions)) := by
    rw [filters]
    have assigns : Goes (reading .updateSet ⟨.update, tableName, [], some [], [], [], []⟩ [] (.word .set ::
          (separated [.word .comma] updateTokens updates ++
            .word .where_ :: separated [.word .and_] conditionTokens conditions)))
        (reading .updateField ⟨.update, tableName, [], some [], [], [], []⟩ []
          (separated [.word .comma] updateTokens updates ++
            .word .where_ :: separated [.word .and_] conditionTokens conditions)) := turn_token rfl rfl
    exact assigns.trans (goes_updates assigned filled)
  obtain ⟨step, other, last⟩ := goes_where (q := ⟨.update, tableName, [], some updates, [], [], []⟩) complete rfl
  exact ⟨step, other, ((first.trans second).trans third).trans last⟩

theorem goes_delete (named : tableName ≠ []) (table : Quoted tableName) (complete : ∀ c ∈ conditions, Complete c) :
    ∃ step, step ≠ .whereField ∧ Goes (starting (Query.tokens ⟨.delete, tableName, conditions, none, [], [], []⟩))
      (reading step ⟨.delete, tableName, conditions, none, [], [], []⟩ [] []) := by
  have first : Goes (starting (Query.tokens ⟨.delete, tableName, conditions, none, [], [], []⟩))
      (reading .deleteFromTable ⟨.delete, [], [], none, [], [], []⟩ [] (.quoted tableName :: whereTokens conditions)) :=
    turn_type .delete (by simp)
  have second : Goes (reading .deleteFromTable ⟨.delete, [], [], none, [], [], []⟩ []
        (.quoted tableName :: whereTokens conditions))
      (reading .where_ ⟨.delete, tableName, [], none, [], [], []⟩ [] (whereTokens conditions)) :=
    turn_table named table rfl
  obtain ⟨step, other, last⟩ := goes_where (q := ⟨.delete, tableName, [], none, [], [], []⟩) complete rfl
  exact ⟨step, other, (first.trans second).trans last⟩

end Parser

section

variable {q q' : Query}

theorem Query.Same.refl (q : Query) : q.Same q := ⟨rfl, fun _ => rfl⟩

/-- The parser reads the canonical text to its end, and has the query then. -/
theorem goes_print (wellFormed : WellFormed q) : ∃ step q', step ≠ .whereField ∧ q.Same q' ∧
    Parser.Goes (Parser.starting q.tokens) (Parser.reading step q' [] []) := by
  cases wellFormed with
  | select tableName conditions fields aliases named table complete chosen filled =>
    exact Parser.goes_select named table complete chosen filled
  | insert tableName inserts fields named table names filled rows nonempty =>
    exact ⟨_, _, by simp, .refl _, Parser.goes_insert named table names filled rows nonempty⟩
  | update tableName conditions updates named table complete nonempty assigned filled =>
    obtain ⟨step, other, goes⟩ := Parser.goes_updateCommand named table complete nonempty assigned filled
    exact ⟨step, _, other, .refl _, goes⟩
  | delete tableName conditions named table complete nonempty =>
    obtain ⟨step, other, goes⟩ := Parser.goes_delete named table complete
    exact ⟨step, _, other, .refl _, goes⟩

theorem conditionError_of_complete {c : Condition} (complete : Complete c) : conditionError c = none := by
  have first := Parser.peek_ne_nil_of_isIdentifier complete.operand1.1
  have second : ¬(c.operand2 = [] ∧ c.operand2IsField = true) := by
    rintro ⟨empty, field⟩
    rw [complete.operand2IsField, empty] at field
    cases field
  simp only [conditionError, complete.operator, first, if_false, Bool.and_eq_true, decide_eq_true_eq, second,
    decide_false, Bool.false_and, Bool.false_eq_true]

/-- What is well-formed passes the checks. -/
theorem validate_of_wellFormed {p : Parser} (wellFormed : WellFormed q) (same : q.Same p.query)
    (other : p.step ≠ .whereField) : validate p = .ok () := by
  have silent : ∀ conditions : List Condition, (∀ c ∈ conditions, Complete c) →
      conditions.findSome? conditionError = none := fun conditions complete =>
    List.findSome?_eq_none_iff.mpr fun c member => conditionError_of_complete (complete c member)
  rw [validate, same.rest]
  cases wellFormed with
  | select tableName conditions fields aliases named table complete chosen filled =>
    simp [other, named, silent conditions complete]
  | insert tableName inserts fields named table names filled rows nonempty =>
    simpa [other, named, nonempty] using fun row member => (rows row member).1
  | update tableName conditions updates named table complete nonempty assigned filled =>
    simp [other, named, nonempty, silent conditions complete]
  | delete tableName conditions named table complete nonempty =>
    simp [other, named, nonempty, silent conditions complete]

theorem tokens_ne_nil (wellFormed : WellFormed q) : q.tokens ≠ [] := by
  cases wellFormed <;> simp [Query.tokens]

/-- The canonical text of a well-formed query is read as this query. -/
theorem parse_of_wellFormed (wellFormed : WellFormed q) : ∃ q', parse q.print = some (.ok q') ∧ q.Same q' := by
  obtain ⟨step, q', other, same, goes⟩ := goes_print wellFormed
  have read : drive Parser.next Parser.ended (spell q.tokens).length (Parser.start (spell q.tokens)) =
      some (.ok (Parser.reading step q' [] [])) :=
    drive_of_turns (fun p : Parser => p.sql.length) (fun p p' turn => Parser.next_shorter turn.2) goes rfl le_rfl
  refine ⟨q', ?_, same⟩
  rw [parse, Query.print, trimSpace_spell (tokens_ne_nil wellFormed), read]
  have valid : validate (Parser.reading step q' [] []) = .ok () := validate_of_wellFormed wellFormed same other
  simp [valid, bind, Except.bind, pure, Except.pure]

theorem print_of_same (same : q.Same q') : q'.print = q.print := by
  have alike : fieldTokens q'.aliases = fieldTokens q.aliases := by
    funext field
    rw [fieldTokens, fieldTokens, same.aliases]
  have rest := same.rest
  rw [Query.print, Query.print, Query.tokens, Query.tokens, alike]
  rw [rest]

end

/-- Whatever text a query was read from, its canonical text is read as the same query, and
has itself as canonical text. -/
theorem canonical_of_parse (sql : Text) (q : Query) (accepted : parse sql = some (.ok q)) :
    ∃ q', parse q.print = some (.ok q') ∧ q.Same q' ∧ q'.print = q.print := by
  obtain ⟨answer, answered, sound⟩ := parse_answers sql
  rw [accepted] at answered
  cases answered
  obtain ⟨q', read, same⟩ := parse_of_wellFormed (sound q rfl)
  exact ⟨q', read, same, print_of_same same⟩

def updateSql : Text := "update lamps set color = 'red', power='9'  where zone = zone1 AND id>='7' and".toList

def updateQuery : Query where
  type := .update
  tableName := "lamps".toList
  conditions := [⟨"zone".toList, true, .eq, "zone1".toList, true⟩, ⟨"id".toList, true, .gte, "7".toList, false⟩]
  updates := some [("color".toList, "red".toList), ("power".toList, "9".toList)]
  inserts := []
  fields := []
  aliases := []

theorem update_canonical : updateQuery.print =
      "UPDATE 'lamps' SET 'color' = 'red' , 'power' = '9' WHERE 'zone' = 'zone1' AND 'id' >= '7'".toList ∧
    ∃ q', parse updateQuery.print = some (.ok q') ∧ updateQuery.Same q' ∧ q'.print = updateQuery.print :=
  ⟨by decide, canonical_of_parse updateSql updateQuery (by decide +kernel)⟩

end Tio.Sql
