import Tio.Sql.Accepted

namespace Tio.Sql

open Tio.Core

inductive Word
  | select | insertInto | update | deleteFrom | values | from_ | set | as_ | where_ | and_
  | comma | openingParens | closingParens
  | eq | ne | gt | lt | gte | lte
deriving DecidableEq

def Word.text : Word → Text
  | .select => "SELECT".toList
  | .insertInto => "INSERT INTO".toList
  | .update => "UPDATE".toList
  | .deleteFrom => "DELETE FROM".toList
  | .values => "VALUES".toList
  | .from_ => "FROM".toList
  | .set => "SET".toList
  | .as_ => "AS".toList
  | .where_ => "WHERE".toList
  | .and_ => "AND".toList
  | .comma => ",".toList
  | .openingParens => "(".toList
  | .closingParens => ")".toList
  | .eq => "=".toList
  | .ne => "!=".toList
  | .gt => ">".toList
  | .lt => "<".toList
  | .gte => ">=".toList
  | .lte => "<=".toList

inductive Token
  | word (w : Word)
  | quoted (content : Text)

def Token.text : Token → Text
  | .word w => w.text
  | .quoted content => '\'' :: (content ++ ['\''])

def spell : List Token → Text
  | [] => []
  | [token] => token.text
  | token :: rest => token.text ++ ' ' :: spell rest

def fieldTokens (aliases : List (Text × Text)) (field : Text) : List Token :=
  match Assoc.get field aliases with
  | some alias_ => [.quoted field, .word .as_, .quoted alias_]
  | none => [.quoted field]

def Operator.word : Operator → Word
  | .ne => .ne
  | .gt => .gt
  | .lt => .lt
  | .gte => .gte
  | .lte => .lte
  -- no complete condition has the unknown one
  | .eq | .unknownOperator => .eq

def conditionTokens (c : Condition) : List Token := [.quoted c.operand1, .word c.operator.word, .quoted c.operand2]

def whereTokens (conditions : List Condition) : List Token :=
  if conditions = [] then [] else .word .where_ :: separated [.word .and_] conditionTokens conditions

def updateTokens (entry : Text × Text) : List Token := [.quoted entry.1, .word .eq, .quoted entry.2]

def rowTokens (row : List Text) : List Token :=
  .word .openingParens :: separated [.word .comma] (fun value => [.quoted value]) row ++ [.word .closingParens]

def Query.tokens (q : Query) : List Token :=
  match q.type with
  | .unknownType => []
  | .select => .word .select :: (separated [.word .comma] (fieldTokens q.aliases) q.fields ++
      .word .from_ :: .quoted q.tableName :: whereTokens q.conditions)
  | .insert => .word .insertInto :: .quoted q.tableName :: .word .openingParens ::
      (separated [.word .comma] (fun field => [.quoted field]) q.fields ++
        .word .closingParens :: .word .values :: separated [.word .comma] rowTokens q.inserts)
  | .update => .word .update :: .quoted q.tableName :: .word .set ::
      (separated [.word .comma] updateTokens (q.updates.getD []) ++ whereTokens q.conditions)
  | .delete => .word .deleteFrom :: .quoted q.tableName :: whereTokens q.conditions

def Query.print (q : Query) : Text := spell q.tokens

/-- The same query; a map of Go has no order. -/
structure Query.Same (q q' : Query) : Prop where
  rest : q' = { q with aliases := q'.aliases }
  aliases : ∀ field, Assoc.get field q'.aliases = Assoc.get field q.aliases

/-! Reading tokens. -/

theorem peekWithLength_word (w : Word) (rest : Text) :
    peekWithLength (w.text ++ ' ' :: rest) = (w.text, w.text.length) := by
  cases w <;> rfl

theorem peekWithLength_word_last (w : Word) : peekWithLength w.text = (w.text, w.text.length) := by
  cases w <;> rfl

theorem peekWithLength_quoted {content : Text} (quoted : Quoted content) (rest : Text) :
    peekWithLength ('\'' :: (content ++ '\'' :: rest)) = (content, content.length + 2) := by
  rw [peekWithLength_quote, quotedString, if_pos rfl, contentFrom_of_quotable quoted]

theorem spell_cons (token : Token) (rest : List Token) :
    spell (token :: rest) = token.text ++ if rest = [] then [] else ' ' :: spell rest := by
  cases rest with
  | nil => simp [spell]
  | cons => simp [spell]

theorem text_begins (token : Token) : ∃ c rest, token.text = c :: rest ∧ isSpace c = false := by
  cases token with
  | word w => cases w <;> exact ⟨_, _, rfl, by decide⟩
  | quoted content => exact ⟨_, _, rfl, by decide⟩

theorem text_ends (token : Token) : ∃ front c, token.text = front ++ [c] ∧ isSpace c = false := by
  cases token with
  | word w =>
    have ends : ∀ w : Word, isSpace (w.text.getLastD 'a') = false ∧ w.text ≠ [] := by
      intro w
      cases w <;> decide
    obtain ⟨solid, filled⟩ := ends w
    refine ⟨w.text.dropLast, w.text.getLast filled, (List.dropLast_append_getLast filled).symm, ?_⟩
    rwa [List.getLastD_eq_getLast?, List.getLast?_eq_some_getLast filled] at solid
  | quoted content => exact ⟨'\'' :: content, _, rfl, by decide⟩

theorem spell_begins {tokens : List Token} (filled : tokens ≠ []) :
    ∃ c rest, spell tokens = c :: rest ∧ isSpace c = false := by
  obtain ⟨token, rest, rfl⟩ := List.exists_cons_of_ne_nil filled
  obtain ⟨c, more, same, solid⟩ := text_begins token
  exact ⟨c, _, by rw [spell_cons, same, List.cons_append], solid⟩

theorem spell_ends {tokens : List Token} (filled : tokens ≠ []) :
    ∃ front c, spell tokens = front ++ [c] ∧ isSpace c = false := by
  induction tokens with
  | nil => exact absurd rfl filled
  | cons token rest ih =>
    rw [spell_cons]
    split
    · rw [List.append_nil]
      exact text_ends token
    · rename_i more
      obtain ⟨front, c, same, solid⟩ := ih more
      exact ⟨token.text ++ ' ' :: front, c, by simp [same], solid⟩

theorem trimSpace_spell {tokens : List Token} (filled : tokens ≠ []) : trimSpace (spell tokens) = spell tokens := by
  obtain ⟨c, rest, begins, solid⟩ := spell_begins filled
  obtain ⟨front, c', ends, solid'⟩ := spell_ends filled
  have front : (spell tokens).dropWhile isSpace = spell tokens := by
    rw [begins, List.dropWhile_cons_of_neg (by simp [solid])]
  rw [trimSpace, front, ends, List.rdropWhile_concat_neg _ _ _ (by simp [solid'])]

theorem toUpper_text (w : Word) : toUpper w.text = w.text := by
  cases w <;> rfl

end Tio.Sql
