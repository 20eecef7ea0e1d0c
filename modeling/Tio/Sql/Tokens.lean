import Tio.Sql.Parser

namespace Tio.Sql

open Tio.Core

/-- No quote ends the text before its end, when it is quoted behind the character. -/
def Quotable : (before : Char) → Text → Prop
  | before, [] => before ≠ '\\'
  | before, c :: rest => ¬(c = '\'' ∧ before ≠ '\\') ∧ Quotable c rest

instance Quotable.decidable : (before : Char) → (text : Text) → Decidable (Quotable before text)
  | before, [] => inferInstanceAs (Decidable (before ≠ '\\'))
  | before, c :: rest =>
    have : Decidable (Quotable c rest) := Quotable.decidable c rest
    inferInstanceAs (Decidable (¬(c = '\'' ∧ before ≠ '\\') ∧ Quotable c rest))

/-- The text can stand between quotes. -/
abbrev Quoted (text : Text) : Prop := Quotable '\'' text

section

variable {before : Char} {text content : Text}

theorem contentFrom_of_quotable (quotable : Quotable before content) (rest : Text) :
    contentFrom before (content ++ '\'' :: rest) = some content := by
  induction content generalizing before with
  | nil =>
    have unescaped : before ≠ '\\' := quotable
    simp [contentFrom, unescaped]
  | cons c content ih =>
    obtain ⟨inside, later⟩ := quotable
    have goes : (decide (c = '\'') && decide (before ≠ '\\')) = false := by simpa using inside
    rw [List.cons_append, contentFrom, goes, ih later]
    rfl

theorem quotable_of_contentFrom (found : contentFrom before text = some content) : Quotable before content := by
  induction text generalizing before content with
  | nil => cases found
  | cons c text ih =>
    rw [contentFrom] at found
    split at found
    · rename_i closes
      cases found
      simp only [Bool.and_eq_true, decide_eq_true_eq] at closes
      exact closes.2
    · rename_i inside
      obtain ⟨later, closes, rfl⟩ := Option.map_eq_some_iff.mp found
      exact ⟨by simpa using inside, ih closes⟩

theorem quotable_of_plain (unescaped : before ≠ '\\') (plain : ∀ c ∈ text, c ≠ '\'' ∧ c ≠ '\\') :
    Quotable before text := by
  induction text generalizing before with
  | nil => exact unescaped
  | cons c text ih =>
    obtain ⟨first, later⟩ := List.forall_mem_cons.mp plain
    exact ⟨fun closes => first.1 closes.1, ih first.2 later⟩

theorem quoted_quotedString (text : Text) : Quoted (quotedString text).1 := by
  cases text with
  | nil => decide
  | cons c rest =>
    rw [quotedString]
    split
    · split
      · rename_i closed
        subst c
        exact quotable_of_contentFrom closed
      · decide
    · decide

theorem isNamePart_plain {c : Char} (part : isNamePart c = true) : c ≠ '\'' ∧ c ≠ '\\' := by
  constructor <;> rintro rfl <;> revert part <;> decide

theorem quoted_peekWithLength (text : Text) : Quoted (peekWithLength text).1 := by
  rw [peekWithLength]
  split
  · decide
  · split
    · rename_i rWord found
      have known : ∀ w ∈ reservedWords, Quoted w := by decide
      exact known rWord (List.mem_of_find?_eq_some found)
    · split
      · exact quoted_quotedString text
      · exact quotable_of_plain (by decide) fun c member => isNamePart_plain (List.mem_takeWhile_imp member)

theorem quotedString_pos (read : (quotedString text).1 ≠ []) : 0 < (quotedString text).2 := by
  revert read
  unfold quotedString
  split
  · exact fun read => absurd rfl read
  · split
    · split
      · exact fun _ => Nat.succ_pos _
      · exact fun read => absurd rfl read
    · exact fun read => absurd rfl read

/-- What is read is taken off the text. -/
theorem peekWithLength_pos (read : (peekWithLength text).1 ≠ []) : 0 < (peekWithLength text).2 := by
  revert read
  unfold peekWithLength
  split
  · exact fun read => absurd rfl read
  · split
    · rename_i rWord found
      have filled : ∀ w ∈ reservedWords, 0 < w.length := by decide
      exact fun _ => filled rWord (List.mem_of_find?_eq_some found)
    · split
      · exact quotedString_pos
      · exact List.length_pos_iff.mpr

/-- No reserved word begins with a quote. -/
theorem peekWithLength_quote (rest : Text) : peekWithLength ('\'' :: rest) = quotedString ('\'' :: rest) := by
  have unreserved : reservedWords.find? (fun rWord => (('\'' :: rest).take rWord.length).map Char.toUpper = rWord) = none := by
    refine List.find?_eq_none.mpr fun rWord member same => ?_
    have apart : ∀ w ∈ reservedWords, w ≠ [] ∧ w.head? ≠ some '\'' := by decide
    obtain ⟨filled, other⟩ := apart rWord member
    obtain ⟨c, word, rfl⟩ := List.exists_cons_of_ne_nil filled
    simp only [List.length_cons, List.take_succ_cons, List.map_cons, decide_eq_true_eq, List.cons.injEq] at same
    exact other (by rw [List.head?_cons, ← same.1]; rfl)
  rw [peekWithLength, if_neg (by simp), unreserved]
  exact if_pos rfl

end

namespace Parser

variable {p p' : Parser}

theorem pop_le (p : Parser) : p.pop.sql.length ≤ p.sql.length := by
  have dropped := ((p.sql.drop (peekWithLength p.sql).2).dropWhile_sublist (· = ' ')).length_le
  rw [List.length_drop] at dropped
  exact le_trans dropped (Nat.sub_le _ _)

theorem pop_lt_of_pos (filled : p.sql ≠ []) (read : 0 < (peekWithLength p.sql).2) :
    p.pop.sql.length < p.sql.length := by
  have dropped := ((p.sql.drop (peekWithLength p.sql).2).dropWhile_sublist (· = ' ')).length_le
  have positive := List.length_pos_iff.mpr filled
  rw [List.length_drop] at dropped
  exact lt_of_le_of_lt dropped (by omega)

/-- A token that is read is taken off the text. -/
theorem pop_lt (read : p.peek ≠ []) : p.pop.sql.length < p.sql.length := by
  refine pop_lt_of_pos ?_ (peekWithLength_pos read)
  intro empty
  rw [peek, empty] at read
  exact read rfl

end Parser

end Tio.Sql
