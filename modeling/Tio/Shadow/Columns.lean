import Mathlib.Data.List.Basic

/-! The translation of the columns of a query (`sqlparser.go`). A text is the list of its
characters; the tables of Unicode are a parameter. -/

namespace Tio.Shadow

abbrev Text := List Char

/-- The letter cases of Unicode, which are those of ASCII for its characters. -/
structure Unicode where
  isUpper : Char → Bool
  isLower : Char → Bool
  toLower : Char → Char
  upper_ascii : ∀ c : Char, c.toNat < 128 → isUpper c = c.isUpper
  lower_ascii : ∀ c : Char, c.toNat < 128 → isLower c = c.isLower
  toLower_ascii : ∀ c : Char, c.toNat < 128 → toLower c = c.toLower

def validColumns : List Text :=
  ["thingId".toList, "createdAt".toList, "updatedAt".toList, "version".toList, "connected".toList,
    "connectedAt".toList, "disconnectedAt".toList, "remoteAddr".toList]

def validJsonColumnPrefix : List Text :=
  ["tags".toList, "state.reported".toList, "state.desired".toList, "metadata".toList]

/-- The error says that the column is invalid. -/
def validColumn (col : Text) : Except Text Unit :=
  if col ∈ validColumns then .ok ()
  else if validJsonColumnPrefix.any fun p => p.isPrefixOf col then .ok ()
  else .error col

/-- The byte before a position, read as a character. -/
def lastByte (c : Char) : Char :=
  match (String.utf8EncodeChar c).getLast? with
  | some byte => .ofNat byte.toNat
  | none => c

/-- The loop over the characters; `before` is the one that it has passed last. -/
def camelToSnakeFrom (u : Unicode) : (before : Option Char) → Text → Text
  | _, [] => []
  | before, r :: rest =>
    (if u.isUpper r then
      (if before.any fun b => u.isLower (lastByte b) then ['_'] else []) ++ [u.toLower r]
    else [r]) ++ camelToSnakeFrom u (some r) rest

def camelToSnake (u : Unicode) (camelCase : Text) : Text := camelToSnakeFrom u none camelCase

def splitDots (text : Text) : List Text := text.splitOn '.'

def joinDots (segments : List Text) : Text := ['.'].intercalate segments

def jsonExtract (column path : Text) : Text :=
  "json_extract(".toList ++ column ++ ", '$.".toList ++ path ++ "')".toList

def toJsonExtract : List Text → Text
  | f :: rest => jsonExtract f (joinDots rest)
  | [] => []

def toDbCol (u : Unicode) (col : Text) : Text :=
  match splitDots col with
  | [] => []
  | f1 :: rest =>
    if f1 = "tags".toList then toJsonExtract (f1 :: rest)
    else match rest with
      | [] => joinDots [camelToSnake u f1]
      | f2 :: more =>
        if f1 = "state".toList ∧ (f2 = "reported".toList ∨ f2 = "desired".toList) then toJsonExtract (f2 :: more)
        else joinDots (camelToSnake u f1 :: f2 :: more)

/-- The columns of the tables `shadow` and `conn_status`. -/
def columns : List Text :=
  ["thing_id".toList, "desired".toList, "reported".toList, "metadata".toList, "tags".toList, "version".toList,
    "updated_at".toList, "created_at".toList, "connected".toList, "connected_at".toList, "disconnected_at".toList,
    "disconnect_reason".toList, "remote_addr".toList]

/-- A column of the tables, or a path of a JSON column without single quotes. -/
def Closed (text : Text) : Prop :=
  text ∈ columns ∨ ∃ column ∈ ["tags".toList, "reported".toList, "desired".toList],
    ∃ path, '\'' ∉ path ∧ text = jsonExtract column path

/-- The column is named in full. -/
def Plain (col : Text) : Prop := col ∈ "metadata".toList :: validColumns

/-- The first segments name a JSON column that paths are taken of. -/
def JsonPath (col : Text) : Prop :=
  ∃ rest, splitDots col = "tags".toList :: rest ∨ splitDots col = "state".toList :: "reported".toList :: rest ∨
    splitDots col = "state".toList :: "desired".toList :: rest

/-! Splitting at dots. -/

theorem joinDots_splitDots (text : Text) : joinDots (splitDots text) = text := List.intercalate_splitOn '.'

theorem joinDots_cons (segment : Text) (rest : List Text) :
    joinDots (segment :: rest) = segment ++ (if rest = [] then [] else '.' :: joinDots rest) := by
  cases rest with
  | nil => simp [joinDots]
  | cons next later =>
    rw [joinDots, List.intercalate_cons_of_ne_nil (by simp), if_neg (by simp)]
    simp [joinDots]

/-- A text that begins without dots has them in its first segment. -/
theorem splitDots_append {front : Text} (plain : '.' ∉ front) (rest : Text) :
    splitDots (front ++ rest) = (splitDots rest).modifyHead (front ++ ·) := by
  induction front with
  | nil =>
    rw [List.nil_append]
    cases splitDots rest <;> rfl
  | cons head front ih =>
    obtain ⟨first, later⟩ := not_or.mp (List.mem_cons.not.mp plain)
    rw [List.cons_append, splitDots, List.splitOn_cons_eq_if_modifyHead, if_neg]
    · have again := ih later
      rw [splitDots] at again
      rw [again, List.modifyHead_modifyHead]
      rfl
    · simpa using Ne.symm first

theorem splitDots_ne_nil (text : Text) : splitDots text ≠ [] := List.splitOn_ne_nil _ _

/-- The first segment of a text that begins without dots begins so too. -/
theorem splitDots_of_prefix {front col : Text} (plain : '.' ∉ front) (begins : front <+: col) :
    ∃ more rest, splitDots col = (front ++ more) :: rest := by
  obtain ⟨tail, rfl⟩ := begins
  rw [splitDots_append plain]
  cases split : splitDots tail with
  | nil => exact absurd split (splitDots_ne_nil tail)
  | cons more rest => exact ⟨more, rest, rfl⟩

/-! The cases of the translation. -/

section

variable (u : Unicode) {col f1 f2 : Text} {rest : List Text}

theorem toDbCol_tags (split : splitDots col = "tags".toList :: rest) :
    toDbCol u col = jsonExtract "tags".toList (joinDots rest) := by
  rw [toDbCol, split]
  exact if_pos rfl

theorem toDbCol_state (split : splitDots col = "state".toList :: f2 :: rest)
    (known : f2 = "reported".toList ∨ f2 = "desired".toList) : toDbCol u col = jsonExtract f2 (joinDots rest) := by
  rw [toDbCol, split]
  exact (if_neg (by decide)).trans (if_pos ⟨rfl, known⟩)

/-- Every other column has its first segment in snake case. -/
theorem toDbCol_other (split : splitDots col = f1 :: rest) (other : ¬ JsonPath col) :
    toDbCol u col = joinDots (camelToSnake u f1 :: rest) := by
  have untagged : f1 ≠ "tags".toList := by
    rintro rfl
    exact other ⟨rest, .inl split⟩
  rw [toDbCol, split]
  dsimp only
  rw [if_neg untagged]
  cases rest with
  | nil => rfl
  | cons f2 more =>
    refine if_neg ?_
    rintro ⟨rfl, rfl | rfl⟩
    · exact other ⟨more, .inr (.inl split)⟩
    · exact other ⟨more, .inr (.inr split)⟩

/-! What is closed. -/

/-- Texts between the same brackets are the same, when what stands first is. -/
theorem bracket_inj {opening middle closing a b p q : Text}
    (same : opening ++ a ++ middle ++ p ++ closing = opening ++ b ++ middle ++ q ++ closing) :
    (a ≠ [] → b ≠ [] → a.head? = b.head?) ∧ (a = b → p = q) := by
  simp only [List.append_assoc, List.append_cancel_left_eq] at same
  constructor
  · intro first second
    have heads := congrArg List.head? same
    rwa [List.head?_append_of_ne_nil _ first, List.head?_append_of_ne_nil _ second] at heads
  · rintro rfl
    simpa only [List.append_cancel_left_eq, List.append_cancel_right_eq] using same

theorem jsonExtract_inj {column other path path' : Text}
    (first : column ∈ ["tags".toList, "reported".toList, "desired".toList])
    (second : other ∈ ["tags".toList, "reported".toList, "desired".toList])
    (same : jsonExtract column path = jsonExtract other path') : path = path' := by
  have initials : ∀ a ∈ ["tags".toList, "reported".toList, "desired".toList],
      a ≠ [] ∧ ∀ b ∈ ["tags".toList, "reported".toList, "desired".toList], a.head? = b.head? → a = b := by
    decide
  obtain ⟨heads, paths⟩ := bracket_inj same
  obtain ⟨filled, alike⟩ := initials column first
  exact paths (alike other second (heads filled (initials other second).1))

theorem closed_jsonExtract_iff {column path : Text}
    (known : column ∈ ["tags".toList, "reported".toList, "desired".toList]) :
    Closed (jsonExtract column path) ↔ '\'' ∉ path := by
  constructor
  · rintro (stored | ⟨other, known', path', plain, same⟩)
    · have initial : ∀ name ∈ columns, name.head? ≠ some 'j' := by
        decide
      exact absurd rfl (initial _ stored)
    · rw [jsonExtract_inj known known' same]
      exact plain
  · intro plain
    exact .inr ⟨column, known, path, plain, rfl⟩

/-- No column is longer than one of these words and begins with it. -/
theorem not_closed_of_prefix {word text : Text} (known : word ∈ ["tags".toList, "metadata".toList, "state".toList])
    (begins : word <+: text) (longer : text ≠ word) : ¬ Closed text := by
  rintro (stored | ⟨column, -, path, -, rfl⟩)
  · have alone : ∀ word ∈ ["tags".toList, "metadata".toList, "state".toList], ∀ name ∈ columns,
        word <+: name → name = word := by
      decide
    exact longer (alone word known text stored begins)
  · have initial : ∀ word ∈ ["tags".toList, "metadata".toList, "state".toList],
        word ≠ [] ∧ word.head? ≠ some 'j' := by
      decide
    obtain ⟨filled, differs⟩ := initial word known
    obtain ⟨tail, same⟩ := begins
    refine differs ?_
    rw [← List.head?_append_of_ne_nil _ filled, same]
    rfl

/-! Snake case. -/

theorem camelToSnakeFrom_ne_nil (before : Option Char) {text : Text} (filled : text ≠ []) :
    camelToSnakeFrom u before text ≠ [] := by
  cases text with
  | nil => exact absurd rfl filled
  | cons r rest =>
    rw [camelToSnakeFrom]
    split <;> simp

/-- Small letters of ASCII stay, and what follows them is not lost. -/
theorem camelToSnakeFrom_append (before : Option Char) {front : Text}
    (small : ∀ c ∈ front, c.toNat < 128 ∧ c.isUpper = false) (rest : Text) :
    ∃ last, camelToSnakeFrom u before (front ++ rest) = front ++ camelToSnakeFrom u last rest := by
  induction front generalizing before with
  | nil => exact ⟨before, rfl⟩
  | cons c front ih =>
    obtain ⟨ascii, lower⟩ := small c List.mem_cons_self
    obtain ⟨last, later⟩ := ih (some c) fun d member => small d (List.mem_cons_of_mem c member)
    refine ⟨last, ?_⟩
    rw [List.cons_append, camelToSnakeFrom, later, u.upper_ascii c ascii, lower]
    rfl

/-- The first segment in snake case begins as it did. -/
theorem translated_prefix {word : Text} (small : ∀ c ∈ word, c.toNat < 128 ∧ c.isUpper = false) (more : Text)
    (rest : List Text) (longer : more ≠ [] ∨ rest ≠ []) :
    word <+: joinDots (camelToSnake u (word ++ more) :: rest) ∧
      joinDots (camelToSnake u (word ++ more) :: rest) ≠ word := by
  obtain ⟨last, same⟩ := camelToSnakeFrom_append u none small more
  rw [joinDots_cons, camelToSnake, same, List.append_assoc]
  refine ⟨List.prefix_append _ _, fun equal => ?_⟩
  have tail := List.append_right_eq_self.mp equal
  rw [List.append_eq_nil_iff] at tail
  rcases longer with letters | segments
  · exact camelToSnakeFrom_ne_nil u last letters tail.1
  · rw [if_neg segments] at tail
    cases tail.2

end

/-- The letter cases of the characters of ASCII alone. -/
def ascii : Unicode where
  isUpper := Char.isUpper
  isLower := Char.isLower
  toLower := Char.toLower
  upper_ascii := fun _ _ => rfl
  lower_ascii := fun _ _ => rfl
  toLower_ascii := fun _ _ => rfl

theorem lastByte_ascii {c : Char} (small : c.toNat < 128) : lastByte c = c := by
  have one : String.utf8EncodeChar c = [c.val.toUInt8] := by
    refine String.utf8EncodeChar_eq_singleton ?_
    rw [Char.utf8Size]
    exact if_pos (Nat.le_of_lt_succ small)
  have same : c.val.toUInt8.toNat = c.toNat := by
    rw [UInt32.toNat_toUInt8]
    exact Nat.mod_eq_of_lt (Nat.lt_trans small (by decide))
  rw [lastByte, one, List.getLast?_singleton]
  dsimp only
  rw [same, Char.ofNat_toNat]

theorem camelToSnakeFrom_ascii (u : Unicode) (before : Option Char) {text : Text}
    (known : ∀ b ∈ before, b.toNat < 128) (small : ∀ c ∈ text, c.toNat < 128) :
    camelToSnakeFrom u before text = camelToSnakeFrom ascii before text := by
  induction text generalizing before with
  | nil => rfl
  | cons r rest ih =>
    have here := small r List.mem_cons_self
    have later := ih (some r) (by simpa using here) fun d member => small d (List.mem_cons_of_mem r member)
    have passed : (before.any fun b => u.isLower (lastByte b)) = before.any fun b => ascii.isLower (lastByte b) := by
      cases before with
      | none => rfl
      | some b =>
        have near := known b rfl
        rw [Option.any_some, Option.any_some, lastByte_ascii near, u.lower_ascii b near]
        rfl
    rw [camelToSnakeFrom, camelToSnakeFrom, later, passed, u.upper_ascii r here, u.toLower_ascii r here]
    rfl

/-- Each column that is named in full is one of the tables. -/
theorem closed_of_plain (u : Unicode) {col : Text} (plain : Plain col) : Closed (toDbCol u col) := by
  have facts : ∀ name ∈ "metadata".toList :: validColumns, splitDots name = [name] ∧
      (name.all fun c => c.toNat < 128) = true ∧ name ≠ "tags".toList ∧ joinDots [camelToSnake ascii name] ∈ columns := by
    decide +kernel
  obtain ⟨split, small, untagged, stored⟩ := facts col plain
  have same : camelToSnake u col = camelToSnake ascii col :=
    camelToSnakeFrom_ascii u none (fun b no => nomatch no) fun c member =>
      of_decide_eq_true (List.all_eq_true.mp small c member)
  rw [toDbCol, split]
  dsimp only
  rw [if_neg untagged, same]
  exact .inl stored

/-- A translated path is closed when the column has no single quotes. -/
theorem closed_of_jsonPath (u : Unicode) {col : Text} (path : JsonPath col) :
    Closed (toDbCol u col) ↔ '\'' ∉ col := by
  have rejoined := joinDots_splitDots col
  obtain ⟨rest, split | split | split⟩ := path
  · rw [toDbCol_tags u split, closed_jsonExtract_iff (by simp), ← rejoined, split, joinDots_cons]
    by_cases last : rest = [] <;> simp [last, joinDots]
  · rw [toDbCol_state u split (.inl rfl), closed_jsonExtract_iff (by simp), ← rejoined, split, joinDots_cons,
      joinDots_cons]
    by_cases last : rest = [] <;> simp [last, joinDots]
  · rw [toDbCol_state u split (.inr rfl), closed_jsonExtract_iff (by simp), ← rejoined, split, joinDots_cons,
      joinDots_cons]
    by_cases last : rest = [] <;> simp [last, joinDots]

/-- An accepted column is named in full or begins with a prefix of a JSON column. -/
theorem accepted_iff {col : Text} :
    validColumn col = .ok () ↔ col ∈ validColumns ∨ ∃ p ∈ validJsonColumnPrefix, p <+: col := by
  rw [validColumn]
  by_cases named : col ∈ validColumns
  · simp [named]
  · rw [if_neg named, or_iff_right named]
    constructor
    · intro accepted
      split at accepted
      · rename_i begun
        obtain ⟨p, known, begins⟩ := List.any_eq_true.mp begun
        exact ⟨p, known, List.isPrefixOf_iff_prefix.mp begins⟩
      · cases accepted
    · rintro ⟨p, known, begins⟩
      have tested : p.isPrefixOf col = true := List.isPrefixOf_iff_prefix.mpr begins
      exact if_pos (List.any_eq_true.mpr ⟨p, known, tested⟩)

/-- A column that only begins with a prefix of a JSON column is not one of the tables. -/
theorem not_closed_of_other (u : Unicode) {col : Text} (accepted : validColumn col = .ok ()) (partly : ¬ Plain col)
    (other : ¬ JsonPath col) : ¬ Closed (toDbCol u col) := by
  have small : ∀ word ∈ ["tags".toList, "metadata".toList, "state".toList],
      (word.all fun c => c.toNat < 128 ∧ c.isUpper = false) = true := by
    decide +kernel
  have behind : ∀ word ∈ ["tags".toList, "metadata".toList, "state".toList], ∀ more rest,
      splitDots col = (word ++ more) :: rest → (more ≠ [] ∨ rest ≠ []) → ¬ Closed (toDbCol u col) := by
    intro word known more rest split longer
    rw [toDbCol_other u split other]
    obtain ⟨begins, differs⟩ := translated_prefix u
      (fun c member => of_decide_eq_true (List.all_eq_true.mp (small word known) c member)) more rest longer
    exact not_closed_of_prefix known begins differs
  have dotless : '.' ∉ "tags".toList ∧ '.' ∉ "metadata".toList ∧ '.' ∉ "state".toList := by
    decide
  have rejoined := joinDots_splitDots col
  rcases accepted_iff.mp accepted with named | ⟨p, known, begins⟩
  · exact absurd (List.mem_cons_of_mem _ named) partly
  · have kinds : ∀ p ∈ validJsonColumnPrefix,
        p = "tags".toList ∨ ("state".toList ++ ['.']) <+: p ∨ p = "metadata".toList := by
      decide
    rcases kinds p known with rfl | state | rfl
    · obtain ⟨more, rest, split⟩ := splitDots_of_prefix dotless.1 begins
      refine behind _ (by simp) more rest split (.inl ?_)
      rintro rfl
      exact other ⟨rest, .inl (by simpa using split)⟩
    · obtain ⟨tail, rfl⟩ := state.trans begins
      have split := splitDots_append dotless.2.2 ('.' :: tail)
      have first : splitDots ('.' :: tail) = [] :: splitDots tail := by
        rw [splitDots, List.splitOn_cons_eq_if_modifyHead]
        exact if_pos (beq_self_eq_true '.')
      rw [first] at split
      refine behind "state".toList (by simp) [] (splitDots tail) ?_ (.inr (splitDots_ne_nil tail))
      rw [List.append_assoc, List.singleton_append]
      exact split
    · obtain ⟨more, rest, split⟩ := splitDots_of_prefix dotless.2.1 begins
      refine behind _ (by simp) more rest split ?_
      by_contra short
      rw [not_or, not_not, not_not] at short
      obtain ⟨rfl, rfl⟩ := short
      rw [split, joinDots_cons] at rejoined
      exact partly (by rw [← rejoined, Plain]; simp)

end Tio.Shadow
