import Mathlib.Data.List.DropRight
import Tio.Core.Assoc
import Tio.Core.Drive

/-! The parser of `pkg/sqlparser/sql.go`, with the queries of `pkg/sqlparser/query/query.go`.
A text is the list of its characters, and the parser keeps the part of it that starts at
its position. -/

namespace Tio.Sql

open Tio.Core

abbrev Text := List Char

inductive QueryType
  | unknownType | select | update | insert | delete
deriving DecidableEq

inductive Operator
  | unknownOperator | eq | ne | gt | lt | gte | lte
deriving DecidableEq

structure Condition where
  operand1 : Text
  operand1IsField : Bool
  operator : Operator
  operand2 : Text
  operand2IsField : Bool
deriving DecidableEq

structure Query where
  type : QueryType
  tableName : Text
  conditions : List Condition
  /-- Only an update makes the map. -/
  updates : Option (List (Text × Text))
  inserts : List (List Text)
  fields : List Text
  aliases : List (Text × Text)
deriving DecidableEq

def QueryType.begin_ : QueryType → Query → Query
  | .update, q => { q with type := .update, updates := some [] }
  | type, q => { q with type := type }

inductive Step
  | type
  | selectField | selectFrom | selectComma | selectFromTable
  | insertTable | insertFieldsOpeningParens | insertFields | insertFieldsCommaOrClosingParens
  | insertValuesOpeningParens | insertValuesRWord | insertValues | insertValuesCommaOrClosingParens
  | insertValuesCommaBeforeOpeningParens
  | updateTable | updateSet | updateField | updateEquals | updateValue | updateComma
  | deleteFromTable
  | where_ | whereField | whereOperator | whereValue | whereAnd
deriving DecidableEq

def reservedWords : List Text :=
  ["(".toList, ")".toList, ">=".toList, "<=".toList, "!=".toList, ",".toList, "=".toList, ">".toList, "<".toList,
    "SELECT".toList, "INSERT INTO".toList, "VALUES".toList, "UPDATE".toList, "DELETE FROM".toList,
    "WHERE".toList, "FROM".toList, "SET".toList, "AS".toList]

/-- The upper case of a text that is only compared with words in ASCII. Two characters
outside of it have their upper case there. -/
def toUpper (text : Text) : Text :=
  text.map fun c => if c = 'ı' then 'I' else if c = 'ſ' then 'S' else c.toUpper

def isIdentifier (s : Text) : Bool :=
  !reservedWords.contains (toUpper s) && s.any fun c => c.isAlpha || c = '_'

def isIdentifierOrAsterisk (s : Text) : Bool := isIdentifier s || s = "*".toList

/-- The text up to the first quote that no backslash stands before. -/
def contentFrom : (before : Char) → Text → Option Text
  | _, [] => none
  | before, c :: rest =>
    if c = '\'' && before ≠ '\\' then some [] else (contentFrom c rest).map (c :: ·)

/-- A quoted string at the start of a text, without the quotes, and its length with them. -/
def quotedString : Text → Text × Nat
  | [] => ([], 0)
  | c :: rest =>
    if c = '\'' then
      match contentFrom c rest with
      | some content => (content, content.length + 2)
      | none => ([], 0)
    else ([], 0)

/-- Behind the end of the text the index is out of range. -/
def peekQuotedStringWithLength (sql : Text) : Option (Text × Nat) :=
  if sql = [] then none else some (quotedString sql)

def isNamePart (c : Char) : Bool := c.isAlphanum || c = '_' || c = '*' || c = '.'

def peekIdentifierWithLength (sql : Text) : Text × Nat :=
  (sql.takeWhile isNamePart, (sql.takeWhile isNamePart).length)

/-- A reserved word takes as many bytes of the text as it has, so only letters of ASCII
become it. -/
def peekWithLength (sql : Text) : Text × Nat :=
  if sql = [] then ([], 0)
  else match reservedWords.find? fun rWord => (sql.take rWord.length).map Char.toUpper = rWord with
    | some rWord => (rWord, rWord.length)
    | none => if sql.head? = some '\'' then quotedString sql else peekIdentifierWithLength sql

structure Parser where
  sql : Text
  step : Step
  query : Query
  nextUpdateField : Text
deriving DecidableEq

namespace Parser

def peek (p : Parser) : Text := (peekWithLength p.sql).1

def pop (p : Parser) : Parser :=
  { p with sql := (p.sql.drop (peekWithLength p.sql).2).dropWhile (· = ' ') }

def goto (step : Step) (p : Parser) : Parser := { p with step := step }

def edit (change : Query → Query) (p : Parser) : Parser := { p with query := change p.query }

/-- Go on behind a word, in any case of its letters. -/
def word (word : String) (step : Step) (message : String) (p : Parser) : Except String Parser :=
  if toUpper p.peek = word.toList then .ok (p.pop.goto step) else .error message

/-- Go on behind a token that is written exactly so. -/
def token (token : String) (step : Step) (message : String) (p : Parser) : Except String Parser :=
  if p.peek = token.toList then .ok (p.pop.goto step) else .error message

def type (p : Parser) : Except String Parser :=
  let begins (type : QueryType) (step : Step) := .ok ((p.edit type.begin_).pop.goto step)
  if toUpper p.peek = "SELECT".toList then begins .select .selectField
  else if toUpper p.peek = "INSERT INTO".toList then begins .insert .insertTable
  else if toUpper p.peek = "UPDATE".toList then begins .update .updateTable
  else if toUpper p.peek = "DELETE FROM".toList then begins .delete .deleteFromTable
  else .error "invalid query type"

def selectNext (p : Parser) : Parser :=
  if toUpper p.peek = "FROM".toList then p.goto .selectFrom else p.goto .selectComma

def selectField (p : Parser) : Except String Parser :=
  let identifier := p.peek
  if isIdentifierOrAsterisk identifier then
    let p := (p.edit fun q => { q with fields := q.fields ++ [identifier] }).pop
    if toUpper p.peek = "AS".toList then
      let p := p.pop
      let alias_ := p.peek
      if isIdentifier alias_ then
        .ok (p.edit fun q => { q with aliases := Assoc.set identifier alias_ q.aliases }).pop.selectNext
      else .error ("at SELECT: expected field alias for \"" ++ String.ofList identifier ++ " as\" to SELECT")
    else .ok p.selectNext
  else .error "at SELECT: expected field to SELECT"

/-- The four commands name their table alike. -/
def table (step : Step) (message : String) (p : Parser) : Except String Parser :=
  if p.peek = [] then .error message
  else .ok ((p.edit fun q => { q with tableName := p.peek }).pop.goto step)

def updateField (p : Parser) : Except String Parser :=
  if isIdentifier p.peek then .ok ({ p with nextUpdateField := p.peek }.pop.goto .updateEquals)
  else .error "at UPDATE: expected at least one field to update"

/-- In a map that was never made nothing can be stored. -/
def updateValue (p : Parser) : Option (Except String Parser) := do
  let (quotedValue, ln) ← peekQuotedStringWithLength p.sql
  if ln = 0 then some (.error "at UPDATE: expected quoted value")
  else
    let updates ← p.query.updates
    let p := p.edit fun q => { q with updates := some (Assoc.set p.nextUpdateField quotedValue updates) }
    let p := { p with nextUpdateField := [] }.pop
    if toUpper p.peek = "WHERE".toList then some (.ok (p.goto .where_)) else some (.ok (p.goto .updateComma))

def whereField (p : Parser) : Except String Parser :=
  let identifier := p.peek
  if isIdentifier identifier then
    .ok ((p.edit fun q => { q with
      conditions := q.conditions ++ [⟨identifier, true, .unknownOperator, [], false⟩] }).pop.goto .whereOperator)
  else .error "at WHERE: expected field"

def toOperator (token : Text) : Option Operator :=
  if token = "=".toList then some .eq
  else if token = ">".toList then some .gt
  else if token = ">=".toList then some .gte
  else if token = "<".toList then some .lt
  else if token = "<=".toList then some .lte
  else if token = "!=".toList then some .ne
  else none

/-- The condition that was begun takes the place of itself. -/
def setCondition (condition : Condition) (p : Parser) : Parser :=
  p.edit fun q => { q with conditions := q.conditions.dropLast ++ [condition] }

/-- Without a condition the index is out of range. -/
def whereOperator (p : Parser) : Option (Except String Parser) := do
  let currentCondition ← p.query.conditions.getLast?
  match toOperator p.peek with
  | some operator => some (.ok ((p.setCondition { currentCondition with operator := operator }).pop.goto .whereValue))
  | none => some (.error "at WHERE: unknown operator")

def whereValue (p : Parser) : Option (Except String Parser) := do
  let currentCondition ← p.query.conditions.getLast?
  let done (operand2 : Text) (isField : Bool) := some (.ok ((p.setCondition
    { currentCondition with operand2 := operand2, operand2IsField := isField }).pop.goto .whereAnd))
  if isIdentifier p.peek then done p.peek true
  else
    let (quotedValue, ln) ← peekQuotedStringWithLength p.sql
    if ln = 0 then some (.error "at WHERE: expected quoted value") else done quotedValue false

def insertFields (p : Parser) : Except String Parser :=
  let identifier := p.peek
  if isIdentifier identifier then
    .ok ((p.edit fun q => { q with fields := q.fields ++ [identifier] }).pop.goto .insertFieldsCommaOrClosingParens)
  else .error "at INSERT INTO: expected at least one field to insert"

def insertFieldsCommaOrClosingParens (p : Parser) : Except String Parser :=
  if p.peek = ",".toList then .ok (p.pop.goto .insertFields)
  else if p.peek = ")".toList then .ok (p.pop.goto .insertValuesRWord)
  else .error "at INSERT INTO: expected comma or closing parens"

def insertValuesOpeningParens (p : Parser) : Except String Parser :=
  if p.peek = "(".toList then
    .ok ((p.edit fun q => { q with inserts := q.inserts ++ [[]] }).pop.goto .insertValues)
  else .error "at INSERT INTO: expected opening parens"

/-- Without a row the index is out of range. -/
def insertValues (p : Parser) : Option (Except String Parser) := do
  let (quotedValue, ln) ← peekQuotedStringWithLength p.sql
  if ln = 0 then some (.error "at INSERT INTO: expected quoted value")
  else
    let row ← p.query.inserts.getLast?
    some (.ok ((p.edit fun q => { q with inserts := q.inserts.dropLast ++ [row ++ [quotedValue]] }).pop.goto
      .insertValuesCommaOrClosingParens))

def insertValuesCommaOrClosingParens (p : Parser) : Option (Except String Parser) :=
  if p.peek = ",".toList then some (.ok (p.pop.goto .insertValues))
  else if p.peek = ")".toList then do
    let currentInsertRow ← p.query.inserts.getLast?
    if currentInsertRow.length < p.query.fields.length then
      some (.error "at INSERT INTO: value count doesn't match field count")
    else some (.ok (p.pop.goto .insertValuesCommaBeforeOpeningParens))
  else some (.error "at INSERT INTO: expected comma or closing parens")

/-- A turn of the loop of `doParse`; where it panics there is none. -/
def next (p : Parser) : Option (Except String Parser) :=
  match p.step with
  | .type => some p.type
  | .selectField => some p.selectField
  | .selectComma => some (p.token "," .selectField "at SELECT: expected comma or FROM")
  | .selectFrom => some (p.word "FROM" .selectFromTable "at SELECT: expected FROM")
  | .selectFromTable => some (p.table .where_ "at SELECT: expected quoted table name")
  | .insertTable => some (p.table .insertFieldsOpeningParens "at INSERT INTO: expected quoted table name")
  | .deleteFromTable => some (p.table .where_ "at DELETE FROM: expected quoted table name")
  | .updateTable => some (p.table .updateSet "at UPDATE: expected quoted table name")
  | .updateSet => some (p.token "SET" .updateField "at UPDATE: expected 'SET'")
  | .updateField => some p.updateField
  | .updateEquals => some (p.token "=" .updateValue "at UPDATE: expected '='")
  | .updateValue => p.updateValue
  | .updateComma => some (p.token "," .updateField "at UPDATE: expected ','")
  | .where_ => some (p.word "WHERE" .whereField "expected WHERE")
  | .whereField => some p.whereField
  | .whereOperator => p.whereOperator
  | .whereValue => p.whereValue
  | .whereAnd => some (p.word "AND" .whereField "expected AND")
  | .insertFieldsOpeningParens => some (p.token "(" .insertFields "at INSERT INTO: expected opening parens")
  | .insertFields => some p.insertFields
  | .insertFieldsCommaOrClosingParens => some p.insertFieldsCommaOrClosingParens
  | .insertValuesRWord => some (p.word "VALUES" .insertValuesOpeningParens "at INSERT INTO: expected 'VALUES'")
  | .insertValuesOpeningParens => some p.insertValuesOpeningParens
  | .insertValues => p.insertValues
  | .insertValuesCommaOrClosingParens => p.insertValuesCommaOrClosingParens
  | .insertValuesCommaBeforeOpeningParens =>
    some (p.word "," .insertValuesOpeningParens "at INSERT INTO: expected comma")

def ended (p : Parser) : Bool := p.sql = []

def start (sql : Text) : Parser where
  sql := sql
  step := .type
  query := ⟨.unknownType, [], [], none, [], [], []⟩
  nextUpdateField := []

end Parser

def conditionError (c : Condition) : Option String :=
  if c.operator = .unknownOperator then some "at WHERE: condition without operator"
  else if c.operand1 = [] && c.operand1IsField then some "at WHERE: condition with empty left side operand"
  else if c.operand2 = [] && c.operand2IsField then some "at WHERE: condition with empty right side operand"
  else none

def validate (p : Parser) : Except String Unit :=
  let q := p.query
  if q.conditions = [] && p.step = .whereField then .error "at WHERE: empty WHERE clause"
  else if q.type = .unknownType then .error "query type cannot be empty"
  else if q.tableName = [] then .error "table name cannot be empty"
  else if q.conditions = [] && (q.type = .update || q.type = .delete) then
    .error "at WHERE: WHERE clause is mandatory for UPDATE & DELETE"
  else match q.conditions.findSome? conditionError with
    | some message => .error message
    | none =>
      if q.type = .insert && q.inserts = [] then .error "at INSERT INTO: need at least one row to insert"
      else if q.type = .insert && q.inserts.any (fun i => i.length ≠ q.fields.length) then
        .error "at INSERT INTO: value count doesn't match field count"
      else .ok ()

/-- The white space of Unicode. -/
def isSpace (c : Char) : Bool :=
  (9 ≤ c.toNat && c.toNat ≤ 13) || c.toNat ∈ [0x20, 0x85, 0xa0, 0x1680, 0x2028, 0x2029, 0x202f, 0x205f, 0x3000] ||
    (0x2000 ≤ c.toNat && c.toNat ≤ 0x200a)

def trimSpace (sql : Text) : Text := (sql.dropWhile isSpace).rdropWhile isSpace

/-- Each turn of the loop takes a character at least, so their number is fuel enough. -/
def parse (sql : Text) : Option (Except String Query) :=
  (drive Parser.next Parser.ended (trimSpace sql).length (.start (trimSpace sql))).map fun parsed => do
    let p ← parsed
    validate p
    return p.query

end Tio.Sql
