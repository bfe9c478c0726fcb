import SchemaAlign.Parser.Constraint

/-!
# `CREATE TABLE`

* `typeName?`: the type of a column;
* `column?`: the definition of a column;
* `tableOption?`: an option after the columns;
* `createTable?`: the whole statement, with its semicolon if there is one.
-/

namespace SchemaAlign.Parser

open Text

/-- Whether the token is one of the given words, in any case. -/
def isOneOf (keywords : List String) (t : Token) : Bool :=
  keywords.any (t.isKeyword ·)

/-- The words that begin a constraint of a table. They cannot begin a column. -/
def tableConstraintKeywords : List String :=
  ["CONSTRAINT", "PRIMARY", "UNIQUE", "CHECK", "FOREIGN"]

/-- The words that begin a constraint of a column, and so end its type. -/
def columnConstraintKeywords : List String :=
  ["CONSTRAINT", "PRIMARY", "NOT", "NULL", "UNIQUE", "CHECK", "DEFAULT", "COLLATE", "REFERENCES",
   "GENERATED", "AS"]

/-- Cuts before the first significant token that does not satisfy `p`. -/
def Stream.cutWhile (p : Token → Bool) : Stream → List Token × Stream
  | .done g => ([], .done g)
  | .item g t rest =>
    if p t then
      let (tokens, rest) := rest.cutWhile p
      (t :: tokens, rest)
    else ([], .item g t rest)

/-- Reads the words of a type name, in upper case. -/
def typeWords : Parser (List String) := fun s =>
  let (tokens, rest) :=
    s.cutWhile fun t => t.kind == .word && !isOneOf columnConstraintKeywords t
  .ok (tokens.map (asciiUpper ·.text), rest)

/-- Reads the arguments of a type name, if a parenthesis opens. -/
def typeArguments : Parser (Option String × Option String) := do
  if ← punct? "(" then
    let first ← expression?
    let second ← if ← punct? "," then expression? else pure none
    expectPunct ")" .closingParenthesis
    return (first, second)
  else return (none, none)

/-- Reads the type of a column, if it has one. -/
def typeName? : Parser (Option TypeName) := do
  let ((words, first, second), span) ← spanned do
    let words ← typeWords
    if words.isEmpty then return ([], none, none)
    return (words, ← typeArguments)
  return if words.isEmpty then none else some { name := " ".intercalate words, first, second, span }

/-- Reads the definition of a column, if one comes next. -/
def column? : Parser (Option Column) := do
  if ← nextIs (isOneOf tableConstraintKeywords) then return none
  let (found, span) ← spanned do
    match ← name? with
    | none => return none
    | some name => return some (name, ← typeName?, ← many constraint?)
  return found.map fun (name, type, constraints) => { name, type, constraints, span }

/-- Reads a table option, if one comes next. -/
def tableOption? : Parser (Option TableOption) := do
  let (kind, span) ← spanned do
    if ← keyword? "WITHOUT" then
      expectKeyword "ROWID" .rowid
      return some OptionKind.withoutRowid
    else if ← keyword? "STRICT" then return some .strict
    else return none
  return kind.map fun kind => { kind, span }

/-- Reads the name of a table, with the name of its database before it if there is a dot. -/
def tableName : Parser String := do
  let name ← expectName .tableName
  if ← punct? "." then
    return name ++ "." ++ (← expectName .tableName)
  else return name

/-- Reads `IF NOT EXISTS`, if the first word comes next. -/
def ifNotExists : Parser Bool := do
  if ← keyword? "IF" then
    expectKeyword "NOT" .notExists
    expectKeyword "EXISTS" .notExists
    return true
  else return false

/-- Reads the columns of a table up to the closing parenthesis. A comma may follow the last one. -/
def columns : Parser (List Column) := do
  let columns ← rounds do
    match ← column? with
    | none => return .stop
    | some column => if ← punct? "," then return .next column else return .last column
  expectPunct ")" .columnOrConstraint
  return columns

/-- Reads a table option that has to come next, and a comma if one follows it. -/
def expectOption : Parser TableOption := do
  match ← tableOption? with
  | none => fail .unknownTableOption
  | some option =>
    let _ ← punct? ","
    return option

/-- Reads a table option, unless the statement ends here. -/
def nextOption? : Parser (Option TableOption) := do
  if ← atEnd then return none
  if ← nextIs (·.isPunct ";") then return none
  return some (← expectOption)

/-- Reads the options of a table up to the end of the statement. -/
def tableOptions : Parser (List TableOption) :=
  many nextOption?

/-- Reads what follows `CREATE TABLE` in a statement, up to its semicolon. -/
def tableBody : Parser (Bool × String × List Column × List TableOption) := do
  let ifNotExists ← ifNotExists
  let name ← tableName
  expectPunct "(" .openingParenthesis
  let columns ← columns
  let options ← tableOptions
  return (ifNotExists, name, columns, options)

/-- Reads a `CREATE TABLE` statement, if its first two words come next. -/
def createTable? : Parser (Option CreateTable) := do
  let (found, span) ← spanned do
    unless ← phrase? ["CREATE", "TABLE"] do return none
    let body ← tableBody
    let _ ← punct? ";"
    return some body
  return found.map fun (ifNotExists, name, columns, options) =>
    { name, ifNotExists, columns, options, span }

end SchemaAlign.Parser
