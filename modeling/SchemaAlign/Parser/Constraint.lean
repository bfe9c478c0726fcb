import SchemaAlign.Parser.Expression
import SchemaAlign.Statement
import SchemaAlign.Text.Upper

/-!
# Column constraints

* `conflict?`: the clause that says what is done when a row breaks a constraint;
* `foreignKey`: what may follow `REFERENCES`;
* `rule?`: what a column constraint demands;
* `constraint?`: a column constraint with its name.
-/

namespace SchemaAlign.Parser

open Text

/-- The keywords of the conflict resolutions. -/
def conflictChoices : List (List String × Conflict) :=
  [Conflict.rollback, .abort, .fail, .ignore, .replace].map fun c => ([c.keyword], c)

/-- Reads `ON CONFLICT` and a resolution, if the first two words come next. -/
def conflict? : Parser (Option Conflict) := do
  if ← phrase? ["ON", "CONFLICT"] then
    match ← choose conflictChoices with
    | some c => return some c
    | none => fail .conflictResolution
  else return none

/-! ### Foreign keys -/

/-- Reads the answer to a change of the parent row. -/
def keyEffect : Parser KeyEffect := do
  if ← keyword? "SET" then
    match ← choose [(["NULL"], KeyEffect.setNull), (["DEFAULT"], .setDefault)] with
    | some effect => return effect
    | none => fail .nullOrDefault
  else if ← keyword? "NO" then
    expectKeyword "ACTION" .action
    return .noAction
  else
    match ← choose [(["CASCADE"], KeyEffect.cascade), (["RESTRICT"], .restrict)] with
    | some effect => return effect
    | none => fail .foreignKeyAction

/-- Reads when a deferrable foreign key is checked at first, if that is said. -/
def keyCheck? : Parser (Option KeyCheck) := do
  if ← keyword? "INITIALLY" then
    match ← choose [(["DEFERRED"], KeyCheck.deferred), (["IMMEDIATE"], .immediate)] with
    | some check => return some check
    | none => fail .deferredOrImmediate
  else return none

/-- Reads a clause that may follow the columns of a foreign key. -/
def keyAction? : Parser (Option KeyAction) := do
  match ← choose [(["ON", "DELETE"], KeyEvent.delete), (["ON", "UPDATE"], .update)] with
  | some event => return some (.on event (← keyEffect))
  | none =>
    if ← keyword? "MATCH" then
      return some (.matching (asciiUpper (← expectName .matchName)))
    match ← choose [(["NOT", "DEFERRABLE"], true), (["DEFERRABLE"], false)] with
    | some negated => return some (.deferrable negated (← keyCheck?))
    | none => return none

/-- Reads the column names of a foreign key, if a list of them comes next. -/
def keyColumns : Parser (List String) := do
  if ← punct? "(" then
    let columns ← commaSeparated (expectName .columnName)
    expectPunct ")" .closingParenthesis
    return columns
  else return []

/-- Reads what may follow `REFERENCES`. -/
def foreignKey : Parser ForeignKey := do
  let table ← expectName .tableName
  let columns ← keyColumns
  let actions ← many keyAction?
  return { table, columns, actions }

/-! ### Rules -/

/-- Reads what follows `PRIMARY`. -/
def primaryKey : Parser Rule := do
  expectKeyword "KEY" .key
  let order ← choose [(["ASC"], SortOrder.asc), (["DESC"], .desc)]
  let conflict ← conflict?
  let autoincrement ← keyword? "AUTOINCREMENT"
  return .primaryKey order conflict autoincrement

/-- Reads the expression of a generated column and how it is kept. -/
def generated : Parser Rule := do
  let expr ← parenthesized
  let storage ← choose [(["STORED"], Storage.stored), (["VIRTUAL"], .virtual)]
  return .generated expr storage

/-- Reads what a column constraint demands, if one comes next. -/
def rule? : Parser (Option Rule) := do
  if ← keyword? "PRIMARY" then
    return some (← primaryKey)
  else if ← keyword? "NOT" then
    expectKeyword "NULL" .null
    return some (.notNull (← conflict?))
  else if ← keyword? "NULL" then
    return some (.null (← conflict?))
  else if ← keyword? "UNIQUE" then
    return some (.unique (← conflict?))
  else if ← keyword? "CHECK" then
    return some (.check (← parenthesized))
  else if ← keyword? "DEFAULT" then
    return some (.defaultsTo (← defaultValue))
  else if ← keyword? "COLLATE" then
    return some (.collate (← expectName .collationName))
  else if ← keyword? "REFERENCES" then
    return some (.references (← foreignKey))
  else if ← keyword? "GENERATED" then
    expectKeyword "ALWAYS" .always
    expectKeyword "AS" .as
    return some (← generated)
  else if ← keyword? "AS" then
    return some (← generated)
  else return none

/-- Reads the name of a constraint, if one is given. -/
def constraintName? : Parser (Option String) := do
  if ← keyword? "CONSTRAINT" then
    return some (← expectName .constraintName)
  else return none

/-- Reads a column constraint, if one comes next. A name has to be followed by a rule. -/
def constraint? : Parser (Option Constraint) := do
  let ((name, rule), span) ← spanned do
    let name ← constraintName?
    let rule ← rule?
    if name.isSome && rule.isNone then fail .columnConstraint
    return (name, rule)
  return rule.map fun rule => { name, rule, span }

end SchemaAlign.Parser
