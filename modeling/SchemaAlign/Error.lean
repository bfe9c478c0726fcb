import SchemaAlign.Location
import SchemaAlign.Object
import SchemaAlign.Parser.Fault
import SchemaAlign.Text.Blank

/-!
# Errors

* `ParseError`: a text that is outside the grammar;
* `Violation`: a use of a schema that its rules forbid;
* `ExecutionError`: a statement that the database refuses;
* `Error`: any of them.

Each has one wording, `message`.
-/

namespace SchemaAlign

/-- Why a text could not be read. -/
inductive ParseError where
  /-- A text outside the grammar: what is wrong, where, and the line it is on. -/
  | malformed (message : String) (location : Location) (line : String)
  /-- A definition in the catalog that is not exactly one statement. -/
  | statementCount (object : String) (found : Nat)
  /-- A kind of object that the catalog is not known to have. -/
  | unknownObjectKind (kind : String)
  deriving DecidableEq, Repr

namespace ParseError

/-- The error for a misfit in a list of tokens. -/
def ofMisfit (tokens : List Token) (m : Parser.Misfit) : ParseError :=
  let before := tokens.take m.position
  malformed m.fault.message (Place.ofTokens before).location
    (lineAt before (tokens.drop m.position))

/-- Where a text is outside the grammar. -/
def location? : ParseError → Option Location
  | malformed _ location _ => some location
  | _ => none

/-- A mark under the given column. -/
def caret (column : Nat) : String :=
  String.ofList (List.replicate (column - 1) ' ') ++ "^"

/-- The wording. A misplaced token is shown with its line and a mark under it. -/
def message : ParseError → String
  | malformed message location line =>
    s!"{message}\nat line {location.line}, column {location.column}:\n  {line}\n  " ++
      caret location.column
  | statementCount object found =>
    "catalog definition of `" ++ object ++ "` parsed to " ++ toString found ++
      " statements, expected exactly one"
  | unknownObjectKind kind => "unknown catalog object type `" ++ kind ++ "`"

end ParseError

/-- A use of a schema that its rules forbid. -/
inductive Violation where
  /-- An object whose key is taken. -/
  | duplicateObject (key : ObjectKey)
  /-- An object or a source that belongs to another reading of a source than the registered one. -/
  | sourceMismatch (source : String)
  /-- An object whose source is not registered. -/
  | unknownSource (source : String)
  /-- An object that is to become another one. -/
  | objectMismatch (left right : String)
  /-- An update while changes wait to be taken. -/
  | pendingChanges (count : Nat)
  /-- An object that the schema does not hold. -/
  | missingObject (key : ObjectKey)
  deriving DecidableEq, Repr

/-- The wording. -/
def Violation.message : Violation → String
  | duplicateObject key => "object already exists: " ++ key.text
  | sourceMismatch source =>
    "source `" ++ source ++ "` is already registered with a different token buffer"
  | unknownSource source => "source `" ++ source ++ "` has no registered token buffer"
  | objectMismatch left right =>
    "cannot update " ++ left ++ " with " ++ right ++ ": object kinds and names must match"
  | pendingChanges count =>
    "schema has " ++ toString count ++
      " pending changed source(s); take them before updating again"
  | missingObject key => "object " ++ key.text ++ " is not part of this schema"

/-- A statement that the database refuses. -/
structure ExecutionError where
  /-- The statement, without blanks at its ends. -/
  sql : String
  /-- What the database says. -/
  reason : String
  deriving DecidableEq, Repr

namespace ExecutionError

/-- The error for a refused statement. -/
def ofStatement (sql reason : String) : ExecutionError :=
  ⟨Text.trim sql, reason⟩

/-- The wording. -/
def message (e : ExecutionError) : String :=
  "statement failed: " ++ e.sql ++ ": " ++ e.reason

end ExecutionError

/-- Any error of this library. -/
inductive Error where
  | parse (e : ParseError)
  | contract (e : Violation)
  | execute (e : ExecutionError)
  deriving DecidableEq, Repr

namespace Error

/-- The wording. -/
def message : Error → String
  | parse e => e.message
  | contract e => e.message
  | execute e => e.message

/-- What lies behind the error, in the words of the database. -/
def reason? : Error → Option String
  | execute e => some e.reason
  | _ => none

/-- The word for the class of the error. -/
def category : Error → String
  | parse _ => "parse"
  | contract _ => "contract"
  | execute _ => "execute"

end Error

end SchemaAlign
