import SchemaAlign.Span

/-!
# Statements

The statements of a schema file. `CREATE TABLE` is read in detail; any other statement is kept as
the texts of its significant tokens.

* `Statement`: the two forms;
* `Statement.span`: the tokens a statement was read from;
* `Statement.shift`: the statement with every span in it moved.
-/

namespace SchemaAlign

/-- The order of a primary key. -/
inductive SortOrder where
  | asc
  | desc
  deriving DecidableEq, Repr

/-- What is done when a row breaks a constraint. -/
inductive Conflict where
  | rollback
  | abort
  | fail
  | ignore
  | replace
  deriving DecidableEq, Repr

/-- The keyword for a conflict resolution. -/
def Conflict.keyword : Conflict → String
  | .rollback => "ROLLBACK"
  | .abort => "ABORT"
  | .fail => "FAIL"
  | .ignore => "IGNORE"
  | .replace => "REPLACE"

/-- The clause for a conflict resolution. -/
def Conflict.text (c : Conflict) : String :=
  "ON CONFLICT " ++ c.keyword

/-- How a generated column is kept. -/
inductive Storage where
  | stored
  | virtual
  deriving DecidableEq, Repr

/-- The change of a parent row that a foreign key answers to. -/
inductive KeyEvent where
  | delete
  | update
  deriving DecidableEq, Repr

/-- The keyword for the change of a parent row. -/
def KeyEvent.keyword : KeyEvent → String
  | .delete => "DELETE"
  | .update => "UPDATE"

/-- The answer of a foreign key to the change of a parent row. -/
inductive KeyEffect where
  | setNull
  | setDefault
  | noAction
  | cascade
  | restrict
  deriving DecidableEq, Repr

/-- The keywords for the answer to the change of a parent row. -/
def KeyEffect.text : KeyEffect → String
  | .setNull => "SET NULL"
  | .setDefault => "SET DEFAULT"
  | .noAction => "NO ACTION"
  | .cascade => "CASCADE"
  | .restrict => "RESTRICT"

/-- When a deferrable foreign key is checked at first. -/
inductive KeyCheck where
  | deferred
  | immediate
  deriving DecidableEq, Repr

/-- The keyword for the first check of a foreign key. -/
def KeyCheck.keyword : KeyCheck → String
  | .deferred => "DEFERRED"
  | .immediate => "IMMEDIATE"

/-- A clause that follows the columns of a foreign key. -/
inductive KeyAction where
  /-- The answer to a change of the parent row. -/
  | on (event : KeyEvent) (effect : KeyEffect)
  /-- A match type, in upper case. -/
  | matching (name : String)
  /-- Whether, and since when, the check may be put off. -/
  | deferrable (negated : Bool) (initially : Option KeyCheck)
  deriving DecidableEq, Repr

/-- The clause in upper case, its words separated by single blanks. -/
def KeyAction.text : KeyAction → String
  | .on event effect => "ON " ++ event.keyword ++ " " ++ effect.text
  | .matching name => "MATCH " ++ name
  | .deferrable negated initially =>
    (if negated then "NOT DEFERRABLE" else "DEFERRABLE") ++
      match initially with
      | some check => " INITIALLY " ++ check.keyword
      | none => ""

/-- A reference to the rows of another table. -/
structure ForeignKey where
  table : String
  columns : List String
  actions : List KeyAction
  deriving DecidableEq, Repr

/-- What a column constraint demands. Expressions are kept as text. -/
inductive Rule where
  | primaryKey (order : Option SortOrder) (conflict : Option Conflict) (autoincrement : Bool)
  | notNull (conflict : Option Conflict)
  | null (conflict : Option Conflict)
  | unique (conflict : Option Conflict)
  | check (expr : String)
  | defaultsTo (value : String)
  | collate (collation : String)
  | references (key : ForeignKey)
  | generated (expr : String) (storage : Option Storage)
  deriving DecidableEq, Repr

/-- A column constraint. -/
structure Constraint where
  /-- The name given by `CONSTRAINT`. -/
  name : Option String
  rule : Rule
  span : Span
  deriving DecidableEq, Repr

/-- The type of a column: its words in upper case, separated by single blanks, and up to two
    arguments, kept as text. -/
structure TypeName where
  name : String
  first : Option String
  second : Option String
  span : Span
  deriving DecidableEq, Repr

/-- A column of a table. -/
structure Column where
  name : String
  type : Option TypeName
  constraints : List Constraint
  span : Span
  deriving DecidableEq, Repr

/-- The options that may follow the columns of a table. -/
inductive OptionKind where
  | withoutRowid
  | strict
  deriving DecidableEq, Repr

/-- The keywords of a table option. -/
def OptionKind.text : OptionKind → String
  | .withoutRowid => "WITHOUT ROWID"
  | .strict => "STRICT"

/-- An option of a table. -/
structure TableOption where
  kind : OptionKind
  span : Span
  deriving DecidableEq, Repr

/-- A `CREATE TABLE` statement. Constraints that belong to the table as a whole are outside the
    grammar. -/
structure CreateTable where
  name : String
  ifNotExists : Bool
  columns : List Column
  options : List TableOption
  span : Span
  deriving DecidableEq, Repr

/-- A statement. -/
inductive Statement where
  | createTable (table : CreateTable)
  /-- A statement that is not read in detail: the texts of its significant tokens. -/
  | other (words : List String) (span : Span)
  deriving DecidableEq, Repr

/-! ### Moving spans -/

/-- The constraint with its span moved. -/
def Constraint.mapSpan (f : Span → Span) (k : Constraint) : Constraint :=
  { k with span := f k.span }

/-- The type with its span moved. -/
def TypeName.mapSpan (f : Span → Span) (t : TypeName) : TypeName :=
  { t with span := f t.span }

/-- The option with its span moved. -/
def TableOption.mapSpan (f : Span → Span) (o : TableOption) : TableOption :=
  { o with span := f o.span }

/-- The column with every span moved. -/
def Column.mapSpan (f : Span → Span) (c : Column) : Column :=
  { c with
    type := c.type.map (·.mapSpan f)
    constraints := c.constraints.map (·.mapSpan f)
    span := f c.span }

/-- The table with every span moved. -/
def CreateTable.mapSpan (f : Span → Span) (t : CreateTable) : CreateTable :=
  { t with
    columns := t.columns.map (·.mapSpan f)
    options := t.options.map (·.mapSpan f)
    span := f t.span }

namespace Statement

/-- The tokens that the statement was read from. -/
def span : Statement → Span
  | createTable table => table.span
  | other _ span => span

/-- The statement with another span for the whole of it; the spans inside stay. -/
def withSpan (span : Span) : Statement → Statement
  | createTable table => createTable { table with span }
  | other words _ => other words span

/-- The statement with every span in it moved. -/
def mapSpan (f : Span → Span) : Statement → Statement
  | createTable table => createTable (table.mapSpan f)
  | other words span => other words (f span)

/-- The statement with every span in it shifted so that the position `source` becomes `target`. -/
def shift (source target : Nat) (s : Statement) : Statement :=
  s.mapSpan (Span.shift source target)

@[simp] theorem span_withSpan (s : Statement) (sp : Span) : (s.withSpan sp).span = sp := by
  cases s <;> rfl

@[simp] theorem span_mapSpan (f : Span → Span) (s : Statement) :
    (s.mapSpan f).span = f s.span := by
  cases s <;> rfl

end Statement

end SchemaAlign
