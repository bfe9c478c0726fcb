import SchemaAlign.Statement
import SchemaAlign.Text.Upper
import SchemaAlign.Text.Quoted
import SchemaAlign.Text.WordChar

/-!
# Schema objects

A schema object is a table, an index, a view or a trigger, known by its kind and its name, together
with the statement that defines it.

* `ObjectKey`: kind and name;
* `ObjectKey.ofStatement?`: the object that a statement creates;
* `SchemaObject`: an object and where its definition stands.
-/

namespace SchemaAlign

open Text

/-- The kinds of schema objects. -/
inductive ObjectKind where
  | table
  | index
  | view
  | trigger
  deriving DecidableEq, Repr

namespace ObjectKind

/-- The word for a kind, as the catalog has it. -/
def text : ObjectKind → String
  | table => "table"
  | index => "index"
  | view => "view"
  | trigger => "trigger"

/-- The kind that the catalog has a word for. -/
def ofText? (word : String) : Option ObjectKind :=
  [table, index, view, trigger].find? (·.text == word)

theorem ofText?_text (k : ObjectKind) : ofText? k.text = some k := by
  cases k <;> decide

end ObjectKind

/-- What a schema object is known by. -/
structure ObjectKey where
  kind : ObjectKind
  name : String
  deriving DecidableEq, Repr

namespace ObjectKey

/-- Kind and name, separated by a slash. -/
def text (k : ObjectKey) : String :=
  k.kind.text ++ "/" ++ k.name

/-! ### The object that a statement creates -/

/-- Whether the word is one of the given keywords, in any case. -/
def isAnyOf (keywords : List String) (word : String) : Bool :=
  keywords.any (eqIgnoreAsciiCase word)

/-- The words after the first one, if that is one of the given keywords. -/
def after? (keywords : List String) : List String → Option (List String)
  | word :: words => if isAnyOf keywords word then some words else none
  | [] => none

/-- The name that a word stands for: a word as it is, a quoted text without its quotes. -/
def name? (word : String) : Option String :=
  if word.toList.head?.any isQuote then unquote? word
  else if !word.isEmpty && word.toList.all isWordChar then some word
  else none

/-- The name at the front of the words, with the name of its database before it if there is a
    dot. -/
def qualifiedName? : List String → Option String
  | first :: "." :: second :: _ => do return (← name? first) ++ "." ++ (← name? second)
  | [_, "."] => none
  | first :: _ => name? first
  | [] => none

/-- The kind that a keyword names. Only an index can be unique. -/
def kind? (unique : Bool) (keyword : String) : Option ObjectKind :=
  if isAnyOf ["INDEX"] keyword then some .index
  else if unique then none
  else if isAnyOf ["VIEW"] keyword then some .view
  else if isAnyOf ["TRIGGER"] keyword then some .trigger
  else none

/-- The object that the words of a statement create: `CREATE`, `TEMP` or `TEMPORARY` or neither,
    `UNIQUE` or not, the kind, `IF NOT EXISTS` or not, and the name. -/
def ofWords? (words : List String) : Option ObjectKey := do
  let words ← after? ["CREATE"] words
  let words := (after? ["TEMP", "TEMPORARY"] words).getD words
  let plain := after? ["UNIQUE"] words
  let keyword :: words := plain.getD words | none
  let kind ← kind? plain.isSome keyword
  let words ← match after? ["IF"] words with
    | some words => after? ["NOT"] words >>= after? ["EXISTS"]
    | none => some words
  return ⟨kind, ← qualifiedName? words⟩

/-- The object that a statement creates, if it creates one. -/
def ofStatement? : Statement → Option ObjectKey
  | .createTable table => some ⟨.table, table.name⟩
  | .other words _ => ofWords? words

end ObjectKey

/-- A schema object. Its definition is the span of its statement in the tokens of its source. -/
structure SchemaObject where
  key : ObjectKey
  statement : Statement
  /-- The source that the object comes from. -/
  source : String
  /-- Which reading of the source the span belongs to. -/
  edition : Nat
  deriving DecidableEq, Repr

/-- Where the definition stands in the tokens of the source. -/
def SchemaObject.span (o : SchemaObject) : Span :=
  o.statement.span

end SchemaAlign
