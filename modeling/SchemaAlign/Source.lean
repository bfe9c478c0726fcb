import SchemaAlign.Error
import SchemaAlign.Parser.Statement
import SchemaAlign.Token.Lexer

/-!
# Sources

A source is a text that schema objects come from: a file, or a row of a catalog. It is kept as the
list of its tokens. Objects point into that list, so the list of one reading must not be mixed up
with the list of another; each reading of a source has an edition number of its own.

* `Source`: an identified list of tokens;
* `ParsedSource`: a source and the objects that its statements create;
* `ParsedSource.ofText`: reading a text.
-/

namespace SchemaAlign

/-- A source and the tokens of its text. -/
structure Source where
  id : String
  /-- The number of this reading. Two readings of one source have different numbers. -/
  edition : Nat
  tokens : List Token
  deriving DecidableEq, Repr

/-- The text of a source. -/
def Source.render (s : Source) : String :=
  Token.render s.tokens

/-- A source and the objects that its statements create. -/
structure ParsedSource extends Source where
  objects : List SchemaObject
  deriving DecidableEq, Repr

/-- The statements of a list of tokens, or where the list is outside the grammar. -/
def Statement.parse (tokens : List Token) : Except ParseError (List Statement) :=
  (Statement.ofTokens tokens).mapError (ParseError.ofMisfit tokens)

/-- The object that a statement of the given source creates, if it creates one. -/
def SchemaObject.ofStatement? (source : String) (edition : Nat) (statement : Statement) :
    Option SchemaObject :=
  (ObjectKey.ofStatement? statement).map fun key => { key, statement, source, edition }

/-- The source with the given text. Statements that create no object stay in its tokens. -/
def ParsedSource.ofText (edition : Nat) (id text : String) : Except ParseError ParsedSource := do
  let tokens := Token.tokenize text
  let statements ← Statement.parse tokens
  let objects := statements.filterMap (SchemaObject.ofStatement? id edition)
  return { id, edition, tokens, objects }

end SchemaAlign
