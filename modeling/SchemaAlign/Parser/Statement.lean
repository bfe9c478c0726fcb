import SchemaAlign.Parser.Table

/-!
# Statements

* `Nesting`: how deep a statement is inside the body of a trigger, where a semicolon does not end
  it;
* `Stream.cutStatement`: the words of any statement, up to and with its semicolon;
* `statements`: all statements of a stream;
* `Statement.ofTokens`: all statements of a list of tokens.
-/

namespace SchemaAlign

open Text

namespace Parser

/-- What the words of a statement so far say about the body of a trigger. -/
structure Nesting where
  /-- The number of words. -/
  count : Nat
  /-- Whether the first word is `CREATE`. -/
  creates : Bool
  /-- Whether the statement creates a trigger. -/
  trigger : Bool
  /-- How many `BEGIN` and `CASE` still wait for their `END`. -/
  depth : Nat

namespace Nesting

/-- No word was read. -/
def start : Nesting :=
  ⟨0, false, false, 0⟩

/-- Whether the token ends the statement. -/
def isEnd (n : Nesting) (t : Token) : Bool :=
  t.isPunct ";" && n.depth == 0

/-- The depth after one more token of a statement that creates a trigger. `CASE` and `END` count
    only inside a body. -/
def depthAfter (n : Nesting) (t : Token) : Nat :=
  if t.isKeyword "BEGIN" || decide (n.depth > 0) && t.isKeyword "CASE" then n.depth + 1
  else if t.isKeyword "END" then n.depth - 1
  else n.depth

/-- The nesting after one more token. `TRIGGER` counts among the first three words, after
    `CREATE`. -/
def step (n : Nesting) (t : Token) : Nesting :=
  let creates := if n.count = 0 then eqIgnoreAsciiCase t.text "CREATE" else n.creates
  if t.isKeyword "TRIGGER" && decide (n.count ≤ 2) && n.creates then
    ⟨n.count + 1, creates, true, n.depth⟩
  else if n.trigger then ⟨n.count + 1, creates, true, n.depthAfter t⟩
  else ⟨n.count + 1, creates, false, n.depth⟩

end Nesting

/-- Cuts after the token that ends a statement: the texts of its significant tokens and what is
    left. -/
def Stream.cutStatement (n : Nesting) : Stream → List String × Stream
  | .done g => ([], .done g)
  | .item _ t rest =>
    if n.isEnd t then ([t.text], rest) else
    let (words, rest) := rest.cutStatement (n.step t)
    (t.text :: words, rest)

/-- Reads any statement as a list of words. -/
def otherStatement : Parser Statement := do
  let (words, span) ← spanned fun s => .ok (s.cutStatement .start)
  return .other words span

/-- Reads one statement. -/
def statement : Parser Statement := do
  match ← createTable? with
  | some table => return .createTable table
  | none => otherStatement

/-- Reads all statements. -/
def statements : Parser (List Statement) :=
  many do
    if ← atEnd then return none else return some (← statement)

end Parser

/-- The statements of a list of tokens. -/
def Statement.ofTokens (tokens : List Token) : Except Parser.Misfit (List Statement) :=
  (Parser.statements.run (Parser.Stream.ofTokens 0 tokens)).map (·.1)

end SchemaAlign
