import SchemaAlign.Parser.Fault
import SchemaAlign.Parser.Stream
import SchemaAlign.Span
import SchemaAlign.Text.Quoted

/-!
# Parsers

A parser reads significant tokens from the front of a stream. It either gives a value and what is
left, or a misfit.

* `phrase?`, `keyword?`, `punct?`, `name?`: read some tokens if they are there, and nothing
  otherwise, so that no parser has to go back;
* `expectKeyword`, `expectPunct`, `expectName`: the same for what has to be there;
* `choose`: the first of several phrases;
* `spanned`: the span of what a parser reads;
* `rounds`: a parser read again and again.
-/

namespace SchemaAlign

open Text

/-- The name that a token stands for: a word as it is, a quoted text without its quotes. -/
def Token.name? (t : Token) : Option String :=
  match t.kind with
  | .word => some t.text
  | .string => unquote? t.text
  | _ => none

namespace Parser

/-- Whether the first significant token satisfies `p`. -/
def Stream.headIs (p : Token → Bool) (s : Stream) : Bool :=
  s.head?.any p

/-- What follows the given keywords, if the stream begins with them. -/
def Stream.afterPhrase? : List String → Stream → Option Stream
  | [], s => some s
  | k :: ks, .item _ t rest => if t.isKeyword k then rest.afterPhrase? ks else none
  | _ :: _, .done _ => none

end Parser

/-- A parser for values of type `α`. -/
abbrev Parser (α : Type) := StateT Parser.Stream (Except Parser.Misfit) α

namespace Parser

variable {α : Type}

/-- Gives up at the given position. -/
def failAt (fault : Fault) (position : Nat) : Parser α :=
  throw ⟨fault, position⟩

/-- Gives up at the next significant token. -/
def fail (fault : Fault) : Parser α := do
  failAt fault (← get).gap.stop

/-- Whether the next significant token satisfies `p`. Nothing is read. -/
def nextIs (p : Token → Bool) : Parser Bool :=
  return (← get).headIs p

/-- Whether no significant token is left. -/
def atEnd : Parser Bool :=
  return (← get).head?.isNone

/-- Reads the given keywords, if all of them come next, in this order. -/
def phrase? (keywords : List String) : Parser Bool := fun s =>
  match s.afterPhrase? keywords with
  | some rest => .ok (true, rest)
  | none => .ok (false, s)

/-- Reads one keyword, if it comes next. -/
def keyword? (keyword : String) : Parser Bool :=
  phrase? [keyword]

/-- Reads one punctuation mark, if it comes next. -/
def punct? (mark : String) : Parser Bool := fun s =>
  match s with
  | .item _ t rest => if t.isPunct mark then .ok (true, rest) else .ok (false, s)
  | .done _ => .ok (false, s)

/-- Reads a name, if one comes next. -/
def name? : Parser (Option String) := fun s =>
  match s with
  | .item _ t rest =>
    match t.name? with
    | some name => .ok (some name, rest)
    | none => .ok (none, s)
  | .done _ => .ok (none, s)

/-- Reads the first of the phrases that comes next and gives the value beside it. -/
def choose : List (List String × α) → Parser (Option α)
  | [] => return none
  | (keywords, a) :: choices => do
    if ← phrase? keywords then return some a else choose choices

/-- Reads a keyword that has to come next. -/
def expectKeyword (keyword : String) (fault : Fault) : Parser Unit := do
  unless ← keyword? keyword do fail fault

/-- Reads a punctuation mark that has to come next. -/
def expectPunct (mark : String) (fault : Fault) : Parser Unit := do
  unless ← punct? mark do fail fault

/-- Reads a name that has to come next. -/
def expectName (fault : Fault) : Parser String := do
  match ← name? with
  | some name => return name
  | none => fail fault

/-- What a parser gives, and the span it reads: from its first significant token to just past its
    last one. -/
def spanned (p : Parser α) : Parser (α × Span) := do
  let before ← get
  let a ← p
  let after ← get
  return (a, ⟨before.gap.stop, after.gap.start⟩)

/-- How a round of a repetition ends. -/
inductive Round (α : Type) where
  /-- Nothing was found, and no round follows. -/
  | stop
  /-- A value was found, and no round follows. -/
  | last (a : α)
  /-- A value was found, and another round follows. -/
  | next (a : α)

/-- Reads `p` until a round does not ask for another one. A round that reads nothing is the last
    one. -/
def rounds (p : Parser (Round α)) (s : Stream) : Except Misfit (List α × Stream) :=
  match p s with
  | .error e => .error e
  | .ok (.stop, rest) => .ok ([], rest)
  | .ok (.last a, rest) => .ok ([a], rest)
  | .ok (.next a, rest) =>
    if rest.size < s.size then
      match rounds p rest with
      | .error e => .error e
      | .ok (as, rest) => .ok (a :: as, rest)
    else .ok ([a], rest)
termination_by s.size

/-- Reads `p` as long as it gives a value. -/
def many (p : Parser (Option α)) : Parser (List α) :=
  rounds do
    match ← p with
    | some a => return .next a
    | none => return .stop

/-- Reads one `p` or more, with commas between them. -/
def commaSeparated (p : Parser α) : Parser (List α) :=
  rounds do
    let a ← p
    if ← punct? "," then return .next a else return .last a

end Parser

end SchemaAlign
