import SchemaAlign.Token

/-!
# Lines and columns

Line feeds, carriage returns and pairs of both end a line; a pair ends it once.

* `Place`: a place in a text that is read from the front;
* `Place.advance`: the place after some more characters;
* `Place.ofTokens`: the place of a token;
* `lineAt`: the whole line that a token begins on.
-/

namespace SchemaAlign

/-- A line and a column, both counted from one. -/
structure Location where
  line : Nat
  column : Nat
  deriving DecidableEq, Repr

/-- A place in a text: the number of its line and the characters before it on this line, the last
    one first. -/
structure Place where
  line : Nat
  before : List Char

/-- Whether the character ends a line. -/
def endsLine (c : Char) : Bool :=
  c == '\n' || c == '\r'

namespace Place

/-- The front of a text. -/
def start : Place :=
  ⟨1, []⟩

/-- The front of the next line. -/
def nextLine (p : Place) : Place :=
  ⟨p.line + 1, []⟩

/-- The place after some more characters. -/
def advance (p : Place) : List Char → Place
  | '\r' :: '\n' :: cs => p.nextLine.advance cs
  | c :: cs =>
    if endsLine c then p.nextLine.advance cs else advance ⟨p.line, c :: p.before⟩ cs
  | [] => p

/-- The place after some tokens. The two halves of a pair count as one end of a line only within
    one token. -/
def ofTokens (tokens : List Token) : Place :=
  tokens.foldl (fun p t => p.advance t.text.toList) start

/-- Line and column of the place. -/
def location (p : Place) : Location :=
  ⟨p.line, p.before.length + 1⟩

end Place

/-- The line on which the second list of tokens begins, after the first one. -/
def lineAt (before after : List Token) : String :=
  String.ofList ((Place.ofTokens before).before.reverse ++
    (Token.chars after).takeWhile (!endsLine ·))

end SchemaAlign
