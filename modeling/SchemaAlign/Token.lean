import SchemaAlign.Text.Upper

/-!
# Tokens

A token is a piece of a text together with its lexical class. A text is kept as the list of all
its tokens, blanks and comments included, so that it can be written back unchanged.

* `Token.isSignificant`: what is neither a blank nor a comment;
* `Token.isKeyword`, `Token.isPunct`: tests for one word or one punctuation mark;
* `Token.render`: the text of a list of tokens.
-/

namespace SchemaAlign

/-- The lexical classes. -/
inductive TokenKind where
  | whitespace
  | comment
  | string
  | punctuation
  | word
  | other
  deriving DecidableEq, Repr

/-- Whether tokens of this class carry no meaning. -/
def TokenKind.isTrivia : TokenKind → Bool
  | .whitespace | .comment => true
  | _ => false

/-- A piece of a text and its lexical class. -/
structure Token where
  kind : TokenKind
  text : String
  deriving DecidableEq, Repr

namespace Token

/-- Whether the token is a blank or a comment. -/
def isTrivia (t : Token) : Bool :=
  t.kind.isTrivia

/-- Whether the token carries meaning. -/
def isSignificant (t : Token) : Bool :=
  !t.isTrivia

/-- Whether the token is the given word, in any ASCII case. -/
def isKeyword (t : Token) (keyword : String) : Bool :=
  t.kind == .word && Text.eqIgnoreAsciiCase t.text keyword

/-- Whether the token is the given punctuation mark. -/
def isPunct (t : Token) (mark : String) : Bool :=
  t.kind == .punctuation && t.text == mark

/-- The semicolon, which ends a statement. -/
def semicolon : Token :=
  ⟨.punctuation, ";"⟩

/-- The characters of a list of tokens, in order. -/
def chars (tokens : List Token) : List Char :=
  tokens.flatMap (·.text.toList)

/-- The text of a list of tokens. -/
def render (tokens : List Token) : String :=
  String.ofList (chars tokens)

@[simp] theorem chars_nil : chars [] = [] := rfl

@[simp] theorem chars_cons (t : Token) (ts : List Token) :
    chars (t :: ts) = t.text.toList ++ chars ts := rfl

@[simp] theorem chars_append (ts us : List Token) : chars (ts ++ us) = chars ts ++ chars us :=
  List.flatMap_append

@[simp] theorem toList_render (ts : List Token) : (render ts).toList = chars ts := by
  simp [render]

end Token

end SchemaAlign
