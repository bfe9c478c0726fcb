import SchemaAlign.Parser.Basic
import SchemaAlign.Text.Blank

/-!
# Expressions and default values

Expressions are not evaluated. They are kept as text: all tokens, blanks and comments included, up
to the end of the expression, without the blanks at both ends.

* `Stream.cutExpression`: the tokens of an expression, which ends before a comma or a closing
  parenthesis outside all parentheses, or before a semicolon;
* `expression?`, `parenthesized`: the text of an expression;
* `defaultValue`: an expression in parentheses, or a literal.
-/

namespace SchemaAlign.Parser

open Text

/-- Whether an expression ends before this token, at the given depth of parentheses. -/
def endsExpression (depth : Nat) (t : Token) : Bool :=
  t.isPunct ";" || depth == 0 && (t.isPunct ")" || t.isPunct ",")

/-- The depth of parentheses after this token. -/
def depthAfter (depth : Nat) (t : Token) : Nat :=
  if t.isPunct "(" then depth + 1 else if t.isPunct ")" then depth - 1 else depth

/-- Cuts before the token that ends an expression: the tokens before it, the depth of parentheses
    there, and what is left. The gap before that token belongs to the expression too. -/
def Stream.cutExpression (depth : Nat) : Stream → List Token × Nat × Stream
  | .done g => (g.trivia, depth, .done g)
  | .item g t rest =>
    if endsExpression depth t then (g.trivia, depth, .item g t rest) else
    let (tokens, d, rest) := rest.cutExpression (depthAfter depth t)
    (g.trivia ++ t :: tokens, d, rest)

/-- The text of the tokens of an expression that ends at the given depth. There is none if it would
    be blank. -/
def expressionText (tokens : List Token) (depth : Nat) : Parser (Option String) := do
  if depth > 0 then fail .unbalancedParenthesis
  let text := trim (Token.render tokens)
  return if text.isEmpty then none else some text

/-- Reads an expression. There is none where it would be blank. -/
def expression? : Parser (Option String) := do
  let (tokens, depth, rest) := (← get).cutExpression 0
  set rest
  expressionText tokens depth

/-- Reads an expression in parentheses. -/
def parenthesized : Parser String := do
  expectPunct "(" .openingParenthesis
  let some text ← expression? | fail .expression
  expectPunct ")" .closingParenthesis
  return text

/-! ### Literals

The parts of a literal follow each other without a gap: `1.5` is a word, a dot and a word, `1e-5`
a word, a sign and a word, `x'00'` a word and a string. -/

/-- Whether the token is a sign of a number. -/
def isSign (t : Token) : Bool :=
  t.kind == .other && (t.text == "-" || t.text == "+")

/-- Reads the string of a blob literal after its `x`. -/
def blob? (value : String) (s : Stream) : Option (String × Stream) :=
  match s with
  | .item ⟨_, []⟩ t rest =>
    if eqIgnoreAsciiCase value "x" && t.kind == .string then some (value ++ t.text, rest) else none
  | _ => none

/-- Reads two tokens that stand here without a gap before either, if `p` holds of them. -/
def adjacent? (p : Token → Token → Bool) (s : Stream) : Option ((Token × Token) × Stream) :=
  match s with
  | .item ⟨_, []⟩ t (.item ⟨_, []⟩ u rest) => if p t u then some ((t, u), rest) else none
  | _ => none

/-- Reads the digits after a decimal point. -/
def fraction (value : String) (s : Stream) : String × Stream :=
  match adjacent? (fun dot digits => dot.isPunct "." && digits.kind == .word) s with
  | some ((_, digits), rest) => (value ++ "." ++ digits.text, rest)
  | none => (value, s)

/-- Whether a number that ends here may go on with a signed exponent. -/
def opensExponent (value : String) : Bool :=
  (value.toList.getLast? == some 'e' || value.toList.getLast? == some 'E') &&
    match value.toList.dropWhile (fun c => c == '-' || c == '+') with
    | c :: _ => c.isDigit || c == '.'
    | [] => false

/-- Whether the tokens are the sign and the digits of an exponent. -/
def isExponent (sign digits : Token) : Bool :=
  isSign sign && digits.kind == .word && digits.text.toList.all Char.isDigit

/-- Reads the sign and the digits of an exponent. -/
def exponent (value : String) (s : Stream) : String × Stream :=
  match adjacent? (fun sign digits => opensExponent value && isExponent sign digits) s with
  | some ((sign, digits), rest) => (value ++ sign.text ++ digits.text, rest)
  | none => (value, s)

/-- Whether there is no more of a literal than its sign. -/
def isBareSign (value : String) : Bool :=
  value.isEmpty || value == "-" || value == "+"

/-- Reads what follows the first part of a literal. -/
def literalRest (value : String) : Parser String := fun s =>
  match blob? value s with
  | some found => .ok found
  | none =>
    let (value, rest) := fraction value s
    let (value, rest) := exponent value rest
    if isBareSign value then failAt .defaultValue rest.gap.start rest else .ok (value, rest)

/-- Reads a sign, if one comes next. -/
def sign : Parser String := fun s =>
  match s with
  | .item _ t rest => if isSign t then .ok (t.text, rest) else .ok ("", s)
  | .done _ => .ok ("", s)

/-- Reads a literal after its sign. -/
def unsignedLiteral (signText : String) : Parser String := fun s =>
  match s with
  | .item g t rest =>
    if t.kind == .word || t.kind == .string then literalRest (signText ++ t.text) rest
    else if t.isPunct "." then literalRest signText (.item g.skipped t rest)
    else fail .defaultValue s
  | .done _ => fail .defaultValue s

/-- Reads a literal: a number with an optional sign, a word, a string or a blob. -/
def literal : Parser String := do
  unsignedLiteral (← sign)

/-- Reads what may follow `DEFAULT`. -/
def defaultValue : Parser String := do
  if ← nextIs (·.isPunct "(") then
    return "(" ++ (← parenthesized) ++ ")"
  else literal

end SchemaAlign.Parser
