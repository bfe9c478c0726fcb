/-!
# Quoted text

A quoted text stands between two equal quotes, single or double, and writes a quote of that kind
inside it twice.

* `isQuote`: the two quotes;
* `unquote?`: what stands between the quotes, with each doubled quote read as one.
-/

namespace SchemaAlign.Text

/-- Whether `c` opens a quoted text. -/
def isQuote (c : Char) : Bool :=
  c == '\'' || c == '"'

/-- The characters with each pair of neighbouring quotes `q` read as one, from the left. -/
def halveQuotes (q : Char) : List Char → List Char
  | a :: b :: rest =>
    if a = q ∧ b = q then q :: halveQuotes q rest else a :: halveQuotes q (b :: rest)
  | [a] => [a]
  | [] => []

/-- What a quoted text stands for. A text that does not begin with a quote and end with a second
    one of its kind stands for nothing. -/
def unquote? (s : String) : Option String :=
  match s.toList with
  | q :: rest =>
    if isQuote q && rest.getLast? == some q then
      some (String.ofList (halveQuotes q rest.dropLast))
    else none
  | [] => none

end SchemaAlign.Text
