import SchemaAlign.Text.Upper
import SchemaAlign.Token

/-!
# Comparing definitions

Two lists of tokens say the same when their significant tokens agree one by one. Words agree in
any case; strings, punctuation and all other tokens agree only if they are written alike.

* `sameWord`: words in any case;
* `agrees`: one token with another;
* `sameMeaning`: one list with another.
-/

namespace SchemaAlign.Token

open Text

/-- Whether two words are equal in upper case. Words of ASCII are compared letter by letter. -/
def sameWord (s t : String) : Bool :=
  if isAscii s && isAscii t then eqIgnoreAsciiCase s t else upper s == upper t

/-- Whether two significant tokens say the same. -/
def agrees (s t : Token) : Bool :=
  s.kind == t.kind && if s.kind = .word then sameWord s.text t.text else s.text == t.text

/-- Whether two lists have the same length and `agrees` holds of them position by position. -/
def pairwiseAgree : List Token → List Token → Bool
  | [], [] => true
  | s :: ss, t :: ts => agrees s t && pairwiseAgree ss ts
  | _, _ => false

/-- Whether two lists of tokens agree on their significant tokens. -/
def sameMeaning (ss ts : List Token) : Bool :=
  pairwiseAgree (ss.filter isSignificant) (ts.filter isSignificant)

end SchemaAlign.Token
