import SchemaAlign.Text.Blank
import SchemaAlign.Text.Quoted
import SchemaAlign.Text.WordChar
import SchemaAlign.Token

/-!
# From text to tokens

Every text is a list of tokens. Which token comes first is decided by its first characters:

* blanks form one token up to the next character that is not blank;
* `--` opens a comment that ends with the line;
* `/*` opens a comment that ends with the next `*/`;
* a quote opens a string that ends with the next quote of its kind, where two of them in a row
  are part of the string;
* some characters are punctuation, one by one;
* word characters form one token up to the next character of another class;
* any other character stands alone.

A comment or a string that is not closed runs to the end of the text.

* `lexeme`: the first token and what follows it;
* `lexeme_append`: nothing is lost between the two;
* `tokenize`: all tokens of a text;
* `render_tokenize`: writing the tokens gives the text back.
-/

namespace SchemaAlign.Token

open Text

/-- Cuts after the first line feed. -/
def cutLine : List Char → List Char × List Char
  | [] => ([], [])
  | c :: cs =>
    if c = '\n' then ([c], cs) else
    let (line, rest) := cutLine cs
    (c :: line, rest)

/-- Cuts after the first `*/`. -/
def cutBlock : List Char → List Char × List Char
  | [] => ([], [])
  | c :: cs =>
    if c = '*' ∧ cs.head? = some '/' then ([c, '/'], cs.tail) else
    let (block, rest) := cutBlock cs
    (c :: block, rest)

/-- Cuts after the first quote `q` that is not one of two in a row. -/
def cutString (q : Char) : List Char → List Char × List Char
  | [] => ([], [])
  | [c] => ([c], [])
  | c :: d :: cs =>
    if c = q then
      if d = q then
        let (string, rest) := cutString q cs
        (c :: d :: string, rest)
      else ([c], d :: cs)
    else
      let (string, rest) := cutString q (d :: cs)
      (c :: string, rest)

/-- Cuts before the first character outside the class. -/
def cutRun (inClass : Char → Bool) (cs : List Char) : List Char × List Char :=
  (cs.takeWhile inClass, cs.dropWhile inClass)

/-- Whether the character is a token of its own, with a meaning. -/
def isPunctuation (c : Char) : Bool :=
  ['(', ')', '[', ']', '$', '.', ',', ';', '#', '@'].contains c

/-- The first token of the text `c :: cs`: its class, what it holds besides `c`, and what follows
    it. -/
def lexeme (c : Char) (cs : List Char) : TokenKind × List Char × List Char :=
  if isBlank c then (.whitespace, cutRun isBlank cs)
  else if c = '-' ∧ cs.head? = some '-' then (.comment, cutLine cs)
  else if c = '/' ∧ cs.head? = some '*' then
    let (block, rest) := cutBlock cs.tail
    (.comment, '*' :: block, rest)
  else if isQuote c then (.string, cutString c cs)
  else if isPunctuation c then (.punctuation, [], cs)
  else if isWordChar c then (.word, cutRun isWordChar cs)
  else (.other, [], cs)

/-! ### Cutting loses nothing -/

theorem cutLine_append (cs : List Char) : (cutLine cs).1 ++ (cutLine cs).2 = cs := by
  induction cs with
  | nil => rfl
  | cons c cs ih => by_cases h : c = '\n' <;> simp [cutLine, h, ih]

theorem cutBlock_append (cs : List Char) : (cutBlock cs).1 ++ (cutBlock cs).2 = cs := by
  induction cs with
  | nil => rfl
  | cons c cs ih =>
    by_cases h : c = '*' ∧ cs.head? = some '/'
    · obtain ⟨rfl, h'⟩ := h
      cases cs <;> simp_all [cutBlock]
    · simp [cutBlock, h, ih]

theorem cutString_append (q : Char) (cs : List Char) :
    (cutString q cs).1 ++ (cutString q cs).2 = cs := by
  fun_induction cutString q cs with
  | case1 | case2 | case4 => simp
  | case3 | case5 => simp_all

theorem cutRun_append (inClass : Char → Bool) (cs : List Char) :
    (cutRun inClass cs).1 ++ (cutRun inClass cs).2 = cs :=
  List.takeWhile_append_dropWhile

/-- The first token and what follows it make up the text. -/
theorem lexeme_append (c : Char) (cs : List Char) :
    (lexeme c cs).2.1 ++ (lexeme c cs).2.2 = cs := by
  unfold lexeme
  split; · exact cutRun_append _ _
  split; · exact cutLine_append _
  split
  · next h =>
    cases cs with
    | nil => simp at h
    | cons d cs =>
      obtain rfl : d = '*' := by simpa using h.2
      simp [cutBlock_append]
  split; · exact cutString_append _ _
  split; · rfl
  split; · exact cutRun_append _ _
  rfl

theorem length_rest_lexeme_lt (c : Char) (cs : List Char) :
    (lexeme c cs).2.2.length < (c :: cs).length := by
  have h := congrArg List.length (lexeme_append c cs)
  rw [List.length_append] at h
  rw [List.length_cons]
  omega

/-! ### All tokens -/

/-- The tokens of a list of characters. -/
def ofChars : List Char → List Token
  | [] => []
  | c :: cs =>
    ⟨(lexeme c cs).1, String.ofList (c :: (lexeme c cs).2.1)⟩ :: ofChars (lexeme c cs).2.2
termination_by cs => cs.length
decreasing_by exact length_rest_lexeme_lt c cs

/-- The tokens of a text. -/
def tokenize (s : String) : List Token :=
  ofChars s.toList

theorem chars_ofChars (cs : List Char) : chars (ofChars cs) = cs := by
  fun_induction ofChars cs with
  | case1 => rfl
  | case2 c cs ih => simp [ih, lexeme_append]

/-- Writing the tokens of a text gives the text back. -/
theorem render_tokenize (s : String) : render (tokenize s) = s := by
  simp [render, tokenize, chars_ofChars]

end SchemaAlign.Token
