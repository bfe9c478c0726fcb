import SchemaAlign.Text.Ranges

/-!
# Blank characters

The characters with the Unicode property White_Space, and what is done at the ends of a text with
them.

* `isBlank`: the class;
* `trim`: a text without the blanks at both of its ends;
* `firstWord?`: the first run of characters that are not blank.
-/

namespace SchemaAlign.Text

/-- The code points with the property White_Space. -/
def blankRanges : List (Nat × Nat) :=
  [(0x9, 0xD), (0x20, 0x20), (0x85, 0x85), (0xA0, 0xA0), (0x1680, 0x1680), (0x2000, 0x200A),
   (0x2028, 0x2029), (0x202F, 0x202F), (0x205F, 0x205F), (0x3000, 0x3000)]

/-- Whether `c` has the property White_Space. -/
def isBlank (c : Char) : Bool :=
  inRanges c.toNat blankRanges

/-- The characters left when the blanks at both ends are dropped. -/
def trimBlank (cs : List Char) : List Char :=
  ((cs.dropWhile isBlank).reverse.dropWhile isBlank).reverse

/-- The text without the blanks at both of its ends. -/
def trim (s : String) : String :=
  String.ofList (trimBlank s.toList)

/-- Whether the text holds nothing but blanks. -/
def isBlankText (s : String) : Bool :=
  s.toList.all isBlank

/-- The first run of characters that are not blank, if the text holds such a character. -/
def firstWord? (s : String) : Option String :=
  match (s.toList.dropWhile isBlank).takeWhile (!isBlank ·) with
  | [] => none
  | word => some (String.ofList word)

end SchemaAlign.Text
