/-!
# Fields and leading numbers

* `fields`: a text cut at every separator;
* `leadingNumber?`: the number that a text begins with.
-/

namespace SchemaAlign.Text

/-- The parts of the text between the separators. There is always one more than separators. -/
def fields (separator : Char) : List Char → List (List Char)
  | [] => [[]]
  | c :: cs =>
    match fields separator cs with
    | [] => [[c]]
    | first :: rest =>
      if c = separator then [] :: first :: rest else (c :: first) :: rest

theorem fields_ne_nil (separator : Char) (cs : List Char) : fields separator cs ≠ [] := by
  cases cs with
  | nil => simp [fields]
  | cons c cs => grind [fields]

/-- The number that the decimal digits stand for. -/
def digitsValue (digits : List Char) : Nat :=
  digits.foldl (fun n d => 10 * n + (d.toNat - '0'.toNat)) 0

/-- The number that the decimal digits at the front of the text stand for, if it begins with a
    digit. What follows the digits is not looked at. -/
def leadingNumber? (cs : List Char) : Option Nat :=
  match cs.takeWhile Char.isDigit with
  | [] => none
  | digits => some (digitsValue digits)

end SchemaAlign.Text
