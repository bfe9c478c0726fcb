import SchemaAlign.Version

/-!
# Required versions

A requirement names the first numbers of the oldest version that will do, separated by dots.

* `Requirement.numbers`: the numbers it names;
* `Version.compareWith`: a version against them;
* `Version.meets`: whether a version will do.
-/

namespace SchemaAlign

open Text

/-- Why a requirement makes no sense. -/
inductive RequirementError where
  /-- A part does not begin with a digit. -/
  | noNumber (requirement part : String)
  /-- The number of a part is too large. -/
  | outOfRange (requirement part : String)
  deriving DecidableEq, Repr

/-- The wording. -/
def RequirementError.message : RequirementError → String
  | noNumber requirement part =>
    "invalid version requirement '" ++ requirement ++ "': no numeric prefix in segment '" ++
      part ++ "'"
  | outOfRange requirement part =>
    "invalid version requirement '" ++ requirement ++ "': segment '" ++ part ++
      "' is out of range"

namespace Requirement

/-- The number that a part begins with. -/
def part (requirement : String) (cs : List Char) : Except RequirementError Nat :=
  match leadingNumber? cs with
  | none => .error (.noNumber requirement (String.ofList cs))
  | some n =>
    if n < Version.limit then .ok n else .error (.outOfRange requirement (String.ofList cs))

/-- The numbers that a requirement names. All of its parts have to make sense, also those that are
    not compared. -/
def numbers (requirement : String) : Except RequirementError (List Nat) :=
  (fields '.' requirement.toList).mapM (part requirement)

end Requirement

/-- The order of the first numbers that differ. Numbers without a partner are not compared. -/
def compareCommon : List Nat → List Nat → Ordering
  | a :: as, b :: bs => (compare a b).then (compareCommon as bs)
  | _, _ => .eq

namespace Version

/-- The order of a version and the numbers of a requirement. -/
def compareWith (v : Version) (numbers : List Nat) : Ordering :=
  compareCommon [v.major, v.minor, v.patch] numbers

/-- Whether the version is no older than the requirement. -/
def meets (v : Version) (requirement : String) : Except RequirementError Bool := do
  return v.compareWith (← Requirement.numbers requirement) != .lt

end Version

end SchemaAlign
