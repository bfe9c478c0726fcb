import SchemaAlign.Error
import SchemaAlign.Text.Fields

/-!
# Versions of the database

* `Version.ofServer?`: the version that a server reports;
* `Version.accept`: the same, refused when it is too old.
-/

namespace SchemaAlign

open Text

/-- A version. Each number fits 16 bits. -/
structure Version where
  major : Nat
  minor : Nat
  patch : Nat
  deriving DecidableEq, Repr

namespace Version

/-- The numbers of a version are below this one. -/
def limit : Nat := 0x10000

/-- The three numbers, separated by dots. -/
def text (v : Version) : String :=
  s!"{v.major}.{v.minor}.{v.patch}"

/-- The number that a part of a reported version begins with. There is none where the part does not
    begin with a digit or the number is too large. -/
def part? (cs : List Char) : Option Nat :=
  (leadingNumber? cs).filter (· < limit)

/-- The version in the first word of a report, such as `3.45.1 2024-01-30`. The first number has to
    be there; the others are zero where they are missing or cannot be read. -/
def ofServer? (report : String) : Option Version := do
  let word ← firstWord? report
  let parts := fields '.' word.toList
  let major ← part? (parts.headD [])
  let minor := (parts[1]?.bind part?).getD 0
  let patch := (parts[2]?.bind part?).getD 0
  return ⟨major, minor, patch⟩

/-- The oldest version whose catalog can be read. -/
def minimum : Version :=
  ⟨3, 33, 0⟩

/-- Whether the catalog of this version can be read. The third number does not matter. -/
def isSupported (v : Version) : Bool :=
  decide (v.major > minimum.major) || v.major == minimum.major && decide (v.minor ≥ minimum.minor)

/-- The query for the version of a server. -/
def query : String :=
  "SELECT sqlite_version()"

/-- The reported version, if it can be read and is not too old. -/
def accept (report : String) : Except ExecutionError Version :=
  match ofServer? report with
  | none =>
    .error (.ofStatement query ("failed to parse sqlite server version string: `" ++ report ++ "`"))
  | some v =>
    if v.isSupported then .ok v
    else
      .error (.ofStatement query
        ("sqlite server version `" ++ report ++ "` is not supported; requires " ++
          s!"{minimum.major}.{minimum.minor}+"))

end Version

end SchemaAlign
