/-!
# Reconciliation cases

A case says what becomes of a schema file when it is brought in line with given definitions.

* `Case`: the file, the definitions, and what is expected;
* `Case.ofFields?`: a case from named fields, as a case file has them;
* `Outcome`: how a case ends.
-/

namespace SchemaAlign

/-- One case. -/
structure Case where
  /-- The schema file before the run. -/
  current : String := ""
  /-- The definitions that it is brought in line with. -/
  desired : String := ""
  /-- The text of the file after the run. -/
  expected : Option String := none
  /-- Whether the file changes. -/
  changed : Option Bool := none
  /-- The error that the run ends with. -/
  error : Option String := none
  /-- The oldest version of a database that the case makes sense for. -/
  minVersion : Option String := none
  /-- Whether the case is never run against a database. -/
  offline : Bool := false
  deriving DecidableEq, Repr

/-- The value of a field in a case file. -/
inductive FieldValue where
  | text (s : String)
  | flag (b : Bool)
  | null
  /-- A value that no field takes. -/
  | other
  deriving DecidableEq, Repr

namespace Case

/-- The case with one field set, if there is such a field and it takes such a value. -/
def set? (c : Case) (name : String) (value : FieldValue) : Option Case :=
  match name, value with
  | "current", .text s => some { c with current := s }
  | "desired", .text s => some { c with desired := s }
  | "expected", .text s => some { c with expected := some s }
  | "expected", .null => some { c with expected := none }
  | "changed", .flag b => some { c with changed := some b }
  | "changed", .null => some { c with changed := none }
  | "error", .text s => some { c with error := some s }
  | "error", .null => some { c with error := none }
  | "min_version", .text s => some { c with minVersion := some s }
  | "min_version", .null => some { c with minVersion := none }
  | "offline", .flag b => some { c with offline := b }
  | _, _ => none

/-- The case with the given fields. -/
def ofFields? (fields : List (String × FieldValue)) : Option Case :=
  fields.foldlM (fun c (name, value) => c.set? name value) {}

end Case

/-- How a case ends. -/
inductive Outcome where
  | passed
  | skipped (reason : String)
  | failed (message : String)
  deriving DecidableEq, Repr

end SchemaAlign
