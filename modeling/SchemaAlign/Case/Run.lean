import SchemaAlign.Case
import SchemaAlign.Catalog
import SchemaAlign.Schema.Update
import SchemaAlign.Version.Requirement

/-!
# Running a case

The file of a case is brought in line with its definitions, and what comes out is checked: it has
to be the expected text, and bringing it in line once more has to change nothing.

* `Case.check`: the run against a given schema;
* `Case.runOffline`: the schema is read from the definitions as a file;
* `Case.runOnline`: the schema is read from the catalog of a database that was given the
  definitions.
-/

namespace SchemaAlign

/-- Why a case fails. -/
inductive CaseFailure where
  | error (e : Error)
  | changed (expected actual : Bool)
  | text (expected actual : String)
  /-- The file cannot be read again. -/
  | unreadable (e : Error)
  /-- The file read again needs further edits. -/
  | unsettled (edits : List Edit)
  | noError (expected : String)
  | otherError (expected actual : String)
  | requirement (e : RequirementError)
  deriving DecidableEq, Repr

/-- The wording. -/
def CaseFailure.message : CaseFailure → String
  | error e => e.message
  | changed expected actual => s!"expected changed: {expected}, but got: {actual}"
  | text expected actual =>
    s!"rendered file mismatch\n--- expected\n{expected}\n--- actual\n{actual}"
  | unreadable e => "rewritten file does not parse: " ++ e.message
  | unsettled edits =>
    "rewritten file is not idempotent, still needs: " ++
      ", ".intercalate (edits.map fun e => e.tag ++ " " ++ e.target.text)
  | noError expected => s!"expected error: {expected}, but got no error"
  | otherError expected actual => s!"expected error: {expected}, but got: {actual}"
  | requirement e => e.message

namespace Case

/-- The source of the schema file. -/
def currentSource : String := "current.sql"

/-- The source of the definitions. -/
def desiredSource : String := "desired.sql"

/-- The file brought in line with `desired`: its text, and whether it changed. -/
def reconcile (c : Case) (desired : Schema) : Except Error (String × Bool) := do
  let current ← Schema.ofText 0 currentSource c.current
  match current.update 0 desired fun _ => currentSource with
  | (_, .error e) => throw (.contract e)
  | (current, .ok changed) => return ((current.render? currentSource).getD "", changed)

/-- The file after the run has to be readable and to need no further edits. -/
def checkSettled (text : String) (desired : Schema) : Except CaseFailure Unit := do
  let reloaded ← (Schema.ofText 0 currentSource text).mapError .unreadable
  let edits ← (reloaded.diff desired).mapError fun e => CaseFailure.error (.contract e)
  unless edits.isEmpty do throw (.unsettled edits)

/-- Brings the file in line with `desired` and checks what comes out. -/
def check (c : Case) (desired : Schema) : Except CaseFailure Unit := do
  let (text, changed) ← (c.reconcile desired).mapError .error
  if let some expected := c.changed then
    if expected ≠ changed then throw (.changed expected changed)
  if let some expected := c.expected then
    if expected ≠ text then throw (.text expected text)
  checkSettled text desired

/-- A run against the error that the case expects. Blanks at the ends of its message do not
    count. -/
def judge (c : Case) (run : Except CaseFailure Unit) : Except CaseFailure Unit :=
  match c.error, run with
  | none, run => run
  | some expected, .ok () => .error (.noError expected)
  | some expected, .error failure =>
    if Text.trim failure.message = Text.trim expected then .ok ()
    else .error (.otherError expected failure.message)

/-- How a run ends. -/
def outcome : Except CaseFailure Unit → Outcome
  | .ok () => .passed
  | .error failure => .failed failure.message

/-- Runs the case with its definitions read as a file. -/
def runOffline (c : Case) : Outcome :=
  outcome <| c.judge do
    let desired ← (Schema.ofText 0 desiredSource c.desired).mapError .error
    c.check desired

/-- The schema that a database holds after it was given the definitions. -/
def seed (c : Case) (db : Database) : Except Error Schema := do
  unless Text.isBlankText c.desired do (db.run c.desired).mapError .execute
  Schema.ofDatabase 0 db

/-- Why the case makes no sense for a database of the given version, if it does not. -/
def skipReason? (c : Case) (version : Version) : Except RequirementError (Option String) := do
  let required := Text.trim (c.minVersion.getD "")
  if required.isEmpty then return none
  if ← version.meets required then return none
  return some s!"Version '{version.text}' is smaller than min_version '{required}'"

/-- Runs the case with its definitions given to a database of the given version. -/
def runOnline (c : Case) (db : Database) (version : Version) : Outcome :=
  if c.offline then .skipped "offline-only testcase" else
  match c.skipReason? version with
  | .error e => .failed (CaseFailure.requirement e).message
  | .ok (some reason) => .skipped reason
  | .ok none =>
    outcome <| c.judge do
      let desired ← (c.seed db).mapError .error
      c.check desired

end Case

end SchemaAlign
