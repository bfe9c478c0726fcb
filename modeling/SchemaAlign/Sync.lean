import SchemaAlign.Catalog
import SchemaAlign.FileTree
import SchemaAlign.Placement
import SchemaAlign.Schema.Update

/-!
# Synchronizing schema files

A run brings the schema files of a target in line with the catalog of a database. The target is one
file, or a directory with a file for each object; a target that does not exist is made first.

* `SyncError`: why a run fails, with its wording and its exit code;
* `Target.make`: the file or directory that a path names;
* `Target.readSchema`: the schema of its files;
* `writeSources`: writing changed sources back;
* `synchronize`: a whole run.
-/

namespace SchemaAlign

/-- Why a run fails. -/
inductive SyncError where
  /-- The path of the target is empty. -/
  | emptyTarget
  /-- The target is neither a file nor a directory. -/
  | unsupportedTarget (path : String)
  /-- A file or a directory cannot be used: what was being done, with which, and why not. -/
  | io (action path reason : String)
  /-- A schema file cannot be loaded. -/
  | source (path : String) (e : Error)
  /-- The catalog cannot be read. -/
  | catalog (e : Error)
  /-- The files cannot be brought in line with the catalog. -/
  | core (e : Error)
  deriving DecidableEq, Repr

namespace SyncError

/-- An error with what was being done, and with what lies behind it. -/
def report (context : String) (e : Error) : String :=
  "[" ++ e.category ++ "] " ++ context ++ ": " ++ e.message ++
    match e.reason? with
    | some reason => ": " ++ reason
    | none => ""

/-- The wording. -/
def message : SyncError → String
  | emptyTarget => "[usage] the name of the target file/directory cannot be empty"
  | unsupportedTarget path =>
    "[usage] target `" ++ path ++ "` is neither a file nor a directory"
  | io action path reason => "[io] while " ++ action ++ " `" ++ path ++ "`: " ++ reason
  | source path e => report ("while loading schema file `" ++ path ++ "`") e
  | catalog e => report "while reading the database catalog" e
  | core e => report "while reconciling schema files with the database" e

/-- The exit code: two for a wrong use of the program, one for anything else. -/
def exitCode : SyncError → Nat
  | emptyTarget | unsupportedTarget _ => 2
  | _ => 1

end SyncError

/-- Steps of a run. What a step does to the files stays when a later one fails. -/
abbrev Job (α : Type) := ExceptT SyncError (StateM FileTree) α

namespace Job

/-- Looks at the files. A failure is that of an action on a path. -/
def look {α : Type} (action path : String) (f : FileTree → Except FileError α) : Job α := do
  match f (← get) with
  | .ok a => return a
  | .error e => throw (.io action path e.message)

/-- Makes a directory and those on the way to it. -/
def makeDirectories (path : String) : Job Unit := do
  let (tree, result) := (← get).makeDirectories path
  set tree
  if let .error e := result then throw (.io "creating" path e.message)

/-- Makes the directory that a file belongs to. -/
def makeParent (path : String) : Job Unit := do
  if let some parent := Path.parent? path then
    unless parent.isEmpty do makeDirectories parent

/-- Writes a file. -/
def write (action path content : String) : Job Unit := do
  set (← look action path fun t => t.write path (.text content))

end Job

/-- Where the schema files are. -/
inductive Target where
  | file (path : String)
  | directory (path : String)
  deriving DecidableEq, Repr

namespace Target

/-- The word for the kind of target. -/
def text : Target → String
  | file _ => "file"
  | directory _ => "directory"

/-- Where objects go that only the database has. -/
def placement : Target → Placement
  | file path => .single path
  | directory path => .perObject path

/-- Makes what the path names, unless it exists: an empty file if the name ends in `.sql`, a
    directory otherwise. -/
def create (path : String) : Job Unit := do
  if ((← get).find path).isOk then return
  if Path.isSqlFile path then
    Job.makeParent path
    Job.write "creating" path ""
  else Job.makeDirectories path

/-- The file or directory that the path names. It is made if it does not exist. -/
def make (path : String) : Job Target := do
  if path.isEmpty then throw .emptyTarget
  create path
  match ← Job.look "inspecting" path (·.find path) with
  | (_, .directory) => return directory path
  | (_, .file _) => return file path
  | (_, .device) => throw (.unsupportedTarget path)

/-- The schema files: the file itself, or those in the directory that end in `.sql`, ordered by
    name. -/
def sourcePaths : Target → Job (List String)
  | file path => return [path]
  | directory path => do
    let (route, _) ← Job.look "listing" path (·.find path)
    return (((← get).files route).filter Path.isSqlFile).map (Path.join path)

/-- Loads one more schema file. -/
def loadFile (s : Schema) (path : String) : Job Schema := do
  let text ← Job.look "reading" path (·.read path)
  match s.load 0 path text with
  | (s, .ok _) => return s
  | (_, .error e) => throw (.source path e)

/-- The schema of all schema files. -/
def readSchema (t : Target) : Job Schema := do
  (← t.sourcePaths).foldlM loadFile .empty

end Target

/-- Writes a changed source to the file of its name. -/
def writeSource (schema : Schema) (path : String) : Job Unit := do
  if let some text := schema.render? path then
    Job.makeParent path
    Job.write "writing" path text

/-- Writes changed sources to their files, unless the run is only a rehearsal. Gives the files, in
    the given order. -/
def writeSources (schema : Schema) (sources : List String) (rehearsal : Bool) :
    Job (List String) := do
  let paths := sources.filter fun id => (schema.source? id).isSome
  unless rehearsal do paths.forM (writeSource schema)
  return paths

/-- What a run did. -/
structure SyncReport where
  target : Target
  /-- The files that were written, or that would have been. -/
  updated : List String
  deriving DecidableEq, Repr

/-- What is told about a run, line by line. -/
def SyncReport.lines (r : SyncReport) (rehearsal : Bool) : List String :=
  if r.updated.isEmpty then ["schema files are up to date"]
  else r.updated.map fun path => (if rehearsal then "would update " else "updated ") ++ path

/-- Brings the schema files of the target in line with the catalog of the database. -/
def synchronize (path : String) (db : Database) (rehearsal : Bool) : Job SyncReport := do
  let target ← Target.make path
  let desired ← match Schema.ofDatabase 0 db with
    | .ok desired => pure desired
    | .error e => throw (.catalog e)
  let current ← target.readSchema
  match current.update 0 desired target.placement.sourceOf with
  | (_, .error e) => throw (.core (.contract e))
  | (current, .ok _) =>
    let (changed, current) := current.takeChanged
    return { target, updated := ← writeSources current changed rehearsal }

end SchemaAlign
