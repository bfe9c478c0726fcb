import SchemaAlign.Catalog.Records
import SchemaAlign.Sync

/-!
# Command line

`schema-align TARGET [--dry-run]` brings the schema files of a target in line with the catalog rows
that it finds on its standard input. It looks at the part of the file system that the target is in,
lets `SchemaAlign.synchronize` work on it, and then does on disk what that did.
-/

namespace SchemaAlign.CommandLine

/-- The text of the path that leads along a route. -/
def pathOf : Route → String
  | "/" :: steps => "/" ++ "/".intercalate steps
  | steps => "/".intercalate steps

/-- The entry that a route leads to on disk. -/
def entryAt? (route : Route) : IO (Option Entry) := do
  let path := (← IO.currentDir) / pathOf route
  if ← path.isDir then return some .directory
  unless ← path.pathExists do return none
  match (← path.metadata).type with
  | .file =>
    return some (.file (.ofBytes (← IO.FS.readBinFile path).toList))
  | _ => return some .device

/-- The entries on the way along some steps, and those in the directory at its end. -/
def entriesAlong (route : Route) : List String → IO (List (Route × Entry))
  | [] => do
    let path := (← IO.currentDir) / pathOf route
    unless ← path.isDir do return []
    let found ← (← path.readDir).toList.mapM fun e => do
      let route := route ++ [e.fileName]
      return (← entryAt? route).map fun entry => (route, entry)
    return found.reduceOption
  | step :: steps => do
    if step = ".." then return ← entriesAlong route.up steps
    let route := route ++ [step]
    let further ← entriesAlong route steps
    match ← entryAt? route with
    | some entry => return (route, entry) :: further
    | none => return further

/-- The part of the file system that a target is in. -/
def treeAround (target : String) : IO FileTree := do
  let path := Path.parse target
  return ⟨(["/"], .directory) :: (← entriesAlong (Route.start path.absolute) path.steps)⟩

/-- Does on disk what was done to a file tree. -/
def writeBack (before after : FileTree) : IO Unit := do
  for (route, entry) in after.entries do
    unless before.get? route = some entry do
      match entry with
      | .directory => IO.FS.createDir (pathOf route)
      | .file (.text s) => IO.FS.writeFile (pathOf route) s
      | _ => pure ()

/-- Runs the command and gives its exit code. -/
def run (target : String) (rehearsal : Bool) : IO UInt32 := do
  let records ← (← IO.getStdin).readToEnd
  let some rows := CatalogRow.ofRecords? records
    | IO.eprintln "[usage] the standard input does not hold catalog rows"
      return 2
  let db : Database := { run := fun _ => .ok (), select := fun _ => .ok rows }
  let before ← treeAround target
  let (result, after) := (synchronize target db rehearsal).run.run before
  writeBack before after
  match result with
  | .ok report =>
    (report.lines rehearsal).forM IO.println
    return 0
  | .error e =>
    IO.eprintln e.message
    return e.exitCode.toUInt32

end SchemaAlign.CommandLine

/-- The command line. -/
def main (args : List String) : IO UInt32 := do
  match args.partition (· = "--dry-run") with
  | (flags, [target]) => SchemaAlign.CommandLine.run target !flags.isEmpty
  | _ =>
    IO.eprintln "usage: schema-align TARGET [--dry-run]"
    return 2
