import SchemaAlign.FileTree.Path
import SchemaAlign.Object

/-!
# Placement

Where an object goes that only the database has.

* `Placement`: one file for all objects, or a file for each in one directory;
* `Placement.sourceOf`: the file for an object.
-/

namespace SchemaAlign

/-- Where new objects go. -/
inductive Placement where
  /-- Into the source of this name. -/
  | single (source : String)
  /-- Into files in this directory, named after the objects. -/
  | perObject (directory : String)
  deriving DecidableEq, Repr

namespace Placement

/-- The name of an object as the name of a file: what separates directories or drives becomes an
    underscore. -/
def stem (name : String) : String :=
  String.ofList (name.toList.map fun c => if ['/', '\\', ':', '\x00'].contains c then '_' else c)

/-- The source for an object of the given name. -/
def sourceFor (p : Placement) (name : String) : String :=
  match p with
  | single source => source
  | perObject directory => Path.join directory (stem name ++ ".sql")

/-- The source for an object. -/
def sourceOf (p : Placement) (o : SchemaObject) : String :=
  p.sourceFor o.key.name

end Placement

end SchemaAlign
