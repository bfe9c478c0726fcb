import SchemaAlign.Text.Fields

/-!
# Paths

A path names a file or a directory, step by step, from the working directory or, if it begins with
a slash, from the root. Paths are texts, so names that are no UTF-8 have none.

* `Path.parse`: the steps of a path;
* `Path.parent?`: the path without its last step;
* `Path.fileName?`, `Path.isSqlFile`: its last step;
* `Path.join`: a path with one more step.
-/

namespace SchemaAlign

/-- How a path ends. -/
inductive PathEnd where
  /-- With a name. -/
  | plain
  /-- With a slash: it names a directory. -/
  | slash
  /-- With a step that is a dot: it names a directory that has to exist. -/
  | dot
  deriving DecidableEq, Repr

/-- The steps of a path. Empty ones and dots are left out. -/
structure Path where
  absolute : Bool
  steps : List String
  ending : PathEnd
  deriving DecidableEq, Repr

namespace Path

/-- The texts between the slashes, without empty ones. -/
def pieces (text : String) : List String :=
  ((Text.fields '/' text.toList).filter (· ≠ [])).map String.ofList

/-- Whether the path begins at the root. -/
def isAbsolute (text : String) : Bool :=
  text.toList.head? == some '/'

/-- The steps of a path. -/
def parse (text : String) : Path :=
  let all := pieces text
  { absolute := isAbsolute text
    steps := all.filter (· ≠ ".")
    ending :=
      if all.getLast? == some "." then .dot
      else if text.toList.getLast? == some '/' then .slash
      else .plain }

/-- The name of the file or directory, if the path ends with a name. -/
def fileName? (text : String) : Option String :=
  (parse text).steps.getLast?.filter (· ≠ "..")

/-- Whether the name ends in `.sql` and has something before it. -/
def isSqlFile (text : String) : Bool :=
  match fileName? text with
  | some name => ".sql".toList.isSuffixOf name.toList && name ≠ ".sql"
  | none => false

/-- The text without slashes, and without dots after a slash, at its end. The characters come last
    one first. -/
def dropEnd : List Char → List Char
  | '/' :: cs => dropEnd cs
  | '.' :: '/' :: cs => dropEnd cs
  | cs => cs

/-- The path without its last step. A path of one step has the empty one as its parent; the root
    and the empty path have none. -/
def parent? (text : String) : Option String :=
  match dropEnd text.toList.reverse with
  | [] => none
  | cs =>
    let rest := cs.dropWhile (· ≠ '/')
    match dropEnd rest with
    | [] => some (if rest.isEmpty then "" else "/")
    | cs => some (String.ofList cs.reverse)

/-- The path with one more step. -/
def join (directory name : String) : String :=
  if directory.isEmpty || directory.toList.getLast? == some '/' then directory ++ name
  else directory ++ "/" ++ name

end Path

end SchemaAlign
