import SchemaAlign.FileTree.Path
import SchemaAlign.Text.Utf8

/-!
# File trees

The files and directories that a run sees, as a value. An entry is known by its route: the names
of the directories on the way to it, from the working directory, and its own name. Routes of
absolute paths begin with a slash as a name of its own, and those that leave the working directory
with as many double dots as they go up. Names are texts: an entry whose name is no UTF-8 is left
out, as the name that a source gets for it would be another one.

* `FileTree.find`: what a path leads to;
* `FileTree.read`, `FileTree.write`: the text of a file;
* `FileTree.makeDirectories`: a directory and those on the way to it;
* `FileTree.files`: the names of the files in a directory.
-/

namespace SchemaAlign

/-- What a file holds. -/
inductive Content where
  | text (s : String)
  /-- Bytes that encode no text. -/
  | bytes (bs : List UInt8)
  deriving DecidableEq, Repr

/-- The content that the bytes make up. -/
def Content.ofBytes (bs : List UInt8) : Content :=
  match Text.Utf8.decode? bs with
  | some s => text s
  | none => bytes bs

/-- The content as text, with the replacement character for what encodes nothing. -/
def Content.display : Content → String
  | text s => s
  | bytes bs => Text.Utf8.decodeLossy bs

/-- An entry of a file tree. -/
inductive Entry where
  | directory
  | file (content : Content)
  /-- Something else, which takes any text and holds none. -/
  | device
  deriving DecidableEq, Repr

/-- Why a file or a directory cannot be used. -/
inductive FileError where
  | notFound
  | alreadyExists
  | notDirectory
  | isDirectory
  | nameTooLong
  | notText
  | nulInName
  deriving DecidableEq, Repr

/-- The wording. -/
def FileError.message : FileError → String
  | notFound => "No such file or directory (os error 2)"
  | alreadyExists => "File exists (os error 17)"
  | notDirectory => "Not a directory (os error 20)"
  | isDirectory => "Is a directory (os error 21)"
  | nameTooLong => "File name too long (os error 36)"
  | notText => "stream did not contain valid UTF-8"
  | nulInName => "file name contained an unexpected NUL byte"

/-- The names on the way to an entry, and its own. -/
abbrev Route := List String

namespace Route

/-- Where an absolute or a relative path begins. -/
def start (absolute : Bool) : Route :=
  if absolute then ["/"] else []

/-- Whether the route leads to the working directory or to one above it. -/
def isHomeOrAbove (r : Route) : Bool :=
  r.all (· == "..")

/-- The directory above. There is none above the root. -/
def up (r : Route) : Route :=
  if r = ["/"] then r
  else if r.isHomeOrAbove then r ++ [".."]
  else r.dropLast

end Route

/-- The files and directories that a run sees, apart from the working directory and those above
    it, which are always there. -/
structure FileTree where
  entries : List (Route × Entry)
  deriving DecidableEq, Repr

namespace FileTree

/-- An empty working directory, on a machine with a null device. -/
def fresh : FileTree :=
  ⟨[(["/"], .directory), (["/", "dev"], .directory), (["/", "dev", "null"], .device)]⟩

/-- The longest name that an entry may have, in bytes. -/
def maxName : Nat := 255

/-- The longest path that may be used, in bytes. -/
def maxPath : Nat := 4095

/-! ### Looking up -/

/-- The entry of the given route. -/
def get? (t : FileTree) (r : Route) : Option Entry :=
  if r.isHomeOrAbove then some .directory else t.entries.lookup r

/-- The entries with that of the given route set, in its place or at the end. -/
def setEntry (r : Route) (e : Entry) : List (Route × Entry) → List (Route × Entry)
  | [] => [(r, e)]
  | (r', e') :: rest => if r' = r then (r, e) :: rest else (r', e') :: setEntry r e rest

/-- The tree with the entry of the given route set. -/
def put (t : FileTree) (r : Route) (e : Entry) : FileTree :=
  ⟨setEntry r e t.entries⟩

theorem lookup_setEntry (r : Route) (e : Entry) (entries : List (Route × Entry)) (r' : Route) :
    (setEntry r e entries).lookup r' = if r' = r then some e else entries.lookup r' := by
  induction entries with
  | nil =>
    by_cases h : r' = r
    · simp [setEntry, h]
    · simp [setEntry, List.lookup_cons, h, beq_false_of_ne h]
  | cons p rest ih =>
    obtain ⟨q, e'⟩ := p
    by_cases h : r' = q
    · by_cases hq : q = r <;> simp [setEntry, h, hq]
    · by_cases hq : q = r
      · simp [setEntry, List.lookup_cons, hq, hq ▸ h, beq_false_of_ne (hq ▸ h)]
      · simp [setEntry, List.lookup_cons, hq, beq_false_of_ne h, ih]

@[simp] theorem get?_nil (t : FileTree) : t.get? [] = some .directory := rfl

/-- Setting an entry changes what its own route leads to, and nothing else. -/
theorem get?_put (t : FileTree) {r : Route} (hr : r.isHomeOrAbove = false) (e : Entry)
    (r' : Route) : (t.put r e).get? r' = if r' = r then some e else t.get? r' := by
  by_cases h : r'.isHomeOrAbove
  · have hne : r' ≠ r := fun heq => by simp [heq, hr] at h
    simp [get?, h, hne]
  · simp [get?, put, h, lookup_setEntry]

/-- Follows steps from a directory. All of them have to lead somewhere. -/
def follow (t : FileTree) (r : Route) : List String → Except FileError Route
  | [] => .ok r
  | step :: steps =>
    if t.get? r ≠ some .directory then .error .notDirectory
    else if step = ".." then t.follow r.up steps
    else if maxName < step.utf8ByteSize then .error .nameTooLong
    else if (t.get? (r ++ [step])).isNone then .error .notFound
    else t.follow (r ++ [step]) steps

/-- A path as steps, if it may be used at all. -/
def checkPath (text : String) : Except FileError Path :=
  if text.toList.contains '\x00' then .error .nulInName
  else if text.isEmpty then .error .notFound
  else if maxPath < text.utf8ByteSize then .error .nameTooLong
  else .ok (.parse text)

/-- The route and the entry that a path leads to. A path that ends as a directory does leads to
    nothing else. -/
def find (t : FileTree) (text : String) : Except FileError (Route × Entry) := do
  let path ← checkPath text
  let route ← t.follow (Route.start path.absolute) path.steps
  match t.get? route with
  | none => throw .notFound
  | some entry =>
    if path.ending ≠ .plain ∧ entry ≠ .directory then throw .notDirectory
    return (route, entry)

/-- The names of the files in a directory, in order. -/
def files (t : FileTree) (r : Route) : List String :=
  let names := t.entries.filterMap fun (r', e) =>
    match r'.getLast?, e with
    | some name, .file _ => if r'.dropLast = r then some name else none
    | _, _ => none
  names.mergeSort fun a b => decide (a ≤ b)

/-! ### Reading and writing -/

/-- The text of a file. -/
def read (t : FileTree) (text : String) : Except FileError String := do
  match (← t.find text).2 with
  | .directory => throw .isDirectory
  | .device => return ""
  | .file (.text s) => return s
  | .file (.bytes _) => throw .notText

/-- The tree with a file of the given content. The directory that it belongs to has to exist. -/
def write (t : FileTree) (text : String) (content : Content) : Except FileError FileTree := do
  let path ← checkPath text
  match path.steps.getLast? with
  | none => throw .isDirectory
  | some name =>
    let parent ← t.follow (Route.start path.absolute) path.steps.dropLast
    unless t.get? parent = some .directory do throw .notDirectory
    if name = ".." ∨ path.ending = .slash then throw .isDirectory
    if maxName < name.utf8ByteSize then throw .nameTooLong
    match t.get? (parent ++ [name]), path.ending with
    | some .directory, _ => throw .isDirectory
    | some _, .dot => throw .notDirectory
    | none, .dot => throw .notFound
    | some .device, _ => return t
    | some (.file _), _ | none, _ => return t.put (parent ++ [name]) (.file content)

/-! ### Making directories -/

/-- Goes one step from a directory to another, and makes that where it does not exist. One that has
    to exist is not made. -/
def makeStep (t : FileTree) (hasToExist : Bool) (r : Route) (step : String) :
    Except FileError (FileTree × Route) :=
  if t.get? r ≠ some .directory then .error .notDirectory
  else if step = ".." then .ok (t, r.up)
  else if maxName < step.utf8ByteSize then .error .nameTooLong
  else
    match t.get? (r ++ [step]) with
    | some .directory => .ok (t, r ++ [step])
    | some _ => .error (if hasToExist then .notDirectory else .alreadyExists)
    | none =>
      if hasToExist then .error .notFound
      else .ok (t.put (r ++ [step]) .directory, r ++ [step])

/-- Makes the directory that the steps lead to, and gives its route. The steps come last one first:
    it is made at once where the ones before it lead to a directory, and only where they do not
    lead anywhere, the directories on the way come first. Those made before a failure stay. -/
def makeSteps (t : FileTree) (hasToExist : Bool) (start : Route) :
    List String → FileTree × Except FileError Route
  | [] => (t, .ok start)
  | step :: before =>
    match t.follow start before.reverse >>= fun r => t.makeStep hasToExist r step with
    | .ok (t, r) => (t, .ok r)
    | .error .notFound =>
      match t.makeSteps false start before with
      | (t, .error e) => (t, .error e)
      | (t, .ok r) =>
        match t.makeStep hasToExist r step with
        | .ok (t, r) => (t, .ok r)
        | .error e => (t, .error e)
    | .error e => (t, .error e)

/-- Makes a directory and those on the way to it, where they do not exist yet. The empty path names
    the working directory, which exists. -/
def makeDirectories (t : FileTree) (text : String) : FileTree × Except FileError Unit :=
  if text.isEmpty then (t, .ok ()) else
  match checkPath text with
  | .error e => (t, .error e)
  | .ok path =>
    let (t, result) :=
      t.makeSteps (path.ending = .dot) (Route.start path.absolute) path.steps.reverse
    (t, result.map fun _ => ())

end FileTree

end SchemaAlign
