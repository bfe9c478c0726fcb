import SchemaAlign.Source

/-!
# Schemas

A schema is an ordered collection of objects that come from one or more sources. It owns the
tokens of its sources, and the objects point into them. It also knows which sources were changed
since the changes were last taken.

* `Schema.addSource`, `Schema.addObject`, `Schema.load`: adding to a schema;
* `Schema.objectTokens`: the definition of an object;
* `Schema.takeChanged`: which sources to write back.

An operation of several steps that fails keeps the steps before the failure (`runEach`), so it
gives a schema in any case, besides its result.
-/

namespace SchemaAlign

/-- Takes a step for each item until one fails. The steps before the failure are kept. -/
def runEach {σ ι ε : Type} (step : σ → ι → Except ε σ) : σ → List ι → σ × Except ε Unit
  | s, [] => (s, .ok ())
  | s, i :: is =>
    match step s i with
    | .ok s => runEach step s is
    | .error e => (s, .error e)

/-- An ordered collection of schema objects and the sources they come from. -/
structure Schema where
  /-- The sources, in the order of registration. -/
  sources : List Source
  /-- The objects, in the order in which they were added. -/
  objects : List SchemaObject
  /-- The sources changed since the changes were last taken, in the order of the first change. -/
  changed : List String
  deriving DecidableEq, Repr

namespace Schema

/-- The schema without sources and objects. -/
def empty : Schema :=
  ⟨[], [], []⟩

/-! ### Looking up -/

/-- The registered source of the given name. -/
def source? (s : Schema) (id : String) : Option Source :=
  s.sources.find? (·.id == id)

/-- The object of the given key. -/
def get? (s : Schema) (key : ObjectKey) : Option SchemaObject :=
  s.objects.find? (·.key == key)

/-- Whether the schema holds an object of the given key. -/
def contains (s : Schema) (key : ObjectKey) : Bool :=
  s.objects.any (·.key == key)

/-- The tokens of a source. -/
def tokens? (s : Schema) (id : String) : Option (List Token) :=
  (s.source? id).map (·.tokens)

/-- The text of a source. -/
def render? (s : Schema) (id : String) : Option String :=
  (s.source? id).map (·.render)

/-- The tokens of the definition of an object. The object need not be in the schema, but its
    source has to be, in the edition that the object points into. -/
def objectTokens (s : Schema) (o : SchemaObject) : Except Violation (List Token) :=
  match s.source? o.source with
  | none => .error (.unknownSource o.source)
  | some source =>
    if source.edition ≠ o.edition then .error (.sourceMismatch o.source) else
    match slice? source.tokens o.span with
    | some tokens => .ok tokens
    | none => .error (.sourceMismatch o.source)

/-- Whether changes wait to be taken. -/
def hasPending (s : Schema) : Bool :=
  !s.changed.isEmpty

/-! ### Adding -/

/-- Registers a source. A source that is registered already has to come with the same edition, and
    stays as it is. -/
def register (s : Schema) (source : Source) : Except Violation Schema :=
  match s.source? source.id with
  | some registered =>
    if registered.edition = source.edition then .ok s else .error (.sourceMismatch source.id)
  | none => .ok { s with sources := s.sources ++ [source] }

/-- Adds an object to a schema where its source is registered. -/
def addObject (s : Schema) (o : SchemaObject) : Except Violation Schema :=
  if s.contains o.key then .error (.duplicateObject o.key) else
  match s.source? o.source with
  | none => .error (.unknownSource o.source)
  | some source =>
    if source.edition ≠ o.edition then .error (.sourceMismatch o.source)
    else .ok { s with objects := s.objects ++ [o] }

/-- The first of the keys that is taken already, or that stands twice among them. -/
def duplicate? (taken : ObjectKey → Bool) : List ObjectKey → Option ObjectKey
  | [] => none
  | k :: ks => if taken k then some k else duplicate? (fun x => taken x || x == k) ks

/-- Registers a source and adds its objects. Gives their number. -/
def addSource (s : Schema) (p : ParsedSource) : Schema × Except Violation Nat :=
  match duplicate? s.contains (p.objects.map (·.key)) with
  | some key => (s, .error (.duplicateObject key))
  | none =>
    match s.register p.toSource with
    | .error e => (s, .error e)
    | .ok s =>
      let (s, result) := runEach addObject s p.objects
      (s, result.map fun _ => p.objects.length)

/-- Reads a text and adds it as a source. -/
def load (s : Schema) (edition : Nat) (id text : String) : Schema × Except Error Nat :=
  match ParsedSource.ofText edition id text with
  | .error e => (s, .error (.parse e))
  | .ok p =>
    let (s, result) := s.addSource p
    (s, result.mapError .contract)

/-- The schema with one source, of the given name and text. -/
def ofText (edition : Nat) (id text : String) : Except Error Schema :=
  match empty.load edition id text with
  | (s, .ok _) => .ok s
  | (_, .error e) => .error e

/-! ### Changes -/

/-- Notes that a source was changed. -/
def markChanged (s : Schema) (id : String) : Schema :=
  if s.changed.contains id then s else { s with changed := s.changed ++ [id] }

/-- The sources changed since the last time, and the schema without that note. -/
def takeChanged (s : Schema) : List String × Schema :=
  (s.changed, { s with changed := [] })

/-- The schema with the tokens of a source replaced. -/
def withTokens (s : Schema) (id : String) (tokens : List Token) : Schema :=
  { s with
    sources := s.sources.map fun source =>
      if source.id == id then { source with tokens } else source }

end Schema

end SchemaAlign
