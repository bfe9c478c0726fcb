import SchemaAlign.Edit

/-!
# Updating a schema

Edits change the tokens of the sources in place. A definition that is modified becomes one token
with the whole new text, followed by empty ones; one that is removed becomes empty tokens; one that
is added goes to the end of a source. So no token ever moves, and the other objects still point to
their own tokens.

* `Schema.applyEdit`: one edit;
* `Schema.apply`: a list of edits;
* `Schema.update`: the edits that bring a schema in line with another one.
-/

namespace SchemaAlign

namespace Token

/-- What stands between the definitions of a source and one that is added to it. -/
def separator : Token :=
  ⟨.whitespace, "\n\n"⟩

/-- The same tokens without text. -/
def blankOut (tokens : List Token) : List Token :=
  tokens.map fun t => { t with text := "" }

/-- The same tokens, the first one with the given text and the others with none. -/
def replaceText (text : String) : List Token → List Token
  | [] => []
  | t :: ts => { t with text } :: blankOut ts

end Token

namespace Schema

/-- Changes the tokens of the definition of an object. The object is found in the schema by its
    key; its source and edition have to be the same there. -/
def redefine (s : Schema) (o : SchemaObject) (f : List Token → List Token) :
    Except Violation Schema :=
  match s.get? o.key with
  | none => .error (.missingObject o.key)
  | some registered =>
    if registered.source ≠ o.source ∨ registered.edition ≠ o.edition then
      .error (.sourceMismatch o.source)
    else
      match s.source? o.source with
      | none => .error (.sourceMismatch o.source)
      | some source =>
        if source.edition ≠ o.edition then .error (.sourceMismatch o.source) else
        match slice? source.tokens registered.span with
        | none => .error (.sourceMismatch o.source)
        | some tokens =>
          let tokens := overwrite source.tokens registered.span (f tokens)
          .ok ((s.withTokens o.source tokens).markChanged o.source)

/-- Puts a definition at the end of a source, after a separator. A source that is not registered
    yet is one with this definition alone, in the given edition. Gives the edition of the source
    and the position where the definition begins. -/
def appendTokens (s : Schema) (edition : Nat) (target : String) (definition : List Token) :
    Schema × Nat × Nat :=
  match s.source? target with
  | some source =>
    let before := source.tokens ++ [Token.separator]
    (s.withTokens target (before ++ definition), source.edition, before.length)
  | none =>
    let source : Source := { id := target, edition, tokens := definition }
    ({ s with sources := s.sources ++ [source] }, edition, 0)

/-- Adds an object of `desired` at the end of the given source. -/
def appendObject (s : Schema) (edition : Nat) (desired : Schema) (new : SchemaObject)
    (target : String) : Except Violation Schema := do
  if s.contains new.key then throw (.duplicateObject new.key)
  let definition ← desired.objectTokens new
  let (s, edition, base) := s.appendTokens edition target definition
  let s ← s.addObject
    { key := new.key
      statement := new.statement.shift new.span.start base
      source := target
      edition }
  return s.markChanged target

/-- Gives the definition of an object the text that it has in `desired`. -/
def replaceObject (s : Schema) (desired : Schema) (old new : SchemaObject) :
    Except Violation Schema := do
  if old.key ≠ new.key then throw (.objectMismatch old.key.text new.key.text)
  let definition ← desired.objectTokens new
  s.redefine old (Token.replaceText (Token.render definition))

/-- Removes an object and its definition. -/
def removeObject (s : Schema) (old : SchemaObject) : Except Violation Schema := do
  let s ← s.redefine old Token.blankOut
  return { s with objects := s.objects.filter (·.key != old.key) }

/-- Applies one edit. `placement` chooses the source of an object that is added. -/
def applyEdit (edition : Nat) (desired : Schema) (placement : SchemaObject → String) (s : Schema) :
    Edit → Except Violation Schema
  | .add new => s.appendObject edition desired new (placement new)
  | .modify old new => s.replaceObject desired old new
  | .remove old => s.removeObject old

/-- Applies edits in turn and gives whether anything was changed. There must be no changes that
    wait to be taken. When an edit fails, those before it stay. -/
def apply (s : Schema) (edition : Nat) (desired : Schema) (edits : List Edit)
    (placement : SchemaObject → String) : Schema × Except Violation Bool :=
  if s.hasPending then (s, .error (.pendingChanges s.changed.length)) else
  let (s, result) := runEach (applyEdit edition desired placement) s edits
  (s, result.map fun _ => s.hasPending)

/-- Brings the schema in line with `desired` and gives whether anything was changed. Sources that
    begin with an added object have the given edition. -/
def update (s : Schema) (edition : Nat) (desired : Schema) (placement : SchemaObject → String) :
    Schema × Except Violation Bool :=
  if s.hasPending then (s, .error (.pendingChanges s.changed.length)) else
  match s.diff desired with
  | .error e => (s, .error e)
  | .ok edits => s.apply edition desired edits placement

end Schema

end SchemaAlign
