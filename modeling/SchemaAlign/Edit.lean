import SchemaAlign.Schema
import SchemaAlign.Token.Compare

/-!
# Edits

What has to be done to a schema so that it agrees with another one.

* `Edit`: one change of one object;
* `Schema.differs`: whether two definitions of one object say different things;
* `Schema.diff`: the edits from one schema to another.
-/

namespace SchemaAlign

/-- One change that brings a current schema closer to a desired one. -/
inductive Edit where
  | add (desired : SchemaObject)
  | modify (current desired : SchemaObject)
  | remove (current : SchemaObject)
  deriving DecidableEq, Repr

namespace Edit

/-- The word for the kind of change. -/
def tag : Edit → String
  | add _ => "add"
  | modify _ _ => "modify"
  | remove _ => "remove"

/-- The object that the change is about. -/
def target : Edit → ObjectKey
  | add desired => desired.key
  | modify _ desired => desired.key
  | remove current => current.key

end Edit

/-! ### Comparing definitions -/

/-- The tokens of the text that the given tokens make up. They may be other tokens than the given
    ones, where one of these holds the text of many. -/
def Token.relex (tokens : List Token) : List Token :=
  tokenize (render tokens)

/-- The tokens before the semicolon that ends them, if the last significant one is a semicolon. -/
def Token.withoutTerminator (tokens : List Token) : List Token :=
  match (tokens.reverse.dropWhile (·.isTrivia)) with
  | t :: before => if t.isPunct ";" then before.reverse else tokens
  | [] => tokens

/-- Whether two definitions say the same. The semicolon at the end is not counted: it may be
    missing at the end of a file. -/
def Token.sameDefinition (left right : List Token) : Bool :=
  sameMeaning (withoutTerminator (relex left)) (withoutTerminator (relex right))

namespace Schema

/-- Whether the definition of an object has to change to say what another one says. -/
def differs (current : Schema) (left : SchemaObject) (desired : Schema) (right : SchemaObject) :
    Except Violation Bool := do
  if left.key ≠ right.key then throw (.objectMismatch left.key.text right.key.text)
  let left ← current.objectTokens left
  let right ← desired.objectTokens right
  return !Token.sameDefinition left right

/-- The edit that gives `current` the given object of `desired`, if one is needed. -/
def edit? (current desired : Schema) (new : SchemaObject) :
    Except Violation (Option Edit) := do
  match current.get? new.key with
  | none => return some (.add new)
  | some old =>
    return if ← current.differs old desired new then some (.modify old new) else none

/-- The edits for the objects that `desired` does not hold. -/
def removals (current desired : Schema) : List Edit :=
  (current.objects.filter (!desired.contains ·.key)).map .remove

/-- The edits that bring `current` in line with `desired`: first what is added and modified, in
    the order of `desired`, then what is removed, in the order of `current`. -/
def diff (current desired : Schema) : Except Violation (List Edit) := do
  let edits ← desired.objects.mapM (current.edit? desired)
  return edits.reduceOption ++ current.removals desired

end Schema

end SchemaAlign
