import SchemaAlign.Schema

/-!
# The catalog of a database

A database keeps one row for each of its objects, with the statement that created it.

* `CatalogRow`: such a row;
* `ParsedSource.ofRow`: a row as a source with one object;
* `Schema.ofRows`: the schema that the rows describe;
* `Database`, `Schema.ofDatabase`: reading the rows.
-/

namespace SchemaAlign

/-- A row of the catalog. -/
structure CatalogRow where
  /-- The word for the kind of the object. -/
  type : String
  name : String
  /-- The table that the object belongs to. -/
  tableName : String
  /-- The statement that created the object. -/
  sql : String
  deriving DecidableEq, Repr

/-- The name of the source for a row of the catalog. -/
def Source.catalogId (key : ObjectKey) : String :=
  "<catalog>/" ++ key.text

/-- Ends a definition with a semicolon. If the last token of its span is none, one is put after
    that token and the span grows by it. -/
def terminate (tokens : List Token) (statement : Statement) : List Token × Statement :=
  let span := statement.span
  if (tokens.take span.stop).getLast?.any (·.isPunct ";") then (tokens, statement)
  else
    (tokens.take span.stop ++ Token.semicolon :: tokens.drop span.stop,
      statement.withSpan ⟨span.start, span.stop + 1⟩)

/-- A row of the catalog as a source with one object. Kind and name are those of the row. -/
def ParsedSource.ofRow (edition : Nat) (row : CatalogRow) : Except ParseError ParsedSource := do
  let some kind := ObjectKind.ofText? row.type | throw (.unknownObjectKind row.type)
  let key : ObjectKey := ⟨kind, row.name⟩
  let tokens := Token.tokenize row.sql
  match ← Statement.parse tokens with
  | [statement] =>
    let (tokens, statement) := terminate tokens statement
    let id := Source.catalogId key
    return { id, edition, tokens, objects := [{ key, statement, source := id, edition }] }
  | statements => throw (.statementCount key.text statements.length)

namespace Schema

/-- Adds the object of a row. A row without a statement adds nothing. -/
def addRow (edition : Nat) (s : Schema) (row : CatalogRow) : Except Error Schema :=
  if Text.isBlankText row.sql then .ok s else
  match ParsedSource.ofRow edition row with
  | .error e => .error (.parse e)
  | .ok p =>
    match s.addSource p with
    | (s, .ok _) => .ok s
    | (_, .error e) => .error (.contract e)

/-- The schema that the rows describe. -/
def ofRows (edition : Nat) (rows : List CatalogRow) : Except Error Schema :=
  rows.foldlM (addRow edition) empty

end Schema

/-- The query for the rows of the catalog. Internal objects and indexes without a statement are
    left out. -/
def catalogQuery : String :=
  "
SELECT type, name, tbl_name, sql
FROM sqlite_schema
WHERE sql IS NOT NULL AND name NOT LIKE 'sqlite\\_%' ESCAPE '\\'
ORDER BY CASE type
    WHEN 'table' THEN 0
    WHEN 'index' THEN 1
    WHEN 'view' THEN 2
    ELSE 3
  END, tbl_name ASC, name ASC;
"

/-- What is asked of a database: to run statements and to give the rows of its catalog. -/
structure Database where
  run : String → Except ExecutionError Unit
  select : String → Except ExecutionError (List CatalogRow)

/-- The schema that the catalog of a database describes. -/
def Schema.ofDatabase (edition : Nat) (db : Database) : Except Error Schema := do
  let rows ← (db.select catalogQuery).mapError .execute
  Schema.ofRows edition rows

end SchemaAlign
