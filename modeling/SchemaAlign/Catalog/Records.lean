import SchemaAlign.Catalog
import SchemaAlign.Text.Fields

/-!
# Catalog rows as records

The rows of a catalog as a plain text: the unit separator stands between the four values of a row,
and the record separator ends each row. The shell of a database writes query results this way.

* `CatalogRow.toRecord`: a row as a record;
* `CatalogRow.ofRecords?`: the rows of a text.
-/

namespace SchemaAlign.CatalogRow

open Text

/-- The character between the values of a row. -/
def unitSeparator : Char := '\x1F'

/-- The character at the end of a row. -/
def recordSeparator : Char := '\x1E'

/-- The record of a row. -/
def toRecord (row : CatalogRow) : String :=
  (String.singleton unitSeparator).intercalate [row.type, row.name, row.tableName, row.sql] ++
    String.singleton recordSeparator

/-- The row of a record without its end. -/
def ofRecord? (record : List Char) : Option CatalogRow :=
  match (fields unitSeparator record).map String.ofList with
  | [type, name, tableName, sql] => some { type, name, tableName, sql }
  | _ => none

/-- The rows of a text. Nothing, or a line feed, may follow the last one. -/
def ofRecords? (text : String) : Option (List CatalogRow) :=
  let records := fields recordSeparator text.toList
  match records.getLast? with
  | some [] | some ['\n'] => records.dropLast.mapM ofRecord?
  | _ => none

end SchemaAlign.CatalogRow
