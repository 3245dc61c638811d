import Tabular.Glob
import Tabular.Table.Row
import Tabular.Table.Name

/-!
The keys under which namespaces and tables are kept. All keys of a table but its schema begin with
the table's name in braces, so that a store spread over several machines can keep them together.
Names have no braces.

    schema:{ns}               text  marks a namespace
    schema:{ns.table}         hash  types of the columns
    {ns.table}:idx:meta       set   columns with an index
    {ns.table}:id             text  number of the last row
    {ns.table}:rows           set   numbers of the rows
    {ns.table}:<id>           hash  fields of a row
    {ns.table}:idx:<c>:<v>    set   numbers of the rows with value v in column c
-/

namespace Tabular

/-- What a key stands for. -/
inductive Key
  | marker (ns : String)
  | schema (table : TableName)
  | indexed (table : TableName)
  | counter (table : TableName)
  | rows (table : TableName)
  | row (table : TableName) (id : RowId)
  | index (table : TableName) (column value : String)
  deriving DecidableEq, Repr

/-- A text in braces. -/
def braced (s : String) : String := "\x7b" ++ s ++ "\x7d"

namespace Key

/-- The key as the store knows it. -/
def text : Key → String
  | marker ns => "schema:" ++ braced ns
  | schema t => "schema:" ++ braced t.full
  | indexed t => braced t.full ++ ":idx:meta"
  | counter t => braced t.full ++ ":id"
  | rows t => braced t.full ++ ":rows"
  | row t id => braced t.full ++ ":" ++ toString id
  | index t column value => braced t.full ++ ":idx:" ++ column ++ ":" ++ value

/-- The text that stands between `schema:{` and a final brace. -/
def schemaTag? (key : String) : Option (List Char) :=
  let opening := "schema:\x7b".toList
  if opening.isPrefixOf key.toList then
    let rest := key.toList.drop opening.length
    if rest.getLast? = some '\x7d' then some rest.dropLast else none
  else none

/-- The table whose schema a key holds; the marker of a namespace holds none. -/
def schemaTable? (key : String) : Option TableName := do
  TableName.ofText? (String.ofList (← schemaTag? key))

end Key

namespace TableName

/-- Matches the keys of all schemas, and no marker of a namespace without a dot. -/
def anySchemaPattern : String := "schema:" ++ braced "*.*"

/-- Matches the keys of the schemas of one namespace, among others if its name has a dot. -/
def namespacePattern (ns : String) : String := "schema:" ++ braced (Glob.escape ns ++ ".*")

/-- Matches the index keys of one column. -/
def indexPattern (t : TableName) (column : String) : String :=
  braced (Glob.escape t.full) ++ ":idx:" ++ Glob.escape column ++ ":*"

/-- Matches every key of the table but that of its schema. -/
def keyPattern (t : TableName) : String := braced (Glob.escape t.full) ++ ":*"

end TableName

end Tabular
