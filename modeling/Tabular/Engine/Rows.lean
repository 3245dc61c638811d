import Tabular.Engine.Index

/-!
Rows: inserting, reading, changing and deleting them, one by one and by query. Everything is
checked before the first write, so a refused change leaves the store as it is. Where a set is gone
through, the order is a parameter (`Orders`).
-/

namespace Tabular

/-- The orders in which a command goes through sets: the candidates of its filters or the rows that
it enters into an index, and for each row that it deletes the indexed columns. -/
structure Orders where
  rows : Enumeration RowId
  columns : RowId → Enumeration String

def Orders.ascending : Orders := ⟨.ascending, fun _ => .ascending⟩

def Orders.descending : Orders := ⟨.descending, fun _ => .descending⟩

namespace Engine

open StoreM

/-- The number of the next row, greater than any before it. -/
def nextRowId (table : TableName) : StoreM RowId := do
  match ← incr (Key.counter table).text with
  | .ofNat id => return id
  | .negSucc _ => throw (.negativeCounter table)

/-- Checks the values of fields against the types of their columns. Of two values for one column
the later counts. -/
def checkFields (table : TableName) (types : OrderedMap String ColumnType)
    (fields : List (String × String)) : Except Error (OrderedMap String String) :=
  fields.foldlM (fun checked (column, value) => do
    let some type := types.get? column | throw (.columnNotFound column table)
    type.check column value
    return checked.insert column value) ∅

/-- Inserts a row and gives its number. -/
def insert (table : TableName) (fields : List (String × String)) : StoreM RowId := do
  Catalog.ensureTable table
  if fields.isEmpty then throw (.badSyntax .rowWithoutFields)
  let types ← Catalog.columnTypes table
  let checked ← ofExcept (checkFields table types fields)
  let indexed ← Catalog.indexedColumns table
  let id ← nextRowId table
  checked.toList.forM fun (column, value) => do
    let _ ← hset (Key.row table id).text column value
  let _ ← sadd (Key.rows table).text (toString id)
  checked.toList.forM fun (column, value) => do
    if indexed.contains column then
      let _ ← sadd (Key.index table column value).text (toString id)
  return id

/-- The row of a number, if it has any fields. -/
def fetch (table : TableName) (id : RowId) : StoreM (Option Row) := do
  let fields ← hgetall (Key.row table id).text
  return if fields.isEmpty then none else some (Row.ofFields id fields.toList)

/-- Removes a row from the indexes of the given columns, one after another. -/
def unindexRow (table : TableName) (id : RowId) (columns : List String) : StoreM Unit :=
  columns.forM fun column => do
    if let some value ← hget (Key.row table id).text column then
      let _ ← srem (Key.index table column value).text (toString id)

/-- Removes a row from the indexes of the given columns, then its fields, then its number. -/
def deleteFrom (table : TableName) (id : RowId) (indexed : List String) : StoreM Unit := do
  unindexRow table id indexed
  let _ ← del (Key.row table id).text
  let _ ← srem (Key.rows table).text (toString id)

/-- Deletes a row; it leaves its indexes in the order given. -/
def deleteRowBy (order : Enumeration String) (table : TableName) (id : RowId) : StoreM Unit := do
  deleteFrom table id (order.list (← Catalog.indexedColumns table))

/-- The same in ascending order. -/
def deleteRow : TableName → RowId → StoreM Unit := deleteRowBy .ascending

/-- The rows of a list that have fields. -/
def fetchAll (table : TableName) : List RowId → StoreM (List Row)
  | [] => return []
  | id :: rest => do
      let row ← fetch table id
      return row.toList ++ (← fetchAll table rest)

/-- The rows that a clause selects, all without one, in ascending order. -/
def selectBy (order : Enumeration RowId) (limit : Nat) (table : TableName)
    (w : Option WhereClause) : StoreM (List Row) := do
  fetchAll table (← Query.rowsBy order limit table w)

/-- Sets one field of a row. -/
def assign (table : TableName) (indexed : OrderedSet String) (id : RowId)
    (field : String × String) : StoreM Unit := do
  let (column, value) := field
  let old ← hget (Key.row table id).text column
  let _ ← hset (Key.row table id).text column value
  if indexed.contains column then moveIndexed table column old value id

/-- Sets fields of every row of a list that is still there, and counts these rows. -/
def assignAll (table : TableName) (indexed : OrderedSet String) (fields : List (String × String)) :
    List RowId → StoreM Nat
  | [] => return 0
  | id :: rest => do
      if (← keyType (Key.row table id).text) = .absent then
        assignAll table indexed fields rest
      else
        fields.forM (assign table indexed id)
        return (← assignAll table indexed fields rest) + 1

/-- Sets fields of every row that a clause selects, and counts these rows. The rows are selected
before the first is changed. -/
def updateBy (order : Enumeration RowId) (limit : Nat) (table : TableName)
    (w : Option WhereClause) (fields : List (String × String)) : StoreM Nat := do
  Catalog.ensureTable table
  if fields.isEmpty then throw (.badSyntax .missingSet)
  let types ← Catalog.columnTypes table
  let checked ← ofExcept (checkFields table types fields)
  let indexed ← Catalog.indexedColumns table
  let ids ← Query.rowsBy order limit table w
  assignAll table indexed checked.toList ids

/-- Deletes every row that a clause selects, and counts them. -/
def deleteBy (orders : Orders) (limit : Nat) (table : TableName) (w : Option WhereClause) :
    StoreM Nat := do
  let ids ← Query.rowsBy orders.rows limit table w
  ids.forM fun id => deleteRowBy (orders.columns id) table id
  return ids.length

/-! ### In ascending order -/

def select : Nat → TableName → Option WhereClause → StoreM (List Row) := selectBy .ascending

def update : Nat → TableName → Option WhereClause → List (String × String) → StoreM Nat :=
  updateBy .ascending

def delete : Nat → TableName → Option WhereClause → StoreM Nat := deleteBy .ascending

end Engine

end Tabular
