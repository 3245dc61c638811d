import Tabular.Query.Execute

/-!
Equality indexes: for each value of an indexed column, the set of rows that hold it.
-/

namespace Tabular.Engine

open StoreM

/-- How far the removal of an index has come. Queries leave the index aside from the moment its
column is unmarked, while its keys may still be there. -/
inductive IndexRemoval
  | indexed
  | unmarked
  | removed
  deriving DecidableEq, Repr

/-- Moves a row from the index set of its old value to that of its new value. -/
def moveIndexed (table : TableName) (column : String) (old : Option String) (new : String)
    (id : RowId) : StoreM Unit := do
  unless old = some new do
    if let some old := old then
      let _ ← srem (Key.index table column old).text (toString id)
    let _ ← sadd (Key.index table column new).text (toString id)

/-- The same for a column that may have no index. -/
def moveIfIndexed (table : TableName) (column : String) (old : Option String) (new : String)
    (id : RowId) : StoreM Unit := do
  if ← Catalog.isIndexed table column then moveIndexed table column old new id

/-- Enters rows into the index of a column in the order given, and counts those that have the
column. -/
def indexRows (table : TableName) (column : String) : List RowId → StoreM Nat
  | [] => return 0
  | id :: rest => do
      match ← hget (Key.row table id).text column with
      | some value => do
          let _ ← sadd (Key.index table column value).text (toString id)
          return (← indexRows table column rest) + 1
      | none => indexRows table column rest

/-- Marks a column as indexed and builds its index from the rows, in the order given. Gives the
number of rows entered. -/
def addIndexBy (order : Enumeration RowId) (table : TableName) (column : String) : StoreM Nat := do
  Catalog.ensureTable table
  let _ ← Catalog.columnType table column
  let _ ← sadd (Key.indexed table).text column
  indexRows table column (order.list (← Query.allRows table))

/-- The same in ascending order. -/
def addIndex : TableName → String → StoreM Nat := addIndexBy .ascending

/-- Unmarks a column and deletes the keys of its index. Gives their number. -/
def dropIndex (table : TableName) (column : String) (pageSize : Nat) :
    StoreM (IndexRemoval × Nat) := do
  Catalog.ensureTable table
  let _ ← Catalog.columnType table column
  let _ ← srem (Key.indexed table).text column
  let count ← delMatching (table.indexPattern column) pageSize
  return (.removed, count)

end Tabular.Engine
