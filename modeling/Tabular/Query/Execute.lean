import Tabular.Query.Plan

/-!
Running plans. A filter looks at every candidate; it may look at no more than a given number of
them, and the query fails if there are more. The order in which it looks at them is a parameter.
-/

namespace Tabular.Query

open StoreM

/-- All rows of a table. -/
def allRows (table : TableName) : StoreM RowSet :=
  return RowSet.ofStored (← smembers (Key.rows table).text)

/-- The rows under one value of an index. -/
def lookupRows (table : TableName) (column value : String) : StoreM RowSet :=
  return RowSet.ofStored (← smembers (Key.index table column value).text)

/-- Those of a list of rows that satisfy a condition, looked at in the order of the list. Fails
when more than `budget` rows are left to look at. A row without the column does not satisfy it. -/
def satisfying (limit : Nat) (table : TableName) (c : Condition) (type : ColumnType) :
    Nat → List RowId → StoreM (List RowId)
  | _, [] => return []
  | 0, _ :: _ => throw (.scanLimitExceeded limit)
  | budget + 1, id :: rest => do
      let stored ← hget (Key.row table id).text c.column
      let kept ← satisfying limit table c type budget rest
      return if stored.any (c.accepts type) then id :: kept else kept

section
variable (order : Enumeration RowId)

/-- The rows of a set that satisfy a condition, looked at in the order given. -/
def filterRowsBy (limit : Nat) (table : TableName) (c : Condition) (type : ColumnType)
    (rows : RowSet) : StoreM RowSet :=
  return OrderedSet.ofMembers (← satisfying limit table c type limit (order.list rows))

/-- The rows that an access finds. -/
def accessBy (limit : Nat) (table : TableName) : Access → StoreM RowSet
  | .all => allRows table
  | .lookup column value => lookupRows table column value
  | .scan c type => do filterRowsBy order limit table c type (← allRows table)

/-- The candidates after one more step. -/
def stepBy (limit : Nat) (table : TableName) (rows : RowSet) : Step → StoreM RowSet
  | .seed a => accessBy order limit table a
  | .narrow c type => filterRowsBy order limit table c type rows
  | .union a => return OrderedSet.union rows (← accessBy order limit table a)

/-- The rows that a plan finds. -/
def runBy (limit : Nat) (table : TableName) (plan : Plan) : StoreM RowSet :=
  plan.foldlM (stepBy order limit table) ∅

/-- The rows of a query, in ascending order, whatever the order of the filters. -/
def rowsBy (limit : Nat) (table : TableName) (w : Option WhereClause) : StoreM (List RowId) := do
  let plan ← Plan.ofQuery table w
  return (← runBy order limit table plan).members

end

/-! ### In ascending order -/

def filterRows : Nat → TableName → Condition → ColumnType → RowSet → StoreM RowSet :=
  filterRowsBy .ascending

def run : Nat → TableName → Plan → StoreM RowSet := runBy .ascending

def rows : Nat → TableName → Option WhereClause → StoreM (List RowId) := rowsBy .ascending

end Tabular.Query
