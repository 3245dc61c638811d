import Tabular.Catalog.Basic
import Tabular.Query.Where

/-!
Plans of queries. The first condition of a clause seeds a set of candidate rows, so an equality
there needs an index. Each AND narrows the candidates by a filter, each OR adds rows found anew.
-/

namespace Tabular

/-- How a set of rows is found from scratch. -/
inductive Access
  /-- All rows of the table. -/
  | all
  /-- The rows under one value of an index. -/
  | lookup (column value : String)
  /-- All rows that pass a filter. -/
  | scan (condition : Condition) (type : ColumnType)
  deriving DecidableEq, Repr

inductive Step
  /-- The first candidates. -/
  | seed (access : Access)
  /-- Only candidates that pass a filter stay. -/
  | narrow (condition : Condition) (type : ColumnType)
  /-- More candidates. -/
  | union (access : Access)
  deriving DecidableEq, Repr

abbrev Plan := List Step

/-- The index serves equality, and only on indexed columns. -/
def Access.ofCondition (indexed : OrderedSet String) (c : Condition) (type : ColumnType) : Access :=
  if c.op = .eq ∧ indexed.contains c.column then .lookup c.column c.value else .scan c type

/-- The type of the column that a condition is about, which its value must be of. -/
def Condition.resolve (table : TableName) (types : OrderedMap String ColumnType) (c : Condition) :
    Except Error ColumnType := do
  let some type := types.get? c.column | throw (.columnNotFound c.column table)
  type.check c.column c.value
  return type

namespace Plan

/-- The step of a condition after the first. -/
def stepOf (table : TableName) (types : OrderedMap String ColumnType)
    (indexed : OrderedSet String) : Connective × Condition → Except Error Step
  | (.and, c) => return .narrow c (← c.resolve table types)
  | (.or, c) => return .union (.ofCondition indexed c (← c.resolve table types))

/-- The plan of a clause over columns of the given types. -/
def ofClause (table : TableName) (types : OrderedMap String ColumnType)
    (indexed : OrderedSet String) (w : WhereClause) : Except Error Plan := do
  let type ← w.first.resolve table types
  if w.first.op = .eq ∧ !indexed.contains w.first.column then
    throw (.nonIndexedEquality w.first.column)
  let rest ← w.rest.mapM (stepOf table types indexed)
  return .seed (.ofCondition indexed w.first type) :: rest

/-- The plan of a query on a table as the store describes it. -/
def ofQuery (table : TableName) : Option WhereClause → StoreM Plan
  | none => do
      Catalog.ensureTable table
      return [.seed .all]
  | some w => do
      Catalog.ensureTable table
      let types ← Catalog.columnTypes table
      let indexed ← Catalog.indexedColumns table
      ofExcept (ofClause table types indexed w)

end Plan

end Tabular
