import Tabular.Store.Walk
import Tabular.Table.Column
import Tabular.Table.Key

/-!
Namespaces and table schemas. All that is known of them is in the store: a namespace exists if its
marker is a text, a table if its schema is a hash.
-/

namespace Tabular.Catalog

open StoreM

def namespaceExists (ns : String) : StoreM Bool := return (← keyType (Key.marker ns).text) = .text

def tableExists (table : TableName) : StoreM Bool :=
  return (← keyType (Key.schema table).text) = .hash

/-- Fails unless the table exists. -/
def ensureTable (table : TableName) : StoreM Unit := do
  unless ← tableExists table do throw (.tableNotFound table)

/-- Fails unless a text may be the name of a namespace. -/
def checkNamespace (ns : String) : Except Error Unit :=
  match nameFault? ns with
  | some fault => .error (.invalidName .ns ns fault)
  | none =>
      if ns = "" ∨ '.' ∈ ns.toList then .error (.invalidName .ns ns .emptyOrDotted) else .ok ()

def createNamespace (ns : String) : StoreM Unit := do
  ofExcept (checkNamespace ns)
  if (← keyType (Key.marker ns).text) ≠ .absent then throw (.namespaceExists ns)
  set (Key.marker ns).text "1"

/-- Records the type of a column and, if it asks for one, its index. -/
def defineColumn (table : TableName) (column : Column) : StoreM Unit := do
  let _ ← hset (Key.schema table).text column.name column.type.name
  if column.indexed then
    let _ ← sadd (Key.indexed table).text column.name

/-- Creates a table. Of two columns of one name the later gives the type, and either may ask for
the index. -/
def createTable (table : TableName) (columns : List Column) : StoreM Unit := do
  ofExcept table.check
  unless ← namespaceExists table.ns do throw (.namespaceNotFound table.ns)
  if (← keyType (Key.schema table).text) ≠ .absent then throw (.tableExists table)
  if columns.isEmpty then throw (.badSyntax .tableWithoutColumns)
  columns.forM (defineColumn table)

/-- Adds a column to a table. Rows that there are lack it, so an index on it starts empty. -/
def addColumn (table : TableName) (column : Column) : StoreM Unit := do
  ensureTable table
  if (← hget (Key.schema table).text column.name).isSome then
    throw (.columnExists column.name table)
  defineColumn table column

/-- The type of a column. -/
def columnType (table : TableName) (column : String) : StoreM ColumnType := do
  match ← hget (Key.schema table).text column with
  | some type => return ColumnType.ofStored type
  | none => throw (.columnNotFound column table)

/-- The types of all columns. -/
def columnTypes (table : TableName) : StoreM (OrderedMap String ColumnType) :=
  return (← hgetall (Key.schema table).text).mapValues ColumnType.ofStored

/-- The names of the columns with an index. -/
def indexedColumns (table : TableName) : StoreM (OrderedSet String) :=
  smembers (Key.indexed table).text

def isIndexed (table : TableName) (column : String) : StoreM Bool :=
  sismember (Key.indexed table).text column

/-- The columns of a table with their types and indexes. -/
def describe (table : TableName) : StoreM Schema := do
  ensureTable table
  let indexed ← indexedColumns table
  let types ← columnTypes table
  return Schema.ofColumns table <|
    types.toList.map fun (name, type) => ⟨name, type, indexed.contains name⟩

/-- All tables, or those of one namespace, in alphabetical order. A store may give a key on more
than one page, so repeats are left out. -/
def listTables (ns : Option String) (pageSize : Nat) : StoreM (List TableName) := do
  let pattern := ns.elim TableName.anySchemaPattern TableName.namespacePattern
  let keys ← matchingKeys pattern pageSize
  let tables := (keys.filterMap Key.schemaTable?).filter fun t => ns.all (t.ns = ·)
  return (tables.mergeSort TableName.le).eraseReps

/-- Removes a table with its rows and indexes. The schema goes last, so that an interrupted
removal can be repeated. -/
def dropTable (table : TableName) (pageSize : Nat) : StoreM Unit := do
  ensureTable table
  let _ ← delMatching table.keyPattern pageSize
  let _ ← del (Key.schema table).text

end Tabular.Catalog
