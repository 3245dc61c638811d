import Tabular.Error

/-!
Columns of a table and the specifications `name:type[:index]` that define them.
-/

namespace Tabular

/-- The index asked for. There is one kind of index, with two names. -/
inductive IndexKind
  | hash
  | btree
  | none
  deriving DecidableEq, Repr

namespace IndexKind

def isIndexed : IndexKind → Bool
  | hash | btree => true
  | none => false

/-- The names of the kinds, the yes and no of older specifications among them. -/
def names : List (String × IndexKind) :=
  [("hash", hash), ("btree", btree), ("none", none), ("true", hash), ("false", none)]

/-- The kind of a name; the case of ASCII letters does not matter. -/
def parse (s : String) : Except SyntaxError IndexKind :=
  match names.lookup s.toLower with
  | some kind => .ok kind
  | Option.none => .error .indexKind

end IndexKind

/-- A column: its name, the type of its values and whether equality on it is indexed. -/
structure Column where
  name : String
  type : ColumnType
  indexed : Bool
  deriving DecidableEq, Repr

/-- The column that a specification `name:type[:index]` defines. The name is all that comes before
the first colon. -/
def Column.parse (spec : String) : Except SyntaxError Column := do
  let some (name, rest) := Text.cut? ':' spec | throw (.columnSpec spec)
  if name = "" then throw (.columnSpec spec)
  let (typeName, index) := match Text.cut? ':' rest with
    | some (typeName, index) => (typeName, some index)
    | none => (rest, none)
  let some type := ColumnType.ofName? typeName | throw (.columnType typeName)
  let kind ← match index with
    | some index => IndexKind.parse index
    | none => pure IndexKind.none
  return ⟨name, type, kind.isIndexed⟩

/-- The columns of a table, sorted by name. -/
structure Schema where
  table : TableName
  columns : List Column
  deriving DecidableEq, Repr

namespace Schema

/-- A schema of columns in any order; columns of one name keep theirs. -/
def ofColumns (table : TableName) (columns : List Column) : Schema :=
  ⟨table, columns.mergeSort fun a b => a.name ≤ b.name⟩

def column? (schema : Schema) (name : String) : Option Column :=
  schema.columns.find? fun c => c.name = name

end Schema

end Tabular
