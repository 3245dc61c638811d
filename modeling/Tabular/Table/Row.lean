import Tabular.OrderedMap
import Tabular.Text.Basic

/-!
Rows and the numbers that identify them. Row numbers are kept in the store as text; a member that
denotes no 64-bit number identifies no row.
-/

namespace Tabular

/-- The number of a row within its table, counted from one. -/
abbrev RowId := Nat

/-- A set of rows of one table. -/
abbrev RowSet := OrderedSet RowId

/-- The rows that a stored set identifies. -/
def RowSet.ofStored (stored : OrderedSet String) : RowSet :=
  OrderedSet.ofMembers (stored.members.filterMap Text.nat64?)

/-- A row: its number and its fields, sorted by column. -/
structure Row where
  id : RowId
  fields : List (String × String)
  deriving DecidableEq, Repr

namespace Row

/-- A row of fields in any order. -/
def ofFields (id : RowId) (fields : List (String × String)) : Row :=
  ⟨id, fields.mergeSort fun a b => a.1 < b.1 || a.1 = b.1 && a.2 ≤ b.2⟩

def get? (row : Row) (column : String) : Option String :=
  (row.fields.find? fun field => field.1 = column).map (·.2)

/-- Columns and values in turn. -/
def flatten (row : Row) : List String := row.fields.flatMap fun field => [field.1, field.2]

end Row

end Tabular
