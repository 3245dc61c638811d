import Tabular.Proofs.Table

/-!
What commands on a table mean, said of the table and not of its keys. A clause is evaluated from
left to right over all rows, which comes to evaluating it on each row (`mem_meaning`); an index is
consulted only for the question which of two comparisons answers an equality, and the limit on a
filter is a condition on the numbers of candidates that the filters of the clause meet. A command
either fails or gives a reply and the table after it.
-/

namespace Tabular

namespace Table

/-! ### Queries -/

/-- Whether a row has the column of a condition, with a value that satisfies it under the type that
the column is declared with. -/
def satisfies (tb : Table) (c : Condition) (id : RowId) : Bool :=
  match tb.columns.get? c.column, tb.cell id c.column with
  | some type, some stored => c.accepts type stored
  | _, _ => false

/-- Whether an index answers a condition. -/
def Serves (tb : Table) (c : Condition) : Prop := c.op = .eq ∧ c.column ∈ tb.indexed

instance (tb : Table) (c : Condition) : Decidable (tb.Serves c) :=
  inferInstanceAs (Decidable (_ ∧ _))

/-- The rows that a condition finds on its own. What an index answers is equality of texts. -/
def fullMatch (tb : Table) (c : Condition) : RowSet :=
  if tb.Serves c then tb.holding c.column c.value
  else OrderedMap.filter (tb.satisfies c) tb.ids

/-- The candidates after one more condition. -/
def advance (tb : Table) (found : RowSet) : Connective × Condition → RowSet
  | (.and, c) => OrderedMap.filter (tb.satisfies c) found
  | (.or, c) => OrderedSet.union found (tb.fullMatch c)

/-- The rows that a clause means; without one, all. -/
def meaning (tb : Table) : Option WhereClause → RowSet
  | none => tb.ids
  | some w => w.rest.foldl tb.advance (tb.fullMatch w.first)

/-- The numbers of candidates that the filters of a condition on its own meet: all rows, unless an
index answers it. -/
def ownPasses (tb : Table) (c : Condition) : List Nat := if tb.Serves c then [] else [tb.ids.size]

/-- The same for a condition that is joined to those before it. -/
def stepPasses (tb : Table) (found : RowSet) : Connective × Condition → List Nat
  | (.and, _) => [found.size]
  | (.or, c) => tb.ownPasses c

def restPasses (tb : Table) : RowSet → List (Connective × Condition) → List Nat
  | _, [] => []
  | found, c :: rest => tb.stepPasses found c ++ tb.restPasses (tb.advance found c) rest

/-- The numbers of candidates that the filters of a clause meet. -/
def passes (tb : Table) : Option WhereClause → List Nat
  | none => []
  | some w => tb.ownPasses w.first ++ tb.restPasses (tb.fullMatch w.first) w.rest

/-- A row of the table with all its fields, sorted by column. -/
def row (tb : Table) (id : RowId) : Row := ⟨id, (tb.fields id).toList⟩

/-- The columns as a schema shows them. -/
def schema (tb : Table) (t : TableName) : Schema :=
  Schema.ofColumns t (tb.columns.toList.map fun (name, type) =>
    ⟨name, type, tb.indexed.contains name⟩)

/-! ### Clauses row by row -/

section
variable {tb : Table} {c : Condition} {id : RowId}

/-- Whether a condition on its own finds a row. -/
def finds (tb : Table) (c : Condition) (id : RowId) : Bool :=
  if tb.Serves c then tb.cell id c.column = some c.value else tb.satisfies c id

/-- What one more condition makes of whether a row has been found. -/
def join (tb : Table) (id : RowId) (found : Bool) : Connective × Condition → Bool
  | (.and, c) => found && tb.satisfies c id
  | (.or, c) => found || tb.finds c id

/-- Whether a clause, evaluated from left to right on one row, holds of it. -/
def holds (tb : Table) (id : RowId) : Option WhereClause → Bool
  | none => true
  | some w => w.rest.foldl (tb.join id) (tb.finds w.first id)

theorem satisfies_of_cell_eq_none (h : tb.cell id c.column = none) : tb.satisfies c id = false := by
  rw [satisfies, h]
  cases tb.columns.get? c.column <;> rfl

theorem mem_fullMatch : id ∈ tb.fullMatch c ↔ id ∈ tb.ids ∧ tb.finds c id = true := by
  unfold fullMatch finds
  by_cases hs : tb.Serves c
  · rw [if_pos hs, if_pos hs, mem_holding, decide_eq_true_iff]
    exact (and_iff_right_of_imp fun hcell => mem_ids.mpr (mem_rows_of_cell hcell)).symm
  · rw [if_neg hs, if_neg hs, OrderedMap.mem_filter]

/-- The rows that a clause means are those it holds of. -/
theorem mem_meaning {w : Option WhereClause} :
    id ∈ tb.meaning w ↔ id ∈ tb.ids ∧ tb.holds id w = true := by
  have hfold : ∀ (rest : List (Connective × Condition)) (found : RowSet) (b : Bool),
      (id ∈ found ↔ id ∈ tb.ids ∧ b = true) →
      (id ∈ rest.foldl tb.advance found ↔ id ∈ tb.ids ∧ rest.foldl (tb.join id) b = true) := by
    intro rest
    induction rest with
    | nil => exact fun _ _ h => h
    | cons c rest ih =>
        intro found b h
        apply ih
        obtain ⟨connective, c⟩ := c
        cases connective with
        | and =>
            show id ∈ OrderedMap.filter (tb.satisfies c) found ↔ _ ∧ (b && tb.satisfies c id) = true
            rw [OrderedMap.mem_filter, h, Bool.and_eq_true, and_assoc]
        | or =>
            show id ∈ OrderedSet.union found (tb.fullMatch c) ↔ _ ∧ (b || tb.finds c id) = true
            rw [OrderedSet.mem_union, h, mem_fullMatch, Bool.or_eq_true, and_or_left]
  cases w with
  | none => exact (and_iff_left rfl).symm
  | some w => exact hfold w.rest _ _ mem_fullMatch

end

end Table

/-! ### Commands -/

namespace Reference

/-- Fails if the table is not there. -/
def ensure (t : TableName) (tb : Table) : Except Error Unit :=
  if tb.columns.isEmpty then .error (.tableNotFound t) else .ok ()

/-- The type of a column. -/
def columnType (t : TableName) (tb : Table) (column : String) : Except Error ColumnType :=
  match tb.columns.get? column with
  | some type => .ok type
  | none => .error (.columnNotFound column t)

/-- The plan of a query. -/
def plan (t : TableName) (tb : Table) (w : Option WhereClause) : Except Error Plan := do
  ensure t tb
  match w with
  | none => .ok [.seed .all]
  | some w => Plan.ofClause t tb.columns tb.indexed w

/-- A result that filters come to, unless one of them meets more than `limit` candidates. -/
def within {α : Type} (limit : Nat) (passes : List Nat) (a : α) : Except Error α :=
  if ∀ n ∈ passes, n ≤ limit then .ok a else .error (.scanLimitExceeded limit)

/-- The rows of a query in ascending order. -/
def rows (limit : Nat) (t : TableName) (tb : Table) (w : Option WhereClause) :
    Except Error (List RowId) := do
  let _ ← plan t tb w
  within limit (tb.passes w) (tb.meaning w).members

def select (limit : Nat) (t : TableName) (tb : Table) (w : Option WhereClause) :
    Except Error (List Row) := do
  return (← rows limit t tb w).map tb.row

def describe (t : TableName) (tb : Table) : Except Error Schema := do
  ensure t tb
  return tb.schema t

/-- Creates a table in a namespace that is there or not. -/
def createTable (known : Bool) (t : TableName) (tb : Table) (columns : List Column) :
    Except Error (Unit × Table) := do
  t.check
  unless known do throw (.namespaceNotFound t.ns)
  unless tb.columns.isEmpty do throw (.tableExists t)
  if columns.isEmpty then throw (.badSyntax .tableWithoutColumns)
  return ((), .create columns)

def addColumn (t : TableName) (tb : Table) (column : Column) : Except Error (Unit × Table) := do
  ensure t tb
  if column.name ∈ tb.columns then throw (.columnExists column.name t)
  return ((), tb.define column)

/-- Gives an index to a column, and the number of rows that have the column. -/
def addIndex (t : TableName) (tb : Table) (column : String) : Except Error (Nat × Table) := do
  ensure t tb
  let _ ← columnType t tb column
  return ((tb.ids.members.filter fun id => (tb.cell id column).isSome).length,
    tb.addIndex column)

/-- Takes the index from a column, and gives the number of its keys: one for each value. -/
def dropIndex (t : TableName) (tb : Table) (column : String) :
    Except Error ((Engine.IndexRemoval × Nat) × Table) := do
  ensure t tb
  let _ ← columnType t tb column
  return ((.removed, if column ∈ tb.indexed then (tb.values column).size else 0),
    tb.dropIndex column)

/-- Appends a row and gives its number. There is no row after the greatest 64-bit number. -/
def insert (t : TableName) (tb : Table) (fields : List (String × String)) :
    Except Error (RowId × Table) := do
  ensure t tb
  if fields.isEmpty then throw (.badSyntax .rowWithoutFields)
  let checked ← Engine.checkFields t tb.columns fields
  if (tb.last : Int) < Text.maxInt64 then return (tb.last + 1, tb.append checked)
  else throw (.store (.overflow (Key.counter t).text))

/-- Sets fields of all rows of a query, and gives their number. -/
def update (limit : Nat) (t : TableName) (tb : Table) (w : Option WhereClause)
    (fields : List (String × String)) : Except Error (Nat × Table) := do
  ensure t tb
  if fields.isEmpty then throw (.badSyntax .missingSet)
  let checked ← Engine.checkFields t tb.columns fields
  let ids ← rows limit t tb w
  return (ids.length, tb.assign ids checked)

/-- Deletes all rows of a query, and gives their number. -/
def delete (limit : Nat) (t : TableName) (tb : Table) (w : Option WhereClause) :
    Except Error (Nat × Table) := do
  let ids ← rows limit t tb w
  return (ids.length, tb.delete ids)

def dropTable (t : TableName) (tb : Table) : Except Error (Unit × Table) := do
  ensure t tb
  return ((), ∅)

/-- A command on a table: its reply and the table after it. -/
def run (config : Config) (known : Bool) (t : TableName) (tb : Table) :
    Command → Except Error (Reply × Table)
  | .viewSchema _ => return (.array ((← describe t tb).columns.map Column.reply), tb)
  | .createTable _ columns => return (.ok, (← createTable known t tb columns).2)
  | .addColumn _ column => return (.ok, (← addColumn t tb column).2)
  | .addIndex _ column => return (.ok, (← addIndex t tb column).2)
  | .dropIndex _ column => return (.ok, (← dropIndex t tb column).2)
  | .insert _ fields => do
      let (id, tb) ← insert t tb fields
      return (.bulk (toString id), tb)
  | .select _ w => do
      let rows ← select config.maxRowsScan t tb w
      return (.array (rows.map fun row => .strings row.flatten), tb)
  | .update _ w fields => do
      let (count, tb) ← update config.maxRowsScan t tb w fields
      return (.integer count, tb)
  | .delete _ w => do
      let (count, tb) ← delete config.maxRowsScan t tb w
      return (.integer count, tb)
  | .dropTable _ => return (.ok, (← dropTable t tb).2)
  | _ => return (.strings helpLines, tb)

end Reference

end Tabular
