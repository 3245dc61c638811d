import Mathlib.Data.List.Basic
import Tabular.Command.Run
import Tabular.Proofs.Numeral
import Tabular.Proofs.OrderedMap

/-!
Tables without their keys: columns, indexed columns, the number of the last row and the rows. What
a command does to a table is a function here, and an index is no part of a table but a view of its
rows, `holding`. `Valid` is what all these functions preserve.
-/

namespace Tabular

/-- The texts by which a store knows the rows of a set. -/
def RowSet.texts (ids : RowSet) : OrderedSet String :=
  OrderedSet.ofMembers (ids.members.map toString)

namespace RowSet

variable {ids : RowSet} {id : RowId}

theorem mem_texts {x : String} : x ∈ ids.texts ↔ ∃ id ∈ ids, toString id = x := by
  rw [texts, OrderedSet.mem_ofMembers, List.mem_map]
  simp only [OrderedSet.mem_members]

@[simp] theorem toString_mem_texts : toString id ∈ ids.texts ↔ id ∈ ids := by
  rw [mem_texts]
  constructor
  · rintro ⟨id', hid', heq⟩
    rwa [← Text.toString_injective heq]
  · exact fun hid => ⟨id, hid, rfl⟩

@[simp] theorem texts_empty : texts ∅ = ∅ := rfl

theorem texts_add : texts (OrderedSet.add ids id) = OrderedSet.add ids.texts (toString id) := by
  apply OrderedSet.ext_mem
  intro x
  simp only [mem_texts, OrderedSet.mem_add]
  constructor
  · rintro ⟨id', rfl | hid', rfl⟩
    · exact Or.inl rfl
    · exact Or.inr ⟨id', hid', rfl⟩
  · rintro (rfl | ⟨id', hid', rfl⟩)
    · exact ⟨id, Or.inl rfl, rfl⟩
    · exact ⟨id', Or.inr hid', rfl⟩

theorem texts_erase : texts (OrderedMap.erase ids id) = ids.texts.erase (toString id) := by
  apply OrderedSet.ext_mem
  intro x
  simp only [mem_texts, OrderedMap.mem_erase]
  constructor
  · rintro ⟨id', ⟨hne, hid'⟩, rfl⟩
    exact ⟨fun heq => hne (Text.toString_injective heq), id', hid', rfl⟩
  · rintro ⟨hne, id', hid', rfl⟩
    exact ⟨id', ⟨fun heq => hne (by rw [heq]), hid'⟩, rfl⟩

/-- Numbers of at most 64 bits are read back from their texts. -/
theorem ofStored_texts (h : ∀ id ∈ ids, id ≤ Text.maxNat64) : ofStored ids.texts = ids := by
  apply OrderedSet.ext_mem
  intro id
  rw [ofStored, OrderedSet.mem_ofMembers, List.mem_filterMap]
  constructor
  · rintro ⟨x, hx, hread⟩
    obtain ⟨id', hid', rfl⟩ := mem_texts.mp (OrderedSet.mem_members.mp hx)
    rw [Text.nat64?_toString (h id' hid')] at hread
    exact Option.some.inj hread ▸ hid'
  · intro hid
    exact ⟨toString id, toString_mem_texts.mpr hid, Text.nat64?_toString (h id hid)⟩

end RowSet

structure Table where
  columns : OrderedMap String ColumnType
  indexed : OrderedSet String
  /-- The number of the last row. -/
  last : Nat
  rows : OrderedMap RowId (OrderedMap String String)
  deriving DecidableEq

namespace Table

/-- The table that is not there. -/
instance : EmptyCollection Table := ⟨⟨∅, ∅, 0, ∅⟩⟩

/-- The numbers of the rows. -/
def ids (tb : Table) : RowSet := tb.rows.mapValues fun _ => ()

/-- The fields of a row; a row that is not there has none. -/
def fields (tb : Table) (id : RowId) : OrderedMap String String := (tb.rows.get? id).getD ∅

/-- The value of a row in a column. -/
def cell (tb : Table) (id : RowId) (column : String) : Option String :=
  (tb.fields id).get? column

/-- The rows that hold a value in a column. -/
def holding (tb : Table) (column value : String) : RowSet :=
  OrderedMap.filter (fun id => tb.cell id column = some value) tb.ids

/-- The values that rows hold in a column. -/
def values (tb : Table) (column : String) : OrderedSet String :=
  OrderedSet.ofMembers (tb.ids.members.filterMap fun id => tb.cell id column)

/-! ### Changes -/

def define (tb : Table) (column : Column) : Table :=
  { tb with
    columns := tb.columns.insert column.name column.type
    indexed := if column.indexed then OrderedSet.add tb.indexed column.name else tb.indexed }

/-- A new table. -/
def create (columns : List Column) : Table := columns.foldl define ∅

def addIndex (tb : Table) (column : String) : Table :=
  { tb with indexed := OrderedSet.add tb.indexed column }

def dropIndex (tb : Table) (column : String) : Table :=
  { tb with indexed := tb.indexed.erase column }

/-- Appends a row. -/
def append (tb : Table) (fields : OrderedMap String String) : Table :=
  { tb with last := tb.last + 1, rows := tb.rows.insert (tb.last + 1) fields }

/-- Sets one field of a row that is there. -/
def setField (tb : Table) (id : RowId) (field : String × String) : Table :=
  { tb with rows := tb.rows.mapWithKey fun id' fields =>
      if id' = id then fields.insert field.1 field.2 else fields }

/-- Sets fields of those rows of a list that are there. -/
def assign (tb : Table) (ids : List RowId) (new : OrderedMap String String) : Table :=
  { tb with rows := tb.rows.mapWithKey fun id fields =>
      if id ∈ ids then fields.extend new else fields }

def deleteRow (tb : Table) (id : RowId) : Table := { tb with rows := tb.rows.erase id }

/-- Deletes the rows of a list. -/
def delete (tb : Table) (ids : List RowId) : Table :=
  { tb with rows := OrderedMap.filter (fun id => id ∉ ids) tb.rows }

/-! ### What the changes do to rows -/

section
variable {tb : Table} {id : RowId} {column value : String}

@[simp] theorem mem_ids : id ∈ tb.ids ↔ id ∈ tb.rows := OrderedMap.mem_mapValues

theorem fields_of_notMem (h : id ∉ tb.rows) : tb.fields id = ∅ := by
  rw [fields, OrderedMap.get?_eq_none_iff.mpr h, Option.getD_none]

theorem mem_rows_of_cell (h : tb.cell id column = some value) : id ∈ tb.rows := by
  apply Decidable.byContradiction
  intro hid
  rw [cell, fields_of_notMem hid, OrderedMap.get?_empty] at h
  cases h

@[simp] theorem mem_holding : id ∈ tb.holding column value ↔ tb.cell id column = some value := by
  rw [holding, OrderedMap.mem_filter, mem_ids, decide_eq_true_iff]
  exact and_iff_right_of_imp mem_rows_of_cell

theorem mem_values : value ∈ tb.values column ↔ ∃ id, tb.cell id column = some value := by
  rw [values, OrderedSet.mem_ofMembers, List.mem_filterMap]
  constructor
  · exact fun ⟨id, _, hcell⟩ => ⟨id, hcell⟩
  · exact fun ⟨id, hcell⟩ => ⟨id, mem_ids.mpr (mem_rows_of_cell hcell), hcell⟩

theorem fields_append (new : OrderedMap String String) (id' : RowId) :
    (tb.append new).fields id' = if id' = tb.last + 1 then new else tb.fields id' := by
  by_cases h : id' = tb.last + 1 <;> simp [fields, append, h]

theorem fields_setField (h : id ∈ tb.rows) (field : String × String) (id' : RowId) :
    (tb.setField id field).fields id' =
      if id' = id then (tb.fields id).insert field.1 field.2 else tb.fields id' := by
  obtain ⟨old, hold⟩ := Option.isSome_iff_exists.mp (OrderedMap.mem_iff_isSome.mp h)
  by_cases hid : id' = id
  · subst hid
    simp [fields, setField, hold]
  · simp [fields, setField, hid]

theorem fields_assign {ids : List RowId} (new : OrderedMap String String) (id : RowId) :
    (tb.assign ids new).fields id =
      if id ∈ ids ∧ id ∈ tb.rows then (tb.fields id).extend new else tb.fields id := by
  by_cases hrow : id ∈ tb.rows
  · obtain ⟨old, hold⟩ := Option.isSome_iff_exists.mp (OrderedMap.mem_iff_isSome.mp hrow)
    by_cases hid : id ∈ ids <;> simp [fields, assign, hold, hid, hrow]
  · have hnone := OrderedMap.get?_eq_none_iff.mpr hrow
    simp [fields, assign, hnone, hrow]

theorem fields_deleteRow (id' : RowId) :
    (tb.deleteRow id).fields id' = if id' = id then ∅ else tb.fields id' := by
  by_cases h : id' = id <;> simp [fields, deleteRow, h]

theorem cell_setField (h : id ∈ tb.rows) (field : String × String) (id' : RowId) (column : String) :
    (tb.setField id field).cell id' column =
      if id' = id ∧ column = field.1 then some field.2 else tb.cell id' column := by
  rw [cell, fields_setField h]
  by_cases hid : id' = id
  · simp only [hid, if_true, true_and, OrderedMap.get?_insert, cell]
  · simp only [hid, if_false, false_and, cell]

theorem cell_assign {ids : List RowId} (new : OrderedMap String String) (id : RowId)
    (column : String) :
    (tb.assign ids new).cell id column =
      if id ∈ ids ∧ id ∈ tb.rows then (new.get? column).or (tb.cell id column)
      else tb.cell id column := by
  rw [cell, fields_assign]
  split
  · exact OrderedMap.get?_extend ..
  · rfl

theorem ids_append (new : OrderedMap String String) :
    (tb.append new).ids = OrderedSet.add tb.ids (tb.last + 1) := by
  apply OrderedSet.ext_mem
  intro id
  rw [mem_ids, append, OrderedMap.mem_insert, OrderedSet.mem_add, mem_ids]

theorem ids_setField (field : String × String) : (tb.setField id field).ids = tb.ids := by
  apply OrderedSet.ext_mem
  intro id'
  rw [mem_ids, setField, OrderedMap.mem_mapWithKey, mem_ids]

theorem ids_assign (tb : Table) (ids : List RowId) (new : OrderedMap String String) :
    (tb.assign ids new).ids = tb.ids := by
  apply OrderedSet.ext_mem
  intro id
  rw [mem_ids, assign, OrderedMap.mem_mapWithKey, mem_ids]

theorem ids_deleteRow : (tb.deleteRow id).ids = OrderedMap.erase tb.ids id := by
  apply OrderedSet.ext_mem
  intro id'
  rw [mem_ids, deleteRow, OrderedMap.mem_erase, OrderedMap.mem_erase, mem_ids]

/-- Setting fields one after another sets them all. -/
theorem foldl_setField (tb : Table) (id : RowId) (new : OrderedMap String String) :
    new.toList.foldl (fun tb field => tb.setField id field) tb = tb.assign [id] new := by
  have hfold : ∀ (l : List (String × String)) (tb : Table),
      l.foldl (fun tb field => tb.setField id field) tb =
        { tb with rows := tb.rows.mapWithKey fun id' fields =>
            if id' = id then l.foldl (fun m b => m.insert b.1 b.2) fields else fields } := by
    intro l
    induction l with
    | nil =>
        intro tb
        simp only [List.foldl_nil, ite_self, OrderedMap.mapWithKey_self]
    | cons field rest ih =>
        intro tb
        rw [List.foldl_cons, ih, setField, OrderedMap.mapWithKey_mapWithKey]
        congr 2
        funext id' fields
        by_cases hid : id' = id
        · simp only [hid, if_true, List.foldl_cons]
        · simp only [hid, if_false]
  rw [hfold, assign]
  simp only [List.mem_singleton]
  rfl

theorem assign_nil (tb : Table) (new : OrderedMap String String) : tb.assign [] new = tb := by
  simp only [assign, List.not_mem_nil, if_false, OrderedMap.mapWithKey_self]

theorem assign_cons (tb : Table) (id : RowId) (rest : List RowId)
    (new : OrderedMap String String) :
    (tb.assign [id] new).assign rest new = tb.assign (id :: rest) new := by
  have htwice (f : OrderedMap String String) : (f.extend new).extend new = f.extend new := by
    ext c : 1
    cases h : new.get? c <;> simp [h]
  rw [assign, assign, assign, OrderedMap.mapWithKey_mapWithKey]
  congr 2
  funext id' fields
  by_cases hid : id' = id <;> by_cases hrest : id' ∈ rest <;> simp [hid, hrest, htwice]

theorem delete_nil (tb : Table) : tb.delete [] = tb := by
  have hrows : OrderedMap.filter (fun id => id ∉ ([] : List RowId)) tb.rows = tb.rows := by
    ext id : 1
    simp
  rw [delete, hrows]

theorem delete_cons (tb : Table) (id : RowId) (rest : List RowId) :
    (tb.deleteRow id).delete rest = tb.delete (id :: rest) := by
  rw [delete, delete, deleteRow]
  congr 1
  ext id' : 1
  by_cases hid : id' = id <;> by_cases hrest : id' ∈ rest <;> simp [hid, hrest]

/-- As many rows go as are deleted. -/
theorem size_delete {ids : List RowId} (hnodup : ids.Nodup) (hids : ∀ id ∈ ids, id ∈ tb.rows) :
    (tb.delete ids).rows.size + ids.length = tb.rows.size := by
  have hgone : (tb.rows.keys.filter (· ∈ ids)).Perm ids := by
    apply (List.perm_ext_iff_of_nodup (tb.rows.nodup_keys.filter _) hnodup).mpr
    intro id
    rw [List.mem_filter, OrderedMap.mem_keys, decide_eq_true_iff]
    exact and_iff_right_of_imp (hids id)
  have hkept : (tb.delete ids).rows.keys = tb.rows.keys.filter fun id => !decide (id ∈ ids) := by
    rw [delete, OrderedMap.keys_filter]
    simp only [decide_not]
  calc (tb.delete ids).rows.size + ids.length
      = (tb.rows.keys.filter (· ∈ ids)).length +
          (tb.rows.keys.filter fun id => !decide (id ∈ ids)).length := by
        rw [hgone.length_eq, ← OrderedMap.length_keys, hkept, Nat.add_comm]
    _ = tb.rows.size := by
        rw [← List.length_eq_length_filter_add, OrderedMap.length_keys]

end

/-! ### What the changes preserve -/

/-- A value of a declared column and of its type. -/
def Admits (tb : Table) (column value : String) : Prop :=
  ∃ type, tb.columns.get? column = some type ∧ type.accepts value = true

/-- What commands make of a table: columns that keys can tell apart, rows numbered up to the last
one, and in each row some fields, all of them admitted. -/
structure Valid (tb : Table) : Prop where
  column_name : ∀ {column}, column ∈ tb.columns → ':' ∉ column.toList
  indexed_declared : ∀ {column}, column ∈ tb.indexed → column ∈ tb.columns
  row_number : ∀ {id}, id ∈ tb.rows → 1 ≤ id ∧ id ≤ tb.last
  last_le : (tb.last : Int) ≤ Text.maxInt64
  row_fields : ∀ {id}, id ∈ tb.rows → (tb.fields id).isEmpty = false
  admitted : ∀ {id column value}, tb.cell id column = some value → tb.Admits column value

namespace Valid

variable {tb : Table}

theorem empty : Valid ∅ where
  column_name h := (OrderedMap.notMem_empty _ h).elim
  indexed_declared h := (OrderedMap.notMem_empty _ h).elim
  row_number h := (OrderedMap.notMem_empty _ h).elim
  last_le := by decide
  row_fields h := (OrderedMap.notMem_empty _ h).elim
  admitted h := (OrderedMap.notMem_empty _ (mem_rows_of_cell h)).elim

/-- All numbers of rows fit into 64 bits. -/
theorem id_le (h : tb.Valid) {id : RowId} (hid : id ∈ tb.ids) : id ≤ Text.maxNat64 := by
  have hlast := h.last_le
  have hbound : Text.maxInt64 ≤ (Text.maxNat64 : Int) := by decide
  have hle : tb.last ≤ Text.maxNat64 := by omega
  exact Nat.le_trans (h.row_number (mem_ids.mp hid)).2 hle

theorem succ_last_notMem (h : tb.Valid) : tb.last + 1 ∉ tb.rows :=
  fun hid => Nat.not_succ_le_self _ (h.row_number hid).2

theorem ne_succ_last (h : tb.Valid) {id : RowId} (hid : id ∈ tb.rows) : id ≠ tb.last + 1 :=
  fun heq => h.succ_last_notMem (heq ▸ hid)

theorem indexed_name (h : tb.Valid) {column : String} (hc : column ∈ tb.indexed) :
    ':' ∉ column.toList :=
  h.column_name (h.indexed_declared hc)

theorem declared_of_cell (h : tb.Valid) {id : RowId} {column value : String}
    (hcell : tb.cell id column = some value) : column ∈ tb.columns := by
  obtain ⟨type, htype, -⟩ := h.admitted hcell
  exact OrderedMap.mem_of_get? htype

/-- What a row holds is of the type of its column. -/
theorem accepts_of_cell (h : tb.Valid) {id : RowId} {column value : String} {type : ColumnType}
    (htype : tb.columns.get? column = some type) (hcell : tb.cell id column = some value) :
    type.accepts value = true := by
  obtain ⟨type', htype', haccepts⟩ := h.admitted hcell
  obtain rfl : type = type' := Option.some.inj (htype.symm.trans htype')
  exact haccepts

/-- No row has a column that is not declared. -/
theorem cell_eq_none (h : tb.Valid) {column : String} (hnew : column ∉ tb.columns) (id : RowId) :
    tb.cell id column = none := by
  cases hcell : tb.cell id column with
  | none => rfl
  | some value => exact (hnew (h.declared_of_cell hcell)).elim

/-- A column may be defined if no row has it. -/
theorem define (h : tb.Valid) {column : Column} (hname : ':' ∉ column.name.toList)
    (hnew : ∀ id, tb.cell id column.name = none) : (tb.define column).Valid where
  column_name {c} hc := by
    rcases OrderedMap.mem_insert.mp hc with rfl | hc
    · exact hname
    · exact h.column_name hc
  indexed_declared {c} hc := by
    apply OrderedMap.mem_insert.mpr
    by_cases hindex : column.indexed
    · rw [Table.define, if_pos hindex, OrderedSet.mem_add] at hc
      exact hc.imp_right h.indexed_declared
    · rw [Table.define, if_neg hindex] at hc
      exact Or.inr (h.indexed_declared hc)
  row_number := h.row_number
  last_le := h.last_le
  row_fields := h.row_fields
  admitted {id c v} hcell := by
    change tb.cell id c = some v at hcell
    obtain ⟨type, htype, hv⟩ := h.admitted hcell
    have hne : c ≠ column.name := by
      rintro rfl
      have hnone := hnew id
      rw [hcell] at hnone
      cases hnone
    refine ⟨type, ?_, hv⟩
    rw [Table.define, OrderedMap.get?_insert, if_neg hne, htype]

theorem create {columns : List Column} (hnames : ∀ c ∈ columns, ':' ∉ c.name.toList) :
    (Table.create columns).Valid := by
  have hfold : ∀ (columns : List Column) (tb : Table), tb.Valid → tb.rows = ∅ →
      (∀ c ∈ columns, ':' ∉ c.name.toList) → (columns.foldl Table.define tb).Valid := by
    intro columns
    induction columns with
    | nil => exact fun tb htb _ _ => htb
    | cons column rest ih =>
        intro tb htb hrows hnames
        have hnew : ∀ id, tb.cell id column.name = none := by
          intro id
          rw [cell, fields, hrows, OrderedMap.get?_empty, Option.getD_none, OrderedMap.get?_empty]
        have hcolumn := htb.define (hnames column (List.mem_cons_self ..)) hnew
        exact ih _ hcolumn hrows fun c hc => hnames c (List.mem_cons_of_mem _ hc)
  exact hfold columns ∅ empty rfl hnames

theorem addIndex (h : tb.Valid) {column : String} (hcolumn : column ∈ tb.columns) :
    (tb.addIndex column).Valid :=
  { h with
    indexed_declared := fun {c} hc => by
      rcases OrderedSet.mem_add.mp hc with rfl | hc
      · exact hcolumn
      · exact h.indexed_declared hc }

theorem dropIndex (h : tb.Valid) (column : String) : (tb.dropIndex column).Valid :=
  { h with indexed_declared := fun hc => h.indexed_declared (OrderedMap.mem_erase.mp hc).2 }

theorem append (h : tb.Valid) {new : OrderedMap String String}
    (hlast : (tb.last : Int) < Text.maxInt64) (hnew : new.isEmpty = false)
    (hadmits : ∀ {column value}, new.get? column = some value → tb.Admits column value) :
    (tb.append new).Valid :=
  { h with
    row_number := fun {id} hid => by
      rcases OrderedMap.mem_insert.mp hid with rfl | hid
      · exact ⟨Nat.le_add_left .., Nat.le_refl _⟩
      · have := h.row_number hid
        exact ⟨this.1, Nat.le_succ_of_le this.2⟩
    last_le := by
      show ((tb.last + 1 : Nat) : Int) ≤ Text.maxInt64
      omega
    row_fields := fun {id} hid => by
      rw [fields_append]
      split
      · exact hnew
      · next hne =>
          rcases OrderedMap.mem_insert.mp hid with rfl | hid
          · exact (hne rfl).elim
          · exact h.row_fields hid
    admitted := fun {id column value} hcell => by
      rw [cell, fields_append] at hcell
      split at hcell
      · exact hadmits hcell
      · exact h.admitted hcell }

theorem setField (h : tb.Valid) {id : RowId} (hid : id ∈ tb.rows) {field : String × String}
    (hfield : tb.Admits field.1 field.2) : (tb.setField id field).Valid :=
  { h with
    row_number := fun hid' => h.row_number (OrderedMap.mem_mapWithKey.mp hid')
    row_fields := fun {id'} hid' => by
      rw [fields_setField hid]
      split
      · exact OrderedMap.isEmpty_insert ..
      · exact h.row_fields (OrderedMap.mem_mapWithKey.mp hid')
    admitted := fun {id' column value} hcell => by
      rw [cell, fields_setField hid] at hcell
      split at hcell
      · rw [OrderedMap.get?_insert] at hcell
        split at hcell
        · next heq =>
            obtain rfl := Option.some.inj hcell
            exact heq ▸ hfield
        · exact h.admitted hcell
      · exact h.admitted hcell }

theorem assign (h : tb.Valid) (ids : List RowId) {new : OrderedMap String String}
    (hnew : ∀ {column value}, new.get? column = some value → tb.Admits column value) :
    (tb.assign ids new).Valid :=
  { h with
    row_number := fun hid => h.row_number (OrderedMap.mem_mapWithKey.mp hid)
    row_fields := fun {id} hid => by
      have hfields := h.row_fields (OrderedMap.mem_mapWithKey.mp hid)
      rw [fields_assign]
      split
      · obtain ⟨column, hcolumn⟩ := OrderedMap.isEmpty_eq_false_iff.mp hfields
        exact OrderedMap.isEmpty_eq_false_iff.mpr ⟨column, OrderedMap.mem_extend.mpr (Or.inr hcolumn)⟩
      · exact hfields
    admitted := fun {id column value} hcell => by
      rw [cell, fields_assign] at hcell
      split at hcell
      · rw [OrderedMap.get?_extend, Option.or_eq_some_iff] at hcell
        rcases hcell with hcell | ⟨-, hcell⟩
        · exact hnew hcell
        · exact h.admitted hcell
      · exact h.admitted hcell }

theorem deleteRow (h : tb.Valid) (id : RowId) : (tb.deleteRow id).Valid :=
  { h with
    row_number := fun hid => h.row_number (OrderedMap.mem_erase.mp hid).2
    row_fields := fun {id'} hid => by
      obtain ⟨hne, hid⟩ := OrderedMap.mem_erase.mp hid
      rw [fields_deleteRow, if_neg hne]
      exact h.row_fields hid
    admitted := fun {id' column value} hcell => by
      rw [cell, fields_deleteRow] at hcell
      split at hcell
      · simp at hcell
      · exact h.admitted hcell }

theorem delete (h : tb.Valid) (ids : List RowId) : (tb.delete ids).Valid := by
  induction ids generalizing tb with
  | nil =>
      rw [delete_nil]
      exact h
  | cons id rest ih =>
      rw [← delete_cons]
      exact ih (h.deleteRow id)

end Valid

end Table

end Tabular
