import Mathlib
import Tabular.Proofs.Command

/-!
Stores that commands can reach from the empty one. Each of them holds the layout of a valid
database (`Reachable.exists_database`), and so what the keys of a table hold agrees: the sets of an
index are exactly the rows that hold its values. The order in which sets are gone through matters
neither to the reply to a line nor to the store after it (`Reachable.replyBy_eq`).
-/

namespace Tabular

namespace Database

/-- The reply to a line, or the error of its command. -/
def reply (config : Config) (line : String) (db : Database) : Except Error Reply :=
  (db.runLine config line).map (·.1)

/-- The database after a line, whether its command succeeds or fails. -/
def after (config : Config) (line : String) (db : Database) : Database :=
  match db.runLine config line with
  | .ok out => out.2
  | .error _ => db

end Database

namespace Store

/-- The reply to a line, or the error of its command. -/
def reply (config : Config) (line : String) (s : Store) : Except Error Reply :=
  ((Command.runLine config line).exec ⟨s, none⟩).1

/-- The store after a line, whether its command succeeds or fails. -/
def after (config : Config) (line : String) (s : Store) : Store :=
  ((Command.runLine config line).exec ⟨s, none⟩).2.store

/-- The reply to a line that goes through sets in given orders. -/
def replyBy (orders : Orders) (config : Config) (line : String) (s : Store) :
    Except Error Reply :=
  ((Command.runLineBy orders config line).exec ⟨s, none⟩).1

/-- The store after a line that goes through sets in given orders. -/
def afterBy (orders : Orders) (config : Config) (line : String) (s : Store) : Store :=
  ((Command.runLineBy orders config line).exec ⟨s, none⟩).2.store

theorem replyBy_ascending : replyBy .ascending = reply := rfl

theorem afterBy_ascending : afterBy .ascending = after := rfl

/-- Lines in any number, each under any configuration, lead here from the empty store. -/
inductive Reachable : Store → Prop
  | empty : Reachable ∅
  | line {s : Store} (h : Reachable s) (config : Config) (line : String) :
      Reachable (s.after config line)

/-- The store has a schema of the table, whose name is as commands read it. -/
def HasTable (s : Store) (t : TableName) : Prop :=
  TableName.ofText? t.full = some t ∧ s.keyType (Key.schema t).text = .hash

instance (s : Store) (t : TableName) : Decidable (s.HasTable t) :=
  inferInstanceAs (Decidable (_ ∧ _))

/-- The numbers of the rows of a table. -/
def rowsOf (s : Store) (t : TableName) : RowSet := RowSet.ofStored (s.membersAt (Key.rows t).text)

/-- What the counter of a table has counted to. -/
def lastOf (s : Store) (t : TableName) : Nat :=
  match s.get? (Key.counter t).text with
  | some (.text n) => (Text.nat64? n).getD 0
  | _ => 0

/-- A table as its keys give it. -/
def tableAt (s : Store) (t : TableName) : Table where
  columns := (s.fieldsAt (Key.schema t).text).mapValues ColumnType.ofStored
  indexed := s.membersAt (Key.indexed t).text
  last := s.lastOf t
  rows := (s.rowsOf t).mapWithKey fun id _ => s.fieldsAt (Key.row t id).text

variable {s : Store} {db : Database} {t : TableName}

/-! ### The invariant -/

theorem holds_empty : Holds ∅ (∅ : Database).layout := by
  refine ⟨fun {k} _ => ?_, fun _ => rfl⟩
  cases k <;> rfl

/-- A line does to the keys of a valid database what it does to the database, with one reply, and
whatever its orders. -/
theorem Holds.lineBy (hs : s.Holds db.layout) (hdb : db.Valid) (orders : Orders) (config : Config)
    (line : String) :
    s.replyBy orders config line = db.reply config line ∧ (db.after config line).Valid ∧
      (s.afterBy orders config line).Holds (db.after config line).layout := by
  have hline := StoreM.performs_runLine orders config hdb line
  unfold replyBy afterBy Database.reply Database.after
  cases hrun : db.runLine config line with
  | error e =>
      rw [hrun] at hline
      rw [hline.exec_error hs]
      exact ⟨rfl, hdb, hs⟩
  | ok out =>
      rw [hrun] at hline
      obtain ⟨hdb', s', hexec, hs'⟩ := hline.exec_ok hs
      rw [hexec]
      exact ⟨rfl, hdb', hs'⟩

theorem Holds.line (hs : s.Holds db.layout) (hdb : db.Valid) (config : Config) (line : String) :
    s.reply config line = db.reply config line ∧ (db.after config line).Valid ∧
      (s.after config line).Holds (db.after config line).layout :=
  hs.lineBy hdb .ascending config line

/-- Every store that commands can reach holds the keys of a valid database. -/
theorem Reachable.exists_database (h : s.Reachable) :
    ∃ db : Database, db.Valid ∧ s.Holds db.layout := by
  induction h with
  | empty => exact ⟨∅, Database.Valid.empty, holds_empty⟩
  | line _ config line ih =>
      obtain ⟨db, hdb, hs⟩ := ih
      exact ⟨db.after config line, (hs.line hdb config line).2⟩

/-- The orders change neither the reply to a line nor the store after it. -/
theorem Reachable.replyBy_eq (h : s.Reachable) (orders : Orders) (config : Config)
    (line : String) :
    s.replyBy orders config line = s.reply config line ∧
      s.afterBy orders config line = s.after config line := by
  obtain ⟨db, hdb, hs⟩ := h.exists_database
  obtain ⟨hreplyBy, -, hafterBy⟩ := hs.lineBy hdb orders config line
  obtain ⟨hreply, -, hafter⟩ := hs.line hdb config line
  exact ⟨hreplyBy.trans hreply.symm, hafterBy.unique hafter⟩

/-- A table with one row, and an index on one of its two columns. -/
def sample : Store :=
  let t : TableName := ⟨"app", "users"⟩
  OrderedMap.ofList
    [((Key.marker "app").text, .text "1"),
     ((Key.schema t).text, .hash (OrderedMap.ofList [("age", "integer"), ("name", "string")])),
     ((Key.indexed t).text, .set (OrderedSet.ofMembers ["name"])),
     ((Key.counter t).text, .text "1"),
     ((Key.rows t).text, .set (OrderedSet.ofMembers ["1"])),
     ((Key.row t 1).text, .hash (OrderedMap.ofList [("age", "7"), ("name", "ann")])),
     ((Key.index t "name" "ann").text, .set (OrderedSet.ofMembers ["1"]))]

theorem sample_eq : sample =
    (((∅ : Store).after {} "NAMESPACE.CREATE app").after {}
      "SCHEMA.CREATE app.users name:string:hash age:integer").after {}
      "INSERT app.users name=ann age=7" := by
  cbv

theorem sample_reachable : sample.Reachable := by
  rw [sample_eq]
  exact ((Reachable.empty.line {} _).line {} _).line {} _

/-- The same with a second row. -/
def sampleInserted : Store :=
  let t : TableName := ⟨"app", "users"⟩
  OrderedMap.ofList
    [((Key.marker "app").text, .text "1"),
     ((Key.schema t).text, .hash (OrderedMap.ofList [("age", "integer"), ("name", "string")])),
     ((Key.indexed t).text, .set (OrderedSet.ofMembers ["name"])),
     ((Key.counter t).text, .text "2"),
     ((Key.rows t).text, .set (OrderedSet.ofMembers ["1", "2"])),
     ((Key.row t 1).text, .hash (OrderedMap.ofList [("age", "7"), ("name", "ann")])),
     ((Key.row t 2).text, .hash (OrderedMap.ofList [("age", "8"), ("name", "cid")])),
     ((Key.index t "name" "ann").text, .set (OrderedSet.ofMembers ["1"])),
     ((Key.index t "name" "cid").text, .set (OrderedSet.ofMembers ["2"]))]

/-- The same with both columns indexed. -/
def sampleIndexed : Store :=
  let t : TableName := ⟨"app", "users"⟩
  OrderedMap.ofList
    [((Key.marker "app").text, .text "1"),
     ((Key.schema t).text, .hash (OrderedMap.ofList [("age", "integer"), ("name", "string")])),
     ((Key.indexed t).text, .set (OrderedSet.ofMembers ["age", "name"])),
     ((Key.counter t).text, .text "2"),
     ((Key.rows t).text, .set (OrderedSet.ofMembers ["1", "2"])),
     ((Key.row t 1).text, .hash (OrderedMap.ofList [("age", "7"), ("name", "ann")])),
     ((Key.row t 2).text, .hash (OrderedMap.ofList [("age", "8"), ("name", "cid")])),
     ((Key.index t "age" "7").text, .set (OrderedSet.ofMembers ["1"])),
     ((Key.index t "age" "8").text, .set (OrderedSet.ofMembers ["2"])),
     ((Key.index t "name" "ann").text, .set (OrderedSet.ofMembers ["1"])),
     ((Key.index t "name" "cid").text, .set (OrderedSet.ofMembers ["2"]))]

theorem sampleInserted_reachable : sampleInserted.Reachable := by
  have hinserted : sampleInserted = sample.after {} "INSERT app.users name=cid age=8" := by cbv
  rw [hinserted]
  exact sample_reachable.line {} _

theorem sampleIndexed_eq : sampleIndexed =
    sampleInserted.after {} "SCHEMA.ALTER app.users ADD INDEX age" := by
  cbv

theorem sampleIndexed_reachable : sampleIndexed.Reachable := by
  rw [sampleIndexed_eq]
  exact sampleInserted_reachable.line {} _

/-! ### What the keys of a table give -/

theorem HasTable.proper (h : s.HasTable t) : t.Proper := TableName.ofText?_full_iff.mp h.1

/-- The tables of a store are those of its database. -/
theorem Holds.hasTable_iff (hs : s.Holds db.layout) (hdb : db.Valid) :
    s.HasTable t ↔ t ∈ db.tables := by
  have hkeyType (ht : t.Proper) : s.keyType (Key.schema t).text = .hash ↔ t ∈ db.tables := by
    have hlayout : db.layout (.schema t) = Entry.ofHash (db.table t).image.types := rfl
    rw [keyType, hs.lookup (k := .schema t) ht, hlayout, hdb.mem_tables_iff,
      ← Table.isEmpty_types, Entry.ofHash]
    cases (db.table t).image.types.isEmpty <;> simp
  constructor
  · exact fun h => (hkeyType h.proper).mp h.2
  · intro h
    have hproper := (hdb.table_name h).1
    exact ⟨TableName.ofText?_full_iff.mpr hproper, (hkeyType hproper).mpr h⟩

/-- The keys of a table of a reachable store hold the image of a valid table. -/
theorem Reachable.exists_table (h : s.Reachable) (ht : s.HasTable t) :
    ∃ db : Database, db.Valid ∧ t ∈ db.tables ∧
      s.Holds ((db.table t).image.on t db.layout) := by
  obtain ⟨db, hdb, hs⟩ := h.exists_database
  have hmem := (hs.hasTable_iff hdb).mp ht
  rw [db.layout_on t] at hs
  exact ⟨db, hdb, hmem, hs⟩

section
variable (hs : s.Holds db.layout) {k : Key} (hk : k.Proper) (ht : k.table? = some t)
include hs hk ht

/-- A key of a table holds what the image of the table says. -/
theorem Holds.get?_of_table : s.get? k.text = (db.table t).image.entry k := by
  rw [hs.lookup hk, Database.layout_of_table ht]

theorem Holds.fieldsAt_eq {fields : OrderedMap String String}
    (h : (db.table t).image.entry k = Entry.ofHash fields) : s.fieldsAt k.text = fields :=
  Store.fieldsAt_eq ((hs.get?_of_table hk ht).trans h)

theorem Holds.membersAt_eq {members : OrderedSet String}
    (h : (db.table t).image.entry k = Entry.ofSet members) : s.membersAt k.text = members :=
  Store.membersAt_eq ((hs.get?_of_table hk ht).trans h)

end

section
variable (hs : s.Holds db.layout) (ht : t.Tagged)
include hs ht

theorem Holds.fieldsAt_schema : s.fieldsAt (Key.schema t).text = (db.table t).image.types :=
  hs.fieldsAt_eq (k := .schema t) ht.1 rfl rfl

theorem Holds.membersAt_indexed : s.membersAt (Key.indexed t).text = (db.table t).indexed :=
  hs.membersAt_eq (k := .indexed t) ht rfl rfl

theorem Holds.get?_counter : s.get? (Key.counter t).text = Entry.ofCount (db.table t).last :=
  hs.get?_of_table (k := .counter t) ht rfl

theorem Holds.membersAt_rows : s.membersAt (Key.rows t).text = (db.table t).ids.texts :=
  hs.membersAt_eq (k := .rows t) ht rfl rfl

theorem Holds.get?_row (id : RowId) :
    s.get? (Key.row t id).text = Entry.ofHash ((db.table t).fields id) :=
  hs.get?_of_table (k := .row t id) ht rfl

theorem Holds.fieldsAt_row (id : RowId) :
    s.fieldsAt (Key.row t id).text = (db.table t).fields id := Store.fieldsAt_eq (hs.get?_row ht id)

end

section
variable (hs : s.Holds db.layout) (hdb : db.Valid) (ht : t.Tagged)
include hs hdb ht

theorem Holds.rowsOf : s.rowsOf t = (db.table t).ids := by
  rw [Store.rowsOf, hs.membersAt_rows ht]
  exact RowSet.ofStored_texts fun _ => (hdb.table_valid t).id_le

theorem Holds.lastOf : s.lastOf t = (db.table t).last := by
  rw [Store.lastOf, hs.get?_counter ht, Entry.ofCount]
  by_cases hlast : (db.table t).last = 0
  · rw [if_pos hlast, hlast]
  · have hle : (db.table t).last ≤ Text.maxNat64 := by
      have h := (hdb.table_valid t).last_le
      have hbound : Text.maxInt64 ≤ (Text.maxNat64 : Int) := by decide
      omega
    rw [if_neg hlast]
    simp only [Text.nat64?_toString hle, Option.getD_some]

/-- The keys of a table give back the table. -/
theorem Holds.tableAt : s.tableAt t = db.table t := by
  unfold Store.tableAt
  rw [hs.fieldsAt_schema ht, hs.membersAt_indexed ht, hs.lastOf hdb ht, hs.rowsOf hdb ht,
    Table.ofStored_types]
  have hrows : ((db.table t).ids.mapWithKey fun id _ => s.fieldsAt (Key.row t id).text) =
      (db.table t).rows := by
    ext id : 1
    rw [OrderedMap.get?_mapWithKey, hs.fieldsAt_row ht, Table.ids, OrderedMap.get?_mapValues,
      Table.fields]
    cases (db.table t).rows.get? id <;> rfl
  rw [hrows]

end

/-- The row is there and holds the value in the column. -/
def RowHolds (s : Store) (t : TableName) (column value : String) (id : RowId) : Prop :=
  toString id ∈ s.membersAt (Key.rows t).text ∧
    (s.fieldsAt (Key.row t id).text).get? column = some value

/-- Rows are read off the image, whatever is under its indexes. -/
theorem Holds.rowHolds_iff {img : Image} {l : Layout} {tb : Table} (hs : s.Holds (img.on t l))
    (ht : t.Tagged) (hmembers : img.members = tb.ids.texts)
    (hrow : ∀ {id}, id ∈ tb.rows → img.row id = tb.fields id) {column value : String} {id : RowId} :
    s.RowHolds t column value id ↔ tb.cell id column = some value := by
  unfold RowHolds
  rw [hs.members_on ht, hs.row_on ht, hmembers, RowSet.toString_mem_texts, Table.mem_ids]
  constructor
  · rintro ⟨hid, hvalue⟩
    rwa [hrow hid] at hvalue
  · intro hcell
    have hid := Table.mem_rows_of_cell hcell
    exact ⟨hid, (hrow hid).symm ▸ hcell⟩

/-- An index is exact: under a value it has the rows that hold the value, and a column without an
index has no index keys. -/
theorem Reachable.index_exact (h : s.Reachable) (ht : s.HasTable t) {column : String}
    (hcolumn : column ∈ s.fieldsAt (Key.schema t).text) :
    (column ∈ s.membersAt (Key.indexed t).text →
      ∀ (value : String) (id : RowId),
        toString id ∈ s.membersAt (Key.index t column value).text ↔
          toString id ∈ s.membersAt (Key.rows t).text ∧
            (s.fieldsAt (Key.row t id).text).get? column = some value) ∧
    (column ∉ s.membersAt (Key.indexed t).text →
      ∀ key : String, (t.indexStem column).toList <+: key.toList → key ∉ s) := by
  obtain ⟨db, hdb, hs⟩ := h.exists_database
  have hmem := (hs.hasTable_iff hdb).mp ht
  have htag := hdb.tagged hmem
  have htypes := hs.fieldsAt_eq (k := .schema t) (t := t) htag.1 rfl rfl
  have hindexed : s.membersAt (Key.indexed t).text = (db.table t).indexed :=
    hs.membersAt_eq (k := .indexed t) (t := t) htag rfl rfl
  have hrows := hs.membersAt_eq (k := .rows t) (t := t) htag rfl rfl
  rw [htypes] at hcolumn
  have hname : ':' ∉ column.toList :=
    (hdb.table_valid t).column_name (OrderedMap.mem_mapValues.mp hcolumn)
  rw [hindexed, hrows]
  constructor
  · intro hc value id
    have hindex := hs.membersAt_eq (k := .index t column value) (t := t) ⟨htag, hname⟩ rfl rfl
    have hrow := hs.fieldsAt_eq (k := .row t id) (t := t) htag rfl rfl
    have hfields : ((db.table t).image.row id).get? column = (db.table t).cell id column := rfl
    rw [hindex, hrow, hfields, Table.mem_index]
    constructor
    · rintro ⟨-, id', hcell, heq⟩
      obtain rfl := Text.toString_injective heq
      exact ⟨RowSet.toString_mem_texts.mpr (Table.mem_ids.mpr (Table.mem_rows_of_cell hcell)), hcell⟩
    · exact fun hcell => ⟨hc, id, hcell.2, rfl⟩
  · intro hc key hkey hin
    obtain ⟨e, he⟩ := Option.isSome_iff_exists.mp (OrderedMap.mem_iff_isSome.mp hin)
    obtain ⟨k, hk, rfl, hlayout⟩ := hs.exists_of_get? he
    obtain ⟨value, rfl⟩ := (Key.indexStem_prefix_iff htag hname hk).mp hkey
    -- the set of an index that is not there is empty, and no key holds an empty set
    have hentry : db.layout (.index t column value) =
        Entry.ofSet (if column ∈ (db.table t).indexed then
          ((db.table t).holding column value).texts else ∅) := rfl
    rw [hentry, if_neg hc] at hlayout
    cases hlayout

theorem sample_index_exact :
    sample.Reachable ∧ sample.HasTable ⟨"app", "users"⟩ ∧
      (toString 1 ∈ sample.membersAt (Key.index ⟨"app", "users"⟩ "name" "ann").text ↔
        toString 1 ∈ sample.membersAt (Key.rows ⟨"app", "users"⟩).text ∧
          (sample.fieldsAt (Key.row ⟨"app", "users"⟩ 1).text).get? "name" = some "ann") ∧
      (Key.index ⟨"app", "users"⟩ "age" "7").text ∉ sample := by
  have ht : sample.HasTable ⟨"app", "users"⟩ := of_decide_eq_true (by cbv)
  have hname : "name" ∈ sample.fieldsAt (Key.schema ⟨"app", "users"⟩).text := by decide +kernel
  have hage : "age" ∈ sample.fieldsAt (Key.schema ⟨"app", "users"⟩).text := by decide +kernel
  refine ⟨sample_reachable, ht, ?_, ?_⟩
  · exact (sample_reachable.index_exact ht hname).1 (by decide +kernel) "ann" 1
  · exact (sample_reachable.index_exact ht hage).2 (by decide +kernel) _ (by decide +kernel)

end Store

end Tabular
