import Tabular.Proofs.Insertion
import Tabular.Proofs.Keyspace
import Tabular.Proofs.Selection

/-!
What an update makes of a table. The rows are selected before the first is changed, so the clause
may test columns that are assigned, and an index may answer it whose sets are being changed. Of two
values for one column the later counts. The selected rows have the new values, they are under these
and under no others, and nothing else in the store has changed (`Reachable.update_exact`).
-/

namespace Tabular

/-! ### Assignments -/

/-- The value that assignments give a column: the last one for it. -/
def assigned (fields : List (String × String)) (column : String) : Option String :=
  fields.reverse.lookup column

theorem OrderedMap.get?_ofList (fields : List (String × String)) (column : String) :
    (OrderedMap.ofList fields).get? column = assigned fields column :=
  OrderedMap.get?_ofList_eq_lookup fields column

namespace Table

variable {ids : List RowId} {new : OrderedMap String String}

/-- A key keeps what it holds unless it is of a row that is changed or of an index set of a column
that is assigned. -/
theorem entry_assign (tb : Table) {k : Key} {t : TableName} (hk : k.table? = some t)
    (hrow : ∀ id ∈ ids, k ≠ .row t id)
    (hindex : ∀ column value, column ∈ new → k ≠ .index t column value) :
    (tb.assign ids new).image.entry k = tb.image.entry k := by
  cases k with
  | marker ns => cases hk
  | schema _ | indexed _ | counter _ => rfl
  | rows _ =>
      show Entry.ofSet (tb.assign ids new).ids.texts = Entry.ofSet tb.ids.texts
      rw [ids_assign]
  | row _ id =>
      obtain rfl := Option.some.inj hk
      have hid : id ∉ ids := fun hid => hrow id hid rfl
      show Entry.ofHash ((tb.assign ids new).fields id) = Entry.ofHash (tb.fields id)
      rw [fields_assign, if_neg fun h => hid h.1]
  | index _ column value =>
      obtain rfl := Option.some.inj hk
      have hcolumn : new.get? column = none :=
        OrderedMap.get?_eq_none_iff.mpr fun hmem => hindex column value hmem rfl
      have hsame : (tb.assign ids new).image.index (column, value) =
          tb.image.index (column, value) := by
        apply OrderedSet.ext_mem
        intro x
        rw [mem_index, mem_index]
        simp only [cell_assign, hcolumn, Option.none_or, ite_self]
        rfl
      show Entry.ofSet _ = Entry.ofSet _
      rw [hsame]

end Table

namespace Store

variable {s s' : Store} {t : TableName} {l : Layout} {tb : Table}

/-! ### Updates -/

/-- In one store some rows have been selected, and in the other one they have been assigned fields. -/
structure Assigned (s s' : Store) (t : TableName) (rows : List Row)
    (fields : List (String × String)) : Prop where
  /-- Each selected row has the last value for each column that is assigned, and all its other
  fields. -/
  changed : ∀ row ∈ rows, ∀ column,
    (s'.fieldsAt (Key.row t row.id).text).get? column =
      (assigned fields column).or ((s.fieldsAt (Key.row t row.id).text).get? column)
  /-- All other rows are as they were. -/
  row_kept : ∀ id, (∀ row ∈ rows, row.id ≠ id) →
    s'.get? (Key.row t id).text = s.get? (Key.row t id).text
  members : s'.get? (Key.rows t).text = s.get? (Key.rows t).text
  counter : s'.get? (Key.counter t).text = s.get? (Key.counter t).text
  schema : s'.get? (Key.schema t).text = s.get? (Key.schema t).text
  indexed : s'.get? (Key.indexed t).text = s.get? (Key.indexed t).text
  /-- In an indexed column that is assigned, each selected row is under the new value and under no
  other one. -/
  moved : ∀ column ∈ s.membersAt (Key.indexed t).text, ∀ value,
    assigned fields column = some value → ∀ row ∈ rows, ∀ value',
      toString row.id ∈ s'.membersAt (Key.index t column value').text ↔ value' = value
  /-- All other rows are under the values that they were under. -/
  index_kept : ∀ column value x, (∀ row ∈ rows, x ≠ toString row.id) →
    (x ∈ s'.membersAt (Key.index t column value).text ↔
      x ∈ s.membersAt (Key.index t column value).text)
  /-- The keys of the selected rows and the index sets of assigned columns are all that has changed
  in the store. -/
  elsewhere : ∀ key, (∀ row ∈ rows, key ≠ (Key.row t row.id).text) →
    (∀ column value, (assigned fields column).isSome →
      key ≠ (Key.index t column value).text) → s'.get? key = s.get? key

/-- To assign fields to the rows of a list assigns them in the store. -/
theorem Holds.assigned {ids : List RowId} {fields : List (String × String)}
    (hs : s.Holds (tb.image.on t l))
    (hs' : s'.Holds ((tb.assign ids (OrderedMap.ofList fields)).image.on t l)) (ht : t.Tagged)
    (hv : tb.Valid) (hids : ∀ id ∈ ids, id ∈ tb.rows) :
    s.Assigned s' t (ids.map tb.row) fields := by
  constructor
  case changed =>
    intro row hrow column
    obtain ⟨id, hid, rfl⟩ := List.mem_map.mp hrow
    rw [hs'.row_on ht, hs.row_on ht]
    show (tb.assign ids (OrderedMap.ofList fields)).cell id column = _
    rw [Table.cell_assign, if_pos ⟨hid, hids id hid⟩, OrderedMap.get?_ofList]
    rfl
  case row_kept =>
    intro id hid
    refine hs.get?_text_eq hs' (k := .row t id) ht fun htable => ?_
    refine tb.entry_assign htable (fun id' hid' heq => ?_) nofun
    exact hid (tb.row id') (List.mem_map_of_mem hid') (Key.row.inj heq).2.symm
  case members =>
    refine hs.get?_text_eq hs' (k := .rows t) ht fun htable => ?_
    exact tb.entry_assign htable nofun nofun
  case counter => exact hs.get?_text_eq hs' (k := .counter t) ht fun _ => rfl
  case schema => exact hs.get?_text_eq hs' (k := .schema t) ht.1 fun _ => rfl
  case indexed => exact hs.get?_text_eq hs' (k := .indexed t) ht fun _ => rfl
  case moved =>
    intro column hcolumn value hvalue row hrow value'
    obtain ⟨id, hid, rfl⟩ := List.mem_map.mp hrow
    rw [hs.indexed_on ht] at hcolumn
    have hcell : (tb.assign ids (OrderedMap.ofList fields)).cell id column = some value := by
      rw [Table.cell_assign, if_pos ⟨hid, hids id hid⟩, OrderedMap.get?_ofList, hvalue,
        Option.some_or]
    rw [hs'.index_on ht (hv.indexed_name hcolumn), Table.mem_index]
    constructor
    · rintro ⟨-, id', hcell', heq⟩
      obtain rfl : id' = id := Text.toString_injective heq
      exact Option.some.inj (hcell'.symm.trans hcell)
    · rintro rfl
      exact ⟨hcolumn, id, hcell, rfl⟩
  case index_kept =>
    intro column value x hx
    obtain ⟨column', value', hproper, htext⟩ := Key.exists_proper_index ht column value
    rw [← htext, hs'.index_on ht hproper.2, hs.index_on ht hproper.2, Table.mem_index,
      Table.mem_index]
    refine and_congr_right fun _ => exists_congr fun id => and_congr_left fun heq => ?_
    have hid : id ∉ ids := fun hid => hx (tb.row id) (List.mem_map_of_mem hid) heq.symm
    rw [Table.cell_assign, if_neg fun h => hid h.1]
  case elsewhere =>
    intro key hrow hindex
    refine hs.get?_eq hs' fun k htable htext => tb.entry_assign htable ?_ ?_
    · rintro id hid rfl
      exact hrow (tb.row id) (List.mem_map_of_mem hid) htext.symm
    · rintro column value hcolumn rfl
      rw [OrderedMap.mem_iff_isSome, OrderedMap.get?_ofList] at hcolumn
      exact hindex column value hcolumn htext.symm

/-- An update that succeeds counts the rows that its clause selects in the store before, also where
the clause tests columns that are assigned, and these rows have been assigned the fields. -/
theorem Reachable.update_exact (h : s.Reachable) (ht : s.HasTable t) {limit n : Nat}
    {w : Option WhereClause} {fields : List (String × String)}
    (hok : (Engine.update limit t w fields).exec ⟨s, none⟩ = (.ok n, ⟨s', none⟩)) :
    ∃ rows, (Engine.select limit t w).exec ⟨s, none⟩ = (.ok rows, ⟨s, none⟩) ∧ n = rows.length ∧
      s.Assigned s' t rows fields := by
  obtain ⟨db, hdb, hmem, hs⟩ := h.exists_table ht
  have hv := hdb.table_valid t
  have htag := hdb.tagged hmem
  have hrefines : StoreM.Refines (Engine.update limit t w fields) t (fun _ => ∅) db.layout _ _ :=
    StoreM.refines_update ⟨htag.1, fun _ => htag⟩ hv .ascending w fields
  obtain ⟨tb', hupdate, hs'⟩ := hrefines.exec_ok hs hok
  obtain ⟨-, -, new, ids, hnew, hids, rfl, rfl⟩ := Reference.update_eq_ok hupdate
  obtain rfl := Engine.checkFields_eq_ofList hnew
  refine ⟨ids.map (db.table t).row, ?_, (List.length_map ..).symm, ?_⟩
  · rw [hs.exec_select_on htag hv, Reference.select, hids]
    rfl
  · exact hs.assigned hs' htag hv fun _ => Table.mem_rows_of_reference hids

/-- The only row has other values for both columns. -/
def sampleAssigned : Store :=
  let t : TableName := ⟨"app", "users"⟩
  OrderedMap.ofList
    [((Key.marker "app").text, .text "1"),
     ((Key.schema t).text, .hash (OrderedMap.ofList [("age", "integer"), ("name", "string")])),
     ((Key.indexed t).text, .set (OrderedSet.ofMembers ["name"])),
     ((Key.counter t).text, .text "1"),
     ((Key.rows t).text, .set (OrderedSet.ofMembers ["1"])),
     ((Key.row t 1).text, .hash (OrderedMap.ofList [("age", "8"), ("name", "cid")])),
     ((Key.index t "name" "cid").text, .set (OrderedSet.ofMembers ["1"]))]

/-- The clause tests both columns that are assigned, one of them twice. -/
theorem sample_update_exact :
    let t : TableName := ⟨"app", "users"⟩
    let w : Option WhereClause := some ⟨⟨"name", .eq, "ann"⟩, [(.and, ⟨"age", .gt, "6"⟩)]⟩
    let fields := [("name", "bob"), ("age", "8"), ("name", "cid")]
    sample.Reachable ∧ sample.HasTable t ∧
      (Engine.update 1 t w fields).exec ⟨sample, none⟩ = (.ok 1, ⟨sampleAssigned, none⟩) ∧
      ∃ rows, (Engine.select 1 t w).exec ⟨sample, none⟩ = (.ok rows, ⟨sample, none⟩) ∧
        1 = rows.length ∧ sample.Assigned sampleAssigned t rows fields := by
  intro t w fields
  have ht : sample.HasTable t := of_decide_eq_true (by cbv)
  have hok : (Engine.update 1 t w fields).exec ⟨sample, none⟩ =
      (.ok 1, ⟨sampleAssigned, none⟩) := by cbv
  exact ⟨sample_reachable, ht, hok, sample_reachable.update_exact ht hok⟩

end Store

end Tabular
