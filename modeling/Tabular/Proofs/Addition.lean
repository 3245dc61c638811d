import Tabular.Proofs.Assignment
import Tabular.Proofs.Calls
import Tabular.Proofs.Naming
import Tabular.Proofs.Transparency

/-!
What an insertion makes of a table, and when there is one. The fields given are checked one by one,
also those whose value is given again later, and the counter has to have a number left. Then the
new row comes last, under a number that no row has had, and can be asked for by each of its values
in indexed columns (`Reachable.insert_exact`).
-/

namespace Tabular

theorem OrderedMap.mem_toList_ofList {fields : List (String × String)} {column value : String} :
    (column, value) ∈ (OrderedMap.ofList fields).toList ↔ assigned fields column = some value := by
  rw [← OrderedMap.get?_eq_some_iff, OrderedMap.get?_ofList]

namespace Reference

variable {t : TableName} {tb : Table}

/-- A row is appended if and only if the table is there and admits the fields, as long as there is
a number for it. -/
theorem insert_eq_ok_iff (hlast : (tb.last : Int) < Text.maxInt64) {fields : List (String × String)}
    {id : RowId} {tb' : Table} : insert t tb fields = .ok (id, tb') ↔
      (tb.columns.isEmpty = false ∧ fields ≠ [] ∧ ∀ field ∈ fields, tb.Admits field.1 field.2) ∧
        id = tb.last + 1 ∧ tb' = tb.append (OrderedMap.ofList fields) := by
  constructor
  · intro h
    obtain ⟨hthere, hfields, -, rfl, checked, hchecked, rfl⟩ := insert_eq_ok h
    obtain ⟨hadmits, rfl⟩ := Engine.checkFields_eq_ok.mp hchecked
    exact ⟨⟨hthere, List.isEmpty_eq_false_iff.mp hfields, hadmits⟩, rfl, rfl⟩
  · rintro ⟨⟨hthere, hfields, hadmits⟩, rfl, rfl⟩
    refine bind_eq_ok.mpr ⟨(), ensure_eq_ok.mpr hthere, ?_⟩
    dsimp only
    rw [List.isEmpty_eq_false_iff.mpr hfields]
    refine bind_eq_ok.mpr ⟨_, Engine.checkFields_eq_ok.mpr ⟨hadmits, rfl⟩, ?_⟩
    exact if_pos hlast

/-- An index answers a query for one value of its column, whatever the limit. -/
theorem select_of_indexed (hthere : tb.columns.isEmpty = false) {column value : String}
    (hindexed : column ∈ tb.indexed) (hadmits : tb.Admits column value) (limit : Nat) :
    select limit t tb (some ⟨⟨column, .eq, value⟩, []⟩) =
      .ok ((tb.holding column value).members.map tb.row) := by
  obtain ⟨type, htype, haccepts⟩ := hadmits
  have hserves : tb.Serves ⟨column, .eq, value⟩ := ⟨rfl, hindexed⟩
  have hplan : Plan.ofClause t tb.columns tb.indexed ⟨⟨column, .eq, value⟩, []⟩ =
      .ok [.seed (.ofCondition tb.indexed ⟨column, .eq, value⟩ type)] :=
    Plan.ofClause_eq_ok.mpr
      ⟨type, [], Condition.resolve_eq_ok.mpr ⟨htype, haccepts⟩, fun _ => hindexed, rfl, rfl⟩
  refine select_eq_ok.mpr ⟨⟨_, bind_eq_ok.mpr ⟨(), ensure_eq_ok.mpr hthere, hplan⟩⟩, ?_, ?_⟩
  · intro n hn
    simp [Table.passes, Table.ownPasses, Table.restPasses, hserves] at hn
  · simp only [Table.meaning, Table.fullMatch, List.foldl_nil, if_pos hserves]

end Reference

namespace Store

variable {s s' : Store} {t : TableName} {l : Layout} {tb : Table}

/-- The schema declares the column of a field, with a type that accepts the value. -/
def Admits (s : Store) (t : TableName) (field : String × String) : Prop :=
  ∃ type : ColumnType, (s.fieldsAt (Key.schema t).text).get? field.1 = some type.name ∧
    type.accepts field.2 = true

/-- In one store fields have not been inserted yet, in the other one they are a row. -/
structure Inserted (s s' : Store) (t : TableName) (fields : List (String × String)) (row : Row) :
    Prop where
  sorted : row.fields.Pairwise fun a b => a.1 < b.1
  /-- The row has the last value for each column. -/
  values : ∀ column value, (column, value) ∈ row.fields ↔ assigned fields column = some value
  /-- The rows before are as they were, and the new one comes last. -/
  last : ∃ rows : List Row, (∀ old ∈ rows, old.id < row.id) ∧ ∀ limit,
    (Engine.select limit t none).exec ⟨s, none⟩ = (.ok rows, ⟨s, none⟩) ∧
    (Engine.select limit t none).exec ⟨s', none⟩ = (.ok (rows ++ [row]), ⟨s', none⟩)
  /-- A query for a value of the row in an indexed column finds the row. -/
  found : ∀ column ∈ s.membersAt (Key.indexed t).text, ∀ value, (column, value) ∈ row.fields →
    ∀ limit, ∃ rows,
      (Engine.select limit t (some ⟨⟨column, .eq, value⟩, []⟩)).exec ⟨s', none⟩ =
        (.ok rows, ⟨s', none⟩) ∧ row ∈ rows

theorem Holds.admits_iff (hs : s.Holds (tb.image.on t l)) (ht : t.Proper)
    {field : String × String} : s.Admits t field ↔ tb.Admits field.1 field.2 := by
  have htypes : s.fieldsAt (Key.schema t).text = tb.columns.mapValues ColumnType.name :=
    Store.fieldsAt_eq (hs.get?_on (k := .schema t) ht rfl)
  have hname {type type' : ColumnType} : type.name = type'.name ↔ type = type' :=
    ⟨fun h => by rw [← type.ofStored_name, h, type'.ofStored_name], congrArg _⟩
  refine exists_congr fun type => and_congr_left fun _ => ?_
  rw [htypes, OrderedMap.get?_mapValues]
  simp only [Option.map_eq_some_iff, hname, exists_eq_right]

theorem Holds.inserted {fields : List (String × String)} (hs : s.Holds (tb.image.on t l))
    (hs' : s'.Holds ((tb.append (OrderedMap.ofList fields)).image.on t l)) (ht : t.Tagged)
    (hv : tb.Valid) (hv' : (tb.append (OrderedMap.ofList fields)).Valid)
    (hthere : tb.columns.isEmpty = false) :
    s.Inserted s' t fields ⟨tb.last + 1, (OrderedMap.ofList fields).toList⟩ := by
  have hthere' : (tb.append (OrderedMap.ofList fields)).columns.isEmpty = false := hthere
  constructor
  case sorted => exact (OrderedMap.ofList fields).ascending
  case values => exact fun column value => OrderedMap.mem_toList_ofList
  case last =>
    refine ⟨tb.ids.members.map tb.row, ?_, fun limit => ⟨?_, ?_⟩⟩
    · intro old hold
      obtain ⟨id, hid, rfl⟩ := List.mem_map.mp hold
      exact Nat.lt_succ_of_le (hv.row_number (Table.mem_ids.mp (OrderedSet.mem_members.mp hid))).2
    · rw [hs.exec_select_on ht hv, Reference.select_all limit hthere]
    · rw [hs'.exec_select_on ht hv', Reference.select_all limit hthere', Table.rows_append hv]
  case found =>
    intro column hcolumn value hvalue limit
    rw [hs.indexed_on ht] at hcolumn
    have hcell : (tb.append (OrderedMap.ofList fields)).cell (tb.last + 1) column = some value := by
      rw [Table.cell, Table.fields_append, if_pos rfl]
      exact OrderedMap.get?_eq_some_iff.mpr hvalue
    have hnew := Reference.select_of_indexed (t := t) hthere' hcolumn (hv'.admitted hcell) limit
    refine ⟨_, by rw [hs'.exec_select_on ht hv', hnew], List.mem_map.mpr ⟨tb.last + 1, ?_, ?_⟩⟩
    · exact OrderedSet.mem_members.mpr (Table.mem_holding.mpr hcell)
    · rw [Table.row, Table.fields_append, if_pos rfl]

/-- A name with the same full name tells of the same insertion. -/
theorem Inserted.namesake {t' : TableName} (h : t.full = t'.full) {fields : List (String × String)}
    {row : Row} (hrow : s.Inserted s' t' fields row) : s.Inserted s' t fields row where
  sorted := hrow.sorted
  values := hrow.values
  last := by
    obtain ⟨rows, hlt, hselect⟩ := hrow.last
    refine ⟨rows, hlt, fun limit => ?_⟩
    obtain ⟨hbefore, hafter⟩ := hselect limit
    have hagree := StoreM.agree_select h .ascending limit none
    exact ⟨hagree.exec_eq_ok_iff.mpr hbefore, hagree.exec_eq_ok_iff.mpr hafter⟩
  found column hcolumn value hvalue limit := by
    have htext : (Key.indexed t).text = (Key.indexed t').text := by simp only [Key.text, h]
    obtain ⟨rows, hselect, hmem⟩ := hrow.found column (htext ▸ hcolumn) value hvalue limit
    exact ⟨rows, (StoreM.agree_select h .ascending limit _).exec_eq_ok_iff.mpr hselect, hmem⟩

theorem Admits.namesake {t' : TableName} (h : t.full = t'.full) {field : String × String} :
    s.Admits t field ↔ s.Admits t' field := by
  simp only [Admits, Key.text, h]

theorem Reachable.insert_of_table (h : s.Reachable) (ht : s.HasTable t)
    (hlast : (s.lastOf t : Int) < Text.maxInt64) (fields : List (String × String)) :
    ((∃ id s', (Engine.insert t fields).exec ⟨s, none⟩ = (.ok id, ⟨s', none⟩)) ↔
      fields ≠ [] ∧ ∀ field ∈ fields, s.Admits t field) ∧
    ∀ id s', (Engine.insert t fields).exec ⟨s, none⟩ = (.ok id, ⟨s', none⟩) →
      ∃ row, row.id = id ∧ s.Inserted s' t fields row := by
  obtain ⟨db, hdb, hs⟩ := h.exists_database
  have hmem := (hs.hasTable_iff hdb).mp ht
  have htag := hdb.tagged hmem
  have hv := hdb.table_valid t
  have hthere := hdb.mem_tables_iff.mp hmem
  rw [hs.lastOf hdb htag] at hlast
  rw [db.layout_on t] at hs
  have hrefines : StoreM.Refines (Engine.insert t fields) t (fun _ => ∅) db.layout _ _ :=
    StoreM.refines_insert ⟨htag.1, fun _ => htag⟩ hv fields
  have hadmits : (∀ field ∈ fields, s.Admits t field) ↔
      ∀ field ∈ fields, (db.table t).Admits field.1 field.2 :=
    forall₂_congr fun field _ => hs.admits_iff htag.1
  rw [hadmits]
  refine ⟨⟨?_, ?_⟩, ?_⟩
  · rintro ⟨id, s', hok⟩
    obtain ⟨tb', hinsert, -⟩ := hrefines.exec_ok hs hok
    exact ((Reference.insert_eq_ok_iff hlast).mp hinsert).1.2
  · intro hfields
    have hinsert := (Reference.insert_eq_ok_iff (t := t) hlast).mpr ⟨⟨hthere, hfields⟩, rfl, rfl⟩
    rw [hinsert] at hrefines
    obtain ⟨s', hexec, -⟩ := hrefines.exists_exec hs
    exact ⟨_, s', hexec⟩
  · intro id s' hok
    obtain ⟨tb', hinsert, hs'⟩ := hrefines.exec_ok hs hok
    obtain ⟨⟨-, hne, hfields⟩, rfl, rfl⟩ := (Reference.insert_eq_ok_iff hlast).mp hinsert
    have hchecked : Engine.checkFields t (db.table t).columns fields = .ok (.ofList fields) :=
      Engine.checkFields_eq_ok.mpr ⟨hfields, rfl⟩
    have hnew := Engine.isEmpty_checkFields hchecked (List.isEmpty_eq_false_iff.mpr hne)
    have hv' := hv.append hlast hnew (Engine.checkFields_admits hchecked)
    exact ⟨_, rfl, hs.inserted hs' htag hv hv' hthere⟩

/-- As long as the counter is below the greatest number, an insertion succeeds if and only if the
table is there, some fields are given and the schema admits them all. It gives the number of a row
that has the last value for each column, comes after all others and is found by its values in
indexed columns. -/
theorem Reachable.insert_exact (h : s.Reachable) (hlast : (s.lastOf t : Int) < Text.maxInt64)
    (fields : List (String × String)) :
    ((∃ id s', (Engine.insert t fields).exec ⟨s, none⟩ = (.ok id, ⟨s', none⟩)) ↔
      s.keyType (Key.schema t).text = .hash ∧ fields ≠ [] ∧ ∀ field ∈ fields, s.Admits t field) ∧
    ∀ id s', (Engine.insert t fields).exec ⟨s, none⟩ = (.ok id, ⟨s', none⟩) →
      ∃ row, row.id = id ∧ s.Inserted s' t fields row := by
  by_cases hthere : s.keyType (Key.schema t).text = .hash
  · obtain ⟨db, hdb, hs⟩ := h.exists_database
    obtain ⟨t', hname, ht'⟩ := hs.exists_namesake hdb hthere
    have hcounter : s.lastOf t = s.lastOf t' := by simp only [lastOf, Key.text, hname]
    rw [hcounter] at hlast
    have hagree := StoreM.agree_insert hname fields
    obtain ⟨hiff, heffect⟩ := h.insert_of_table ht' hlast fields
    simp only [hagree.exec_eq_ok_iff, Admits.namesake hname, and_iff_right hthere]
    refine ⟨hiff, fun id s' hok => ?_⟩
    obtain ⟨row, hid, hrow⟩ := heffect id s' hok
    exact ⟨row, hid, hrow.namesake hname⟩
  · -- there is no such table, and the first check fails
    have hfails : (Engine.insert t fields).exec ⟨s, none⟩ =
        (.error (.tableNotFound t), ⟨s, none⟩) := (StoreM.needs_ensureTable t).bind s hthere
    rw [hfails]
    refine ⟨iff_of_false ?_ fun hall => hthere hall.1, ?_⟩
    · rintro ⟨id, s', hok⟩
      cases hok
    · intro id s' hok
      cases hok

/-- The name is given twice, and the later value counts. -/
theorem sample_insert_exact :
    let t : TableName := ⟨"app", "users"⟩
    let fields := [("name", "bob"), ("age", "8"), ("name", "cid")]
    sample.Reachable ∧ (sample.lastOf t : Int) < Text.maxInt64 ∧
      (Engine.insert t fields).exec ⟨sample, none⟩ = (.ok 2, ⟨sampleInserted, none⟩) ∧
      ∃ row, row.id = 2 ∧ sample.Inserted sampleInserted t fields row := by
  intro t fields
  have hcounter : sample.lastOf t = 1 := by cbv
  have hlast : (sample.lastOf t : Int) < Text.maxInt64 := by
    rw [hcounter]
    decide
  have hok : (Engine.insert t fields).exec ⟨sample, none⟩ =
      (.ok 2, ⟨sampleInserted, none⟩) := by cbv
  exact ⟨sample_reachable, hlast, hok, (sample_reachable.insert_exact hlast fields).2 2 _ hok⟩

end Store

end Tabular
