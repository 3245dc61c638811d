import Tabular.Proofs.Assignment
import Tabular.Proofs.Retry

/-!
What a deletion makes of a table. The selected rows leave the set of rows, their own keys and all
index sets, and a set that loses its last member loses its key; nothing else in the store changes
(`Removed`). So the same deletion finds no row when it is run again (`Reachable.delete_exact`).
-/

namespace Tabular

/-! ### Entries that are never kept -/

theorem Image.not_vacant {img : Image} {k : Key} {e : Entry} (h : img.entry k = some e) :
    ¬ e.Vacant := by
  cases k with
  | marker ns => cases h
  | counter t => exact Entry.not_vacant_ofCount h
  | schema t | row t id => exact Entry.not_vacant_ofHash h
  | indexed t | rows t | index t column value => exact Entry.not_vacant_ofSet h

theorem Database.not_vacant {db : Database} {k : Key} {e : Entry} (h : db.layout k = some e) :
    ¬ e.Vacant := by
  cases ht : k.table? with
  | some t =>
      rw [layout_of_table ht] at h
      exact Image.not_vacant h
  | none =>
      cases k with
      | marker ns =>
          rw [layout_marker] at h
          split at h
          · cases h
            exact id
          · cases h
      | _ => cases ht

namespace Table

variable {tb : Table} {ids : List RowId}

/-- No row has the number zero. -/
theorem Valid.zero_notMem (hv : tb.Valid) : 0 ∉ tb.rows :=
  fun h => absurd (hv.row_number h).1 (by decide)

theorem members_delete : (tb.delete ids).ids.members = tb.ids.members.filter (· ∉ ids) := by
  have hmembers (tb : Table) : tb.ids.members = tb.rows.keys := List.map_map ..
  rw [hmembers, hmembers, delete, OrderedMap.keys_filter]

/-- Of the rows of the table those are left that are not deleted, as they were. -/
theorem map_row_delete : (tb.delete ids).ids.members.map (tb.delete ids).row =
    (tb.ids.members.map tb.row).filter (· ∉ ids.map tb.row) := by
  have hmem (id : RowId) : tb.row id ∈ ids.map tb.row ↔ id ∈ ids := by
    rw [List.mem_map]
    constructor
    · rintro ⟨id', hid', heq⟩
      obtain rfl : id' = id := congrArg Row.id heq
      exact hid'
    · exact fun hid => ⟨id, hid, rfl⟩
  have hrow : ∀ id ∈ tb.ids.members.filter (· ∉ ids), (tb.delete ids).row id = tb.row id := by
    intro id hid
    have hnot : id ∉ ids := of_decide_eq_true (List.mem_filter.mp hid).2
    rw [row, row, fields_delete, if_neg hnot]
  have hkept : (fun row => decide (row ∉ ids.map tb.row)) ∘ tb.row =
      fun id => decide (id ∉ ids) := by
    funext id
    exact decide_eq_decide.mpr (not_congr (hmem id))
  rw [List.filter_map, hkept, members_delete]
  exact List.map_congr_left hrow

/-- A key keeps what it holds unless it is of a row that is deleted, of the set of rows or of an
index set. -/
theorem entry_delete (tb : Table) {k : Key} {t : TableName} (hk : k.table? = some t)
    (hrows : k ≠ .rows t) (hrow : ∀ id ∈ ids, k ≠ .row t id)
    (hindex : ∀ column value, k ≠ .index t column value) :
    (tb.delete ids).image.entry k = tb.image.entry k := by
  cases k with
  | marker ns => cases hk
  | schema _ | indexed _ | counter _ => rfl
  | rows _ => exact (hrows (congrArg Key.rows (Option.some.inj hk))).elim
  | index _ column value =>
      obtain rfl := Option.some.inj hk
      exact (hindex column value rfl).elim
  | row _ id =>
      obtain rfl := Option.some.inj hk
      have hid : id ∉ ids := fun hid => hrow id hid rfl
      show Entry.ofHash ((tb.delete ids).fields id) = Entry.ofHash (tb.fields id)
      rw [fields_delete, if_neg hid]

end Table

namespace Store

variable {s s' : Store} {t : TableName} {db : Database} {l : Layout} {img : Image} {tb : Table}
variable {ids : List RowId}

/-- In one store some rows have been selected, and in the other one they have been deleted. -/
structure Removed (s s' : Store) (t : TableName) (rows : List Row) : Prop where
  /-- A query without a clause finds the other rows, as they were. -/
  others : ∃ all, ∀ limit,
    (Engine.select limit t none).exec ⟨s, none⟩ = (.ok all, ⟨s, none⟩) ∧
    (Engine.select limit t none).exec ⟨s', none⟩ = (.ok (all.filter (· ∉ rows)), ⟨s', none⟩)
  /-- The set of rows has lost the deleted rows. -/
  members : ∀ x, x ∈ s'.membersAt (Key.rows t).text ↔
    x ∈ s.membersAt (Key.rows t).text ∧ ∀ row ∈ rows, x ≠ toString row.id
  /-- Every index set has lost the deleted rows. -/
  index : ∀ column value x, x ∈ s'.membersAt (Key.index t column value).text ↔
    x ∈ s.membersAt (Key.index t column value).text ∧ ∀ row ∈ rows, x ≠ toString row.id
  row_gone : ∀ row ∈ rows, (Key.row t row.id).text ∉ s'
  counter : s'.get? (Key.counter t).text = s.get? (Key.counter t).text
  schema : s'.get? (Key.schema t).text = s.get? (Key.schema t).text
  indexed : s'.get? (Key.indexed t).text = s.get? (Key.indexed t).text
  /-- What has lost all that it held has no key. -/
  not_vacant : ∀ key e, s'.get? key = some e → ¬ e.Vacant
  /-- The set of rows, the keys of the deleted rows and the index sets are all that has changed in
  the store. -/
  elsewhere : ∀ key, key ≠ (Key.rows t).text → (∀ row ∈ rows, key ≠ (Key.row t row.id).text) →
    (∀ column value, key ≠ (Key.index t column value).text) → s'.get? key = s.get? key

theorem Holds.not_vacant (hs : s.Holds (img.on t db.layout)) {key : String} {e : Entry}
    (he : s.get? key = some e) : ¬ e.Vacant := by
  obtain ⟨k, -, -, hlayout⟩ := hs.exists_of_get? he
  by_cases ht : k.table? = some t
  · rw [Image.on_of_table ht] at hlayout
    exact Image.not_vacant hlayout
  · rw [Image.on_of_ne ht] at hlayout
    exact Database.not_vacant hlayout

/-- To delete the rows of a list removes them from the store. -/
theorem Holds.removed (hs : s.Holds (tb.image.on t db.layout))
    (hs' : s'.Holds ((tb.delete ids).image.on t db.layout)) (ht : t.Tagged) (hv : tb.Valid)
    (hthere : tb.columns.isEmpty = false) : s.Removed s' t (ids.map tb.row) := by
  have hne (x : String) : (∀ row ∈ ids.map tb.row, x ≠ toString row.id) ↔
      ∀ id ∈ ids, x ≠ toString id := List.forall_mem_map
  constructor
  case others =>
    refine ⟨tb.ids.members.map tb.row, fun limit => ⟨?_, ?_⟩⟩
    · rw [hs.exec_select_on ht hv, Reference.select_all limit hthere]
    · have hall : Reference.select limit t (tb.delete ids) none = _ :=
        Reference.select_all limit hthere
      rw [hs'.exec_select_on ht (hv.delete ids), hall, Table.map_row_delete]
  case members =>
    intro x
    rw [hs'.members_on ht, hs.members_on ht, hne]
    show x ∈ (tb.delete ids).ids.texts ↔ x ∈ tb.ids.texts ∧ _
    simp only [RowSet.mem_texts, Table.mem_ids_delete]
    exact exists_text_iff
  case index =>
    intro column value x
    obtain ⟨column', value', hproper, htext⟩ := Key.exists_proper_index ht column value
    rw [← htext, hs'.index_on ht hproper.2, hs.index_on ht hproper.2, hne, Table.mem_index,
      Table.mem_index, and_assoc]
    refine and_congr_right fun _ => ?_
    simp only [Table.cell_delete]
    exact exists_text_iff
  case row_gone =>
    intro row hrow
    obtain ⟨id, hid, rfl⟩ := List.mem_map.mp hrow
    have hgone : (tb.delete ids).image.entry (.row t id) = none := by
      show Entry.ofHash ((tb.delete ids).fields id) = none
      rw [Table.fields_delete, if_pos hid, Entry.ofHash_empty]
    rw [← OrderedMap.get?_eq_none_iff]
    exact (hs'.get?_on (k := .row t id) ht rfl).trans hgone
  case counter => exact hs.get?_text_eq hs' (k := .counter t) ht fun _ => rfl
  case schema => exact hs.get?_text_eq hs' (k := .schema t) ht.1 fun _ => rfl
  case indexed => exact hs.get?_text_eq hs' (k := .indexed t) ht fun _ => rfl
  case not_vacant => exact fun key e he => hs'.not_vacant he
  case elsewhere =>
    intro key hrows hrow hindex
    refine hs.get?_eq hs' fun k htable htext => tb.entry_delete htable ?_ ?_ ?_
    · rintro rfl
      exact hrows htext.symm
    · rintro id hid rfl
      exact hrow (tb.row id) (List.mem_map_of_mem hid) htext.symm
    · rintro column value rfl
      exact hindex column value htext.symm

/-- A deletion finds no row when it is run again, and it is not refused. -/
theorem Holds.delete_again (hs : s.Holds (tb.image.on t l))
    (hs' : s'.Holds ((tb.delete ids).image.on t l)) (ht : t.Tagged) (hv : tb.Valid) {limit : Nat}
    {w : Option WhereClause} (hids : Reference.rows limit t tb w = .ok ids) :
    (Engine.delete limit t w).exec ⟨s', none⟩ = (.ok 0, ⟨s', none⟩) := by
  have hn : t.Names tb := ⟨ht.1, fun _ => ht⟩
  have hn' : t.Names (tb.delete ids) := ⟨ht.1, fun _ => ht⟩
  have himage := (hs.rows_image hn hv limit w).2.trans hids
  have hdeleted : (tb.delete ids).image.Deleting tb ids :=
    ⟨ids, 0, fun _ hid => hid, Or.inr hv.zero_notMem, .of_table _ 0⟩
  obtain ⟨again, _, hsub, -, hagain, -, hruns⟩ :=
    StoreM.runs_delete_of_deleting (l := l) hn hv himage hdeleted
  -- the plan goes by the columns, which are the same
  have hagain' : (tb.delete ids).image.rows limit t (tb.delete ids) w = .ok again := hagain
  rw [(hs'.rows_image hn' (hv.delete ids) limit w).2] at hagain'
  have hnone : again = [] := by
    apply List.eq_nil_iff_forall_not_mem.mpr
    intro id hid
    have hleft := Table.mem_ids.mpr (Table.mem_rows_of_reference hagain' hid)
    exact (Table.mem_ids_delete.mp hleft).1 (hsub id hid)
  subst hnone
  exact (hruns .ascending).exec_eq hs'

/-- A deletion that succeeds counts the rows that its clause selects in the store before, and removes
these and nothing else. Run again, it removes no row, and the store stays as it is. -/
theorem Reachable.delete_exact (h : s.Reachable) (ht : s.HasTable t) {limit n : Nat}
    {w : Option WhereClause}
    (hok : (Engine.delete limit t w).exec ⟨s, none⟩ = (.ok n, ⟨s', none⟩)) :
    ∃ rows, (Engine.select limit t w).exec ⟨s, none⟩ = (.ok rows, ⟨s, none⟩) ∧ n = rows.length ∧
      s.Removed s' t rows ∧
      (Engine.delete limit t w).exec ⟨s', none⟩ = (.ok 0, ⟨s', none⟩) := by
  obtain ⟨db, hdb, hmem, hs⟩ := h.exists_table ht
  have hv := hdb.table_valid t
  have htag := hdb.tagged hmem
  have hrefines : StoreM.Refines (Engine.delete limit t w) t (fun _ => ∅) db.layout _ _ :=
    StoreM.refines_delete ⟨htag.1, fun _ => htag⟩ hv .ascending w
  obtain ⟨tb', hdelete, hs'⟩ := hrefines.exec_ok hs hok
  obtain ⟨ids, hids, hdelete⟩ := bind_eq_ok.mp hdelete
  obtain ⟨rfl, rfl⟩ := Prod.mk.inj (Except.ok.inj hdelete)
  refine ⟨ids.map (db.table t).row, ?_, (List.length_map ..).symm, ?_, ?_⟩
  · rw [hs.exec_select_on htag hv, Reference.select, hids]
    rfl
  · exact hs.removed hs' htag hv (hdb.mem_tables_iff.mp hmem)
  · exact hs.delete_again hs' htag hv hids

/-- The only row is gone, and with it the set of rows and the only index set. -/
def sampleRemoved : Store :=
  let t : TableName := ⟨"app", "users"⟩
  OrderedMap.ofList
    [((Key.marker "app").text, .text "1"),
     ((Key.schema t).text, .hash (OrderedMap.ofList [("age", "integer"), ("name", "string")])),
     ((Key.indexed t).text, .set (OrderedSet.ofMembers ["name"])),
     ((Key.counter t).text, .text "1")]

theorem sample_delete_exact :
    let t : TableName := ⟨"app", "users"⟩
    let w : Option WhereClause := some ⟨⟨"name", .eq, "ann"⟩, [(.and, ⟨"age", .gt, "6"⟩)]⟩
    sample.Reachable ∧ sample.HasTable t ∧
      (Engine.delete 1 t w).exec ⟨sample, none⟩ = (.ok 1, ⟨sampleRemoved, none⟩) ∧
      ∃ rows, (Engine.select 1 t w).exec ⟨sample, none⟩ = (.ok rows, ⟨sample, none⟩) ∧
        1 = rows.length ∧ sample.Removed sampleRemoved t rows ∧
        (Engine.delete 1 t w).exec ⟨sampleRemoved, none⟩ = (.ok 0, ⟨sampleRemoved, none⟩) := by
  intro t w
  have ht : sample.HasTable t := of_decide_eq_true (by cbv)
  have hok : (Engine.delete 1 t w).exec ⟨sample, none⟩ = (.ok 1, ⟨sampleRemoved, none⟩) := by cbv
  exact ⟨sample_reachable, ht, hok, sample_reachable.delete_exact ht hok⟩

end Store

end Tabular
