import Tabular.Proofs.Candidates
import Tabular.Proofs.Counter

/-!
Deletions that a failure cuts short, and that are repeated. A row is taken out of the indexes one by
one, then its fields go, then its number. So what a cut leaves is the table without the rows before
it, but for one row, which may lack something (`Image.Lacks`, `cutsTo_delete`). The same deletion
run again finds the rows that are left over, that one row perhaps not. If it finds it, a table is left
(`Image.Lacks.delete`); if not, the row stays.
-/

namespace Tabular

/-- A text is that of a row of a family that is not in a list. -/
theorem exists_text_iff {ids : List RowId} {p : RowId → Prop} {x : String} :
    (∃ id, (id ∉ ids ∧ p id) ∧ toString id = x) ↔
      (∃ id, p id ∧ toString id = x) ∧ ∀ id ∈ ids, x ≠ toString id := by
  constructor
  · rintro ⟨id, ⟨hnot, hid⟩, rfl⟩
    exact ⟨⟨id, hid, rfl⟩, fun id' hid' heq => hnot (Text.toString_injective heq ▸ hid')⟩
  · rintro ⟨⟨id, hid, rfl⟩, hne⟩
    exact ⟨id, ⟨fun hmem => hne id hmem rfl, hid⟩, rfl⟩

/-! ### Rows deleted from an image -/

namespace Image

variable {img : Image} {id : RowId} {ids : List RowId} {at_ : String × String} {x : String}

theorem row_deleteRow (id' : RowId) :
    (img.deleteRow id).row id' = if id' = id then ∅ else img.row id' := by
  rw [deleteRow, removeAll_eq]
  exact row_setRow ..

theorem indexed_deleteRow : (img.deleteRow id).indexed = img.indexed := by
  rw [deleteRow, removeAll_eq]
  rfl

theorem mem_index_deleteRow : x ∈ (img.deleteRow id).index at_ ↔
    ¬ (at_.1 ∈ img.indexed ∧ (img.row id).get? at_.1 = some at_.2 ∧ x = toString id) ∧
      x ∈ img.index at_ := mem_removeAll

/-- The image without the rows of a list. -/
def delete (img : Image) (ids : List RowId) : Image := ids.foldl deleteRow img

theorem delete_eq (ids : List RowId) : img.delete ids =
    { img with
      members := (img.delete ids).members
      row := (img.delete ids).row
      index := (img.delete ids).index } := by
  induction ids generalizing img with
  | nil => rfl
  | cons id rest ih =>
      have hcons : img.delete (id :: rest) = (img.deleteRow id).delete rest := rfl
      rw [hcons, ih, deleteRow, removeAll_eq]
      rfl

theorem mem_members_delete :
    x ∈ (img.delete ids).members ↔ x ∈ img.members ∧ ∀ id ∈ ids, x ≠ toString id := by
  induction ids generalizing img with
  | nil => simp [delete]
  | cons id rest ih =>
      have hmembers : (img.deleteRow id).members = img.members.erase (toString id) := rfl
      rw [delete, List.foldl_cons, ← delete, ih, hmembers, OrderedMap.mem_erase,
        List.forall_mem_cons, and_assoc, and_left_comm]

theorem row_delete (id' : RowId) :
    (img.delete ids).row id' = if id' ∈ ids then ∅ else img.row id' := by
  induction ids generalizing img with
  | nil => simp [delete]
  | cons id rest ih =>
      rw [delete, List.foldl_cons, ← delete, ih, row_deleteRow]
      by_cases hid : id' = id <;> by_cases hrest : id' ∈ rest <;> simp [hid, hrest]

theorem mem_index_delete : x ∈ (img.delete ids).index at_ ↔
    x ∈ img.index at_ ∧ ∀ id ∈ ids,
      ¬ (at_.1 ∈ img.indexed ∧ (img.row id).get? at_.1 = some at_.2 ∧ x = toString id) := by
  induction ids generalizing img with
  | nil => simp [delete]
  | cons id rest ih =>
      rw [delete, List.foldl_cons, ← delete, ih, mem_index_deleteRow, indexed_deleteRow,
        List.forall_mem_cons, and_comm (b := x ∈ img.index at_), and_assoc]
      refine and_congr_right fun _ => and_congr_right fun hid => forall₂_congr fun id' _ => ?_
      rw [row_deleteRow]
      split
      · next heq => exact iff_of_true (by simp) (heq ▸ hid)
      · rfl

end Image

namespace Table

variable {tb : Table} {ids : List RowId}

theorem fields_delete (id : RowId) :
    (tb.delete ids).fields id = if id ∈ ids then ∅ else tb.fields id := by
  by_cases h : id ∈ ids <;> simp [fields, delete, h]

theorem cell_delete {id : RowId} {column value : String} :
    (tb.delete ids).cell id column = some value ↔ id ∉ ids ∧ tb.cell id column = some value := by
  rw [cell, fields_delete]
  by_cases h : id ∈ ids <;> simp [cell, h]

/-- To delete rows in two goes is to delete them in one. -/
theorem delete_delete {done again : List RowId}
    (h : ∀ id ∈ tb.rows, id ∈ ids ↔ id ∈ done ∨ id ∈ again) :
    (tb.delete done).delete again = tb.delete ids := by
  rw [delete, delete, delete]
  congr 1
  ext id : 1
  rw [OrderedMap.get?_filter, OrderedMap.get?_filter, OrderedMap.get?_filter]
  by_cases hrow : id ∈ tb.rows
  · by_cases hd : id ∈ done <;> by_cases ha : id ∈ again <;> simp [h id hrow, hd, ha]
  · rw [OrderedMap.get?_eq_none_iff.mpr hrow]
    simp

theorem mem_ids_delete {id : RowId} : id ∈ (tb.delete ids).ids ↔ id ∉ ids ∧ id ∈ tb.ids := by
  rw [mem_ids, mem_ids, delete, OrderedMap.mem_filter, decide_eq_true_eq, and_comm]

end Table

/-! ### What a cut leaves -/

/-- The image is that of a table, but for one row. The row may lack its fields and may lack under its
values; without fields it is under none. -/
structure Image.Lacks (img : Image) (tb : Table) (id : RowId) : Prop where
  types : img.types = tb.image.types
  indexed : img.indexed = tb.indexed
  last : img.last = tb.last
  members : img.members = tb.ids.texts
  row_ne : ∀ {id'}, id' ≠ id → img.row id' = tb.fields id'
  row : img.row id = tb.fields id ∨ img.row id = ∅
  index_ne : ∀ {at_ x}, x ≠ toString id → (x ∈ img.index at_ ↔ x ∈ tb.image.index at_)
  index : ∀ {at_}, toString id ∈ img.index at_ →
    toString id ∈ tb.image.index at_ ∧ img.row id = tb.fields id

namespace Image.Lacks

variable {img : Image} {tb : Table} {id : RowId} {at_ : String × String} {x : String}

theorem of_table (tb : Table) (id : RowId) : tb.image.Lacks tb id :=
  ⟨rfl, rfl, rfl, rfl, fun _ => rfl, Or.inl rfl, fun _ => Iff.rfl, fun h => ⟨h, rfl⟩⟩

theorem removeAll (tb : Table) (id : RowId) (columns : List String) :
    (tb.image.removeAll id columns).Lacks tb id := by
  have hindex {at_ : String × String} {x : String} :
      x ∈ (tb.image.removeAll id columns).index at_ ↔
        ¬ (at_.1 ∈ columns ∧ (tb.image.row id).get? at_.1 = some at_.2 ∧ x = toString id) ∧
          x ∈ tb.image.index at_ := mem_removeAll
  rw [removeAll_eq]
  refine ⟨rfl, rfl, rfl, rfl, fun _ => rfl, Or.inl rfl, fun hx => ?_, fun hx => ?_⟩
  · exact hindex.trans (and_iff_right fun h => hx h.2.2)
  · exact ⟨(hindex.mp hx).2, rfl⟩

/-- Out of all indexes, the row may lose its fields. -/
theorem cleared (tb : Table) (id : RowId) :
    ((tb.image.removeAll id tb.indexed.members).setRow id ∅).Lacks tb id := by
  have hremoved := removeAll tb id tb.indexed.members
  have hrow (id' : RowId) : ((tb.image.removeAll id tb.indexed.members).setRow id ∅).row id' =
      if id' = id then ∅ else (tb.image.removeAll id tb.indexed.members).row id' := row_setRow ..
  refine ⟨hremoved.types, hremoved.indexed, hremoved.last, hremoved.members, fun hne => ?_,
    Or.inr ?_, hremoved.index_ne, fun {at_} hx => ?_⟩
  · rw [hrow, if_neg hne, hremoved.row_ne hne]
  · rw [hrow, if_pos rfl]
  · obtain ⟨hnot, hmem⟩ := mem_removeAll.mp hx
    obtain ⟨hindexed, id', hcell, heq⟩ := Table.mem_index.mp hmem
    obtain rfl := Text.toString_injective heq
    exact (hnot ⟨hindexed, hcell, rfl⟩).elim

variable (h : img.Lacks tb id)
include h

theorem mem_index (hx : x ∈ img.index at_) : x ∈ tb.image.index at_ := by
  by_cases hid : x = toString id
  · subst hid
    exact (h.index hx).1
  · exact (h.index_ne hid).mp hx

/-- A row that is under a value has its fields. -/
theorem row_of_mem_index {id' : RowId} (hx : toString id' ∈ img.index at_) :
    img.row id' = tb.fields id' := by
  by_cases hid : id' = id
  · subst hid
    exact (h.index hx).2
  · exact h.row_ne hid

section
variable {ids : List RowId} (hid : id ∈ ids ∨ id ∉ tb.rows)
include hid

/-- With the row deleted, every row has the fields that a table has for it. -/
theorem fields_delete (id' : RowId) : (img.delete ids).row id' = (tb.delete ids).fields id' := by
  rw [row_delete, Table.fields_delete]
  split
  · rfl
  · next hkept =>
      by_cases heq : id' = id
      · subst heq
        -- the row is none of those deleted, so that it is not in the table
        have hnone : tb.fields id' = ∅ := Table.fields_of_notMem (hid.resolve_left hkept)
        rcases h.row with hrow | hrow
        · exact hrow
        · rw [hrow, hnone]
      · exact h.row_ne heq

/-- With the row deleted, the index sets are those of a table. -/
theorem index_delete :
    x ∈ (img.delete ids).index at_ ↔ x ∈ (tb.delete ids).image.index at_ := by
  rw [mem_index_delete, Table.mem_index]
  constructor
  · rintro ⟨hx, hleft⟩
    obtain ⟨hi, id', hcell, rfl⟩ := Table.mem_index.mp (h.mem_index hx)
    have hkept : id' ∉ ids := fun hmem =>
      hleft id' hmem ⟨h.indexed ▸ hi, by rwa [h.row_of_mem_index hx], rfl⟩
    exact ⟨hi, id', Table.cell_delete.mpr ⟨hkept, hcell⟩, rfl⟩
  · rintro ⟨hi, id', hcell, rfl⟩
    obtain ⟨hkept, hcell⟩ := Table.cell_delete.mp hcell
    have hne : id' ≠ id := by
      rintro rfl
      exact hid.elim hkept fun hrow => hrow (Table.mem_rows_of_cell hcell)
    refine ⟨(h.index_ne fun heq => hne (Text.toString_injective heq)).mpr
      (Table.mem_index.mpr ⟨hi, id', hcell, rfl⟩), fun id'' hid'' hheld => ?_⟩
    exact hkept (Text.toString_injective hheld.2.2 ▸ hid'')

/-- To delete the row, among others, leaves the image of a table. -/
theorem delete : img.delete ids = (tb.delete ids).image := by
  rw [delete_eq]
  refine Image.ext h.types h.indexed h.last ?_ ?_ ?_
  · apply OrderedSet.ext_mem
    intro x
    show _ ↔ x ∈ (tb.delete ids).ids.texts
    rw [mem_members_delete, h.members, RowSet.mem_texts, RowSet.mem_texts]
    simp only [Table.mem_ids_delete]
    exact exists_text_iff.symm
  · funext id'
    exact h.fields_delete hid id'
  · funext at_
    apply OrderedSet.ext_mem
    intro x
    exact h.index_delete hid

end

omit h in
/-- Without some rows of the table, and with one that lacks something, an image is below that of the
table. All other rows are kept. -/
theorem below {tb : Table} {done : List RowId} (h : img.Lacks (tb.delete done) id)
    (hv : tb.Valid) : img.Below tb.image fun id' => id' ∉ done ∧ id' ≠ id := by
  -- the texts of rows are read back to their numbers
  have hread {id' id'' : RowId} (hid'' : id'' ∈ tb.ids)
      (hx : Text.nat64? (toString id'') = some id') : id'' = id' :=
    Option.some.inj ((Text.nat64?_toString (hv.id_le hid'')).symm.trans hx)
  refine ⟨fun {x} hx => ?_, fun {at_ x} hx => ?_, fun id' => ?_, fun {id' x} hkept hnat hx => ?_,
    fun {id' x at_} hkept hnat hx => ?_, fun {id'} hkept => ?_⟩
  · rw [h.members] at hx
    obtain ⟨id', hid', rfl⟩ := RowSet.mem_texts.mp hx
    exact RowSet.mem_texts.mpr ⟨id', (Table.mem_ids_delete.mp hid').2, rfl⟩
  · obtain ⟨hi, id', hcell, rfl⟩ := Table.mem_index.mp (h.mem_index hx)
    exact Table.mem_index.mpr ⟨hi, id', (Table.cell_delete.mp hcell).2, rfl⟩
  · have hfields : (tb.delete done).fields id' = tb.image.row id' ∨
        (tb.delete done).fields id' = ∅ := by
      rw [Table.fields_delete]
      split
      · exact Or.inr rfl
      · exact Or.inl rfl
    by_cases heq : id' = id
    · subst heq
      rcases h.row with hrow | hrow
      · rwa [hrow]
      · exact Or.inr hrow
    · rwa [h.row_ne heq]
  · obtain ⟨id'', hid'', rfl⟩ := RowSet.mem_texts.mp hx
    obtain rfl := hread hid'' hnat
    rw [h.members]
    exact RowSet.mem_texts.mpr ⟨id'', Table.mem_ids_delete.mpr ⟨hkept.1, hid''⟩, rfl⟩
  · obtain ⟨hi, id'', hcell, rfl⟩ := Table.mem_index.mp hx
    obtain rfl := hread (Table.mem_ids.mpr (Table.mem_rows_of_cell hcell)) hnat
    refine (h.index_ne fun heq => hkept.2 (Text.toString_injective heq)).mpr ?_
    exact Table.mem_index.mpr ⟨hi, id'', Table.cell_delete.mpr ⟨hkept.1, hcell⟩, rfl⟩
  · rw [h.row_ne hkept.2, Table.fields_delete, if_neg hkept.1]
    rfl

end Image.Lacks

/-- On the way to a table without the rows of a list, some of them are gone, and another one may lack
something. -/
def Image.Deleting (img : Image) (tb : Table) (ids : List RowId) : Prop :=
  ∃ done id, (∀ id' ∈ done, id' ∈ ids) ∧ (id ∈ ids ∨ id ∉ tb.rows) ∧ img.Lacks (tb.delete done) id

namespace StoreM

variable {t : TableName} {l : Layout} {tb : Table} {limit : Nat}

theorem steady_unindexColumn (t : TableName) (id : RowId) (column : String) :
    Steady (do
      if let some value ← hget (Key.row t id).text column then
        let _ ← srem (Key.index t column value).text (toString id)) := by
  refine Steady.bind (Reads.look _ _ rfl).steady fun value => ?_
  cases value with
  | none => exact Steady.ret _
  | some value => exact Steady.bind (Steady.call _ _) fun _ => Steady.ret _

theorem steady_unindexRow (t : TableName) (id : RowId) (columns : List String) :
    Steady (Engine.unindexRow t id columns) :=
  Steady.forM fun column => steady_unindexColumn t id column

theorem steady_deleteRow (order : Enumeration String) (t : TableName) (id : RowId) :
    Steady (Engine.deleteRowBy order t id) := by
  refine (reads_indexedColumns t).steady.bind fun indexed => ?_
  refine (steady_unindexRow t id _).bind fun _ => ?_
  exact Steady.bind (Steady.call _ _) fun _ => Steady.bind (Steady.call _ _) fun _ => Steady.ret _

section
variable (ht : t.Tagged)
include ht

/-- A row is taken from under its values column by column. -/
theorem cutsTo_unindexRow (img : Image) (id : RowId) {columns : List String}
    (hcolumns : ∀ column ∈ columns, ':' ∉ column.toList) :
    CutsTo (Engine.unindexRow t id columns) t l img fun img' =>
      ∃ done, img' = img.removeAll id done := by
  induction columns generalizing img with
  | nil => exact CutsTo.ret ()
  | cons column rest ih =>
      obtain ⟨hcolumn, hrest⟩ := List.forall_mem_cons.mp hcolumns
      have hnone : ∃ done, img = img.removeAll id done := ⟨[], rfl⟩
      have hget := runs_hget_row img (l := l) ht id column
      rw [Engine.unindexRow, List.forM_eq_forM, List.forM_cons]
      cases hvalue : (img.row id).get? column with
      | none =>
          rw [hvalue] at hget
          refine CutsTo.bind (steady_unindexColumn t id column)
            (CutsTo.look hnone (Reads.look _ _ rfl) hget (CutsTo.ret ()))
            (hget.bind (Runs.ret ())) ?_
          exact ih img hrest
      | some value =>
          rw [hvalue] at hget
          have hsrem := runs_srem_index img (l := l) ht hcolumn value id
          refine CutsTo.bind (steady_unindexColumn t id column)
            (CutsTo.look hnone (Reads.look _ _ rfl) hget (CutsTo.step hnone hsrem (CutsTo.ret ())))
            (hget.bind (hsrem.bind (Runs.ret ()))) ?_
          refine (ih (img.remove column value id) hrest).mono fun img' himg' => ?_
          obtain ⟨done, rfl⟩ := himg'
          refine ⟨column :: done, ?_⟩
          rw [Image.removeAll, hvalue]

/-- A cut deletion leaves a row that lacks any of its index entries, as the order has it. -/
theorem cutsTo_deleteRow (order : Enumeration String) (hv : tb.Valid) (id : RowId) :
    CutsTo (Engine.deleteRowBy order t id) t l tb.image (·.Lacks tb id) := by
  have hperm := order.perm tb.indexed
  have hcolumns : ∀ column ∈ order.list tb.indexed, ':' ∉ column.toList :=
    fun column hc => hv.indexed_name (OrderedSet.mem_members.mp (hperm.mem_iff.mp hc))
  have hremoved := Image.Lacks.removeAll tb id
  have hcleared := Image.Lacks.cleared tb id
  rw [← Image.removeAll_perm hperm] at hcleared
  obtain ⟨found, hdel⟩ := runs_del_row (tb.image.removeAll id (order.list tb.indexed)) (l := l) ht id
  refine CutsTo.look (.of_table tb id) (reads_indexedColumns t) (runs_indexedColumns ht) ?_
  refine CutsTo.bind (steady_unindexRow t id _) ?_ (runs_removeAll ht tb.image id hcolumns) ?_
  · refine (cutsTo_unindexRow ht tb.image id hcolumns).mono fun img himg => ?_
    obtain ⟨done, rfl⟩ := himg
    exact hremoved done
  · refine CutsTo.step (hremoved _) hdel ?_
    exact CutsTo.step hcleared (runs_srem_rows _ ht _) (CutsTo.ret ())

theorem cutsTo_deleteRows (columns : RowId → Enumeration String) (hv : tb.Valid)
    (ids : List RowId) :
    CutsTo (ids.forM fun id => Engine.deleteRowBy (columns id) t id) t l tb.image
      (Image.Deleting · tb ids) := by
  induction ids generalizing tb with
  | nil => exact CutsTo.ret ()
  | cons id rest ih =>
      rw [List.forM_eq_forM, List.forM_cons]
      have hdelete : Runs _ (tb.image.on t l) _ ((tb.deleteRow id).image.on t l) :=
        runs_deleteRow ht hv (columns id) id
      refine CutsTo.bind (steady_deleteRow _ t id) ?_ hdelete ?_
      · refine (cutsTo_deleteRow ht _ hv id).mono fun img himg => ?_
        refine ⟨[], id, nofun, Or.inl (List.mem_cons_self ..), ?_⟩
        rwa [Table.delete_nil]
      · refine (ih (hv.deleteRow id)).mono fun img himg => ?_
        obtain ⟨done, id', hdone, hid', himg⟩ := himg
        rw [Table.delete_cons] at himg
        refine ⟨id :: done, id', ?_, ?_, himg⟩
        · refine List.forall_mem_cons.mpr ⟨List.mem_cons_self .., fun id'' h => ?_⟩
          exact List.mem_cons_of_mem _ (hdone id'' h)
        · by_cases heq : id' = id
          · exact Or.inl (heq ▸ List.mem_cons_self ..)
          · refine hid'.imp (List.mem_cons_of_mem _) fun hrow h => ?_
            exact hrow (OrderedMap.mem_erase.mpr ⟨heq, h⟩)

theorem runs_deleteRows_on (columns : RowId → Enumeration String) (img : Image)
    (hindexed : ∀ column ∈ img.indexed, ':' ∉ column.toList) (ids : List RowId) :
    Runs (ids.forM fun id => Engine.deleteRowBy (columns id) t id) (img.on t l) (.ok ())
      ((img.delete ids).on t l) := by
  induction ids generalizing img with
  | nil => exact Runs.ret ()
  | cons id rest ih =>
      have hrest := ih (img.deleteRow id) (by rwa [Image.indexed_deleteRow])
      exact (runs_deleteRow_on ht (columns id) img hindexed id).bind hrest

end

/-- A cut deletion leaves a table on the way to the one without the rows that are selected. -/
theorem cutsTo_delete (orders : Orders) (hn : t.Names tb) (hv : tb.Valid)
    {w : Option WhereClause} {ids : List RowId} (hids : tb.image.rows limit t tb w = .ok ids) :
    CutsTo (Engine.deleteBy orders limit t w) t l tb.image (Image.Deleting · tb ids) := by
  obtain ⟨_, hplan, -⟩ := bind_eq_ok.mp hids
  obtain ⟨_, hthere, -⟩ := bind_eq_ok.mp hplan
  have ht := hn.of_ensure hthere
  have hrows : Runs (Query.rowsBy orders.rows limit t w) (tb.image.on t l)
      (tb.image.rows limit t tb w) (tb.image.on t l) := runs_rows_on hn hv rfl rfl w
  rw [hids] at hrows
  have hnone : tb.image.Deleting tb ids := by
    refine ⟨[], 0, nofun, Or.inr fun h => ?_, ?_⟩
    · exact absurd (hv.row_number h).1 (by decide)
    · rw [Table.delete_nil]
      exact .of_table tb 0
  refine CutsTo.look hnone (reads_rows _ limit t w) hrows ?_
  exact CutsTo.map (Steady.forM fun id => steady_deleteRow _ t id)
    (cutsTo_deleteRows ht orders.columns hv ids) _

/-- The deletion goes on from there with the rows that it finds. All rows that are left over are
among them, but for one at most. -/
theorem runs_delete_of_deleting (hn : t.Names tb) (hv : tb.Valid) {w : Option WhereClause}
    {ids : List RowId} (hids : tb.image.rows limit t tb w = .ok ids) {img : Image}
    (himg : img.Deleting tb ids) :
    ∃ again lost, (∀ id ∈ again, id ∈ ids) ∧
      (∀ id ∈ ids, toString id ∈ img.members → id ∉ again → id = lost) ∧
      img.rows limit t tb w = .ok again ∧
      (∀ order, Runs (Query.rowsBy order limit t w) (img.on t l) (.ok again) (img.on t l)) ∧
      ∀ orders, Runs (Engine.deleteBy orders limit t w) (img.on t l) (.ok again.length)
        ((img.delete again).on t l) := by
  obtain ⟨_, hplan, -⟩ := bind_eq_ok.mp hids
  obtain ⟨_, hthere, -⟩ := bind_eq_ok.mp hplan
  have ht := hn.of_ensure hthere
  obtain ⟨done, lost, hdone, hlost, hlacks⟩ := himg
  obtain ⟨again, hagain, hsub, hkept⟩ := (hlacks.below hv).rows hids
  have hrows (order : Enumeration RowId) :
      Runs (Query.rowsBy order limit t w) (img.on t l) (.ok again) (img.on t l) := by
    rw [← hagain]
    exact runs_rows_on hn hv hlacks.types hlacks.indexed w
  have hindexed : ∀ column ∈ img.indexed, ':' ∉ column.toList := by
    rw [hlacks.indexed]
    exact fun _ => hv.indexed_name
  have hdelete (orders : Orders) := runs_deleteRows_on ht orders.columns img hindexed again (l := l)
  refine ⟨again, lost, hsub, fun id hid hlive hnot => ?_, hagain, hrows,
    fun orders => (hrows orders.rows).bind ((hdelete orders).bind (Runs.ret _))⟩
  rw [hlacks.members, RowSet.toString_mem_texts] at hlive
  apply Decidable.byContradiction
  intro hne
  exact hnot (hkept id hid ⟨(Table.mem_ids_delete.mp hlive).1, hne⟩)

theorem steady_delete (orders : Orders) (limit : Nat) (t : TableName) (w : Option WhereClause) :
    Steady (Engine.deleteBy orders limit t w) := by
  refine (reads_rows _ limit t w).steady.bind fun ids => ?_
  exact Steady.bind (Steady.forM fun id => steady_deleteRow _ t id) fun _ => Steady.ret _

end StoreM

/-- If all rows that are left over are deleted, what is left is the table without any of them. -/
theorem Image.Deleting.delete {tb : Table} {ids again : List RowId} {img : Image}
    (h : img.Deleting tb ids) (hsub : ∀ id ∈ again, id ∈ ids)
    (hall : ∀ id ∈ ids, toString id ∈ img.members → id ∈ again) :
    img.delete again = (tb.delete ids).image := by
  obtain ⟨done, id, hdone, hid, hlacks⟩ := h
  have hmembers (id' : RowId) : toString id' ∈ img.members ↔ id' ∉ done ∧ id' ∈ tb.rows := by
    rw [hlacks.members, RowSet.toString_mem_texts, Table.mem_ids_delete, Table.mem_ids]
  have hgone : id ∈ again ∨ id ∉ (tb.delete done).rows := by
    by_cases hlive : toString id ∈ img.members
    · have hmem := hid.resolve_right fun hrow => hrow ((hmembers id).mp hlive).2
      exact Or.inl (hall id hmem hlive)
    · refine Or.inr fun hrow => hlive ?_
      rw [hlacks.members, RowSet.toString_mem_texts]
      exact Table.mem_ids.mpr hrow
  rw [hlacks.delete hgone, Table.delete_delete fun id' hrow => ?_]
  constructor
  · intro hmem
    by_cases hd : id' ∈ done
    · exact Or.inl hd
    · exact Or.inr (hall id' hmem ((hmembers id').mpr ⟨hd, hrow⟩))
  · rintro (hmem | hmem)
    · exact hdone id' hmem
    · exact hsub id' hmem

end Tabular
