import Tabular.Proofs.Index

/-!
Rows at work: inserting, reading, changing and deleting them does to the keys of a table what the
references say. Between two primitives an image is that of no table; at the end of each row the
index sets are those of the table again (`image_append`, `image_setField`, `image_deleteRow`).
-/

namespace Tabular

/-! ### Checked fields -/

namespace Engine

/-- Checks one field and adds it to those checked. -/
def checkField (t : TableName) (types : OrderedMap String ColumnType)
    (checked : OrderedMap String String) (field : String × String) :
    Except Error (OrderedMap String String) := do
  let some type := types.get? field.1 | throw (.columnNotFound field.1 t)
  type.check field.1 field.2
  return checked.insert field.1 field.2

variable {t : TableName} {tb : Table} {fields : List (String × String)}
variable {checked : OrderedMap String String}

theorem checkFields_eq (types : OrderedMap String ColumnType) :
    checkFields t types fields = fields.foldlM (checkField t types) ∅ := rfl

theorem checkField_eq_ok {types : OrderedMap String ColumnType} {field : String × String}
    {checked' : OrderedMap String String} :
    checkField t types checked field = .ok checked' ↔
      (∃ type, types.get? field.1 = some type ∧ type.accepts field.2 = true) ∧
        checked.insert field.1 field.2 = checked' := by
  unfold checkField ColumnType.check
  cases types.get? field.1 with
  | none => exact iff_of_false (fun h => by cases h) (fun ⟨⟨_, h, _⟩, _⟩ => by cases h)
  | some type =>
      rw [bind_eq_ok]
      by_cases ha : type.accepts field.2
      · constructor
        · rintro ⟨_, -, h⟩
          exact ⟨⟨type, rfl, ha⟩, Except.ok.inj h⟩
        · rintro ⟨-, rfl⟩
          exact ⟨(), if_pos ha, rfl⟩
      · refine iff_of_false ?_ ?_
        · rintro ⟨_, h, -⟩
          rw [if_neg ha] at h
          cases h
        · rintro ⟨⟨_, h, ha'⟩, -⟩
          obtain rfl := Option.some.inj h
          exact ha ha'

/-- Checked fields are all of their columns' types. -/
theorem checkFields_admits (h : checkFields t tb.columns fields = .ok checked) {column value : String}
    (hcv : checked.get? column = some value) : tb.Admits column value := by
  rw [checkFields_eq] at h
  refine foldlM_preserves (P := fun checked => ∀ column value,
    checked.get? column = some value → tb.Admits column value) h ?_ ?_ column value hcv
  · intro c v hcv
    simp at hcv
  · intro acc field acc' hacc hstep c v hcv
    obtain ⟨hadmits, rfl⟩ := checkField_eq_ok.mp hstep
    rw [OrderedMap.get?_insert] at hcv
    split at hcv
    · next heq =>
        obtain rfl := Option.some.inj hcv
        exact heq ▸ hadmits
    · exact hacc c v hcv

/-- Where fields were given, there are checked fields. -/
theorem isEmpty_checkFields {types : OrderedMap String ColumnType}
    (h : checkFields t types fields = .ok checked) (hfields : fields.isEmpty = false) :
    checked.isEmpty = false := by
  cases fields with
  | nil => cases hfields
  | cons field rest =>
      rw [checkFields_eq, List.foldlM_cons] at h
      obtain ⟨acc, hacc, h⟩ := bind_eq_ok.mp h
      have hstep : ∀ {acc : OrderedMap String String} {field acc'},
          checkField t types acc field = .ok acc' → acc'.isEmpty = false := by
        intro acc field acc' hacc
        obtain ⟨-, rfl⟩ := checkField_eq_ok.mp hacc
        exact OrderedMap.isEmpty_insert ..
      exact foldlM_preserves (P := fun acc => acc.isEmpty = false) h (hstep hacc)
        fun _ => hstep

end Engine

/-! ### Rows in images -/

namespace Image

/-- Enters a row under those of its fields whose columns are indexed. -/
def enterAll (img : Image) (indexed : OrderedSet String) (id : RowId) :
    List (String × String) → Image
  | [] => img
  | (column, value) :: rest =>
      (if column ∈ indexed then img.enter column value id else img).enterAll indexed id rest

/-- Removes a row from under its values in some columns. -/
def removeAll (img : Image) (id : RowId) : List String → Image
  | [] => img
  | column :: rest =>
      match (img.row id).get? column with
      | some value => (img.remove column value id).removeAll id rest
      | none => img.removeAll id rest

/-- Sets a field of a row and moves the row under the index of the column, if there is one. -/
def setField (img : Image) (id : RowId) (field : String × String) : Image :=
  let set := img.setRow id ((img.row id).insert field.1 field.2)
  if field.1 ∈ img.indexed then set.move field.1 ((img.row id).get? field.1) field.2 id else set

/-- Removes a row from under its values in indexed columns, its fields and its number. -/
def deleteRow (img : Image) (id : RowId) : Image :=
  { (img.removeAll id img.indexed.members).setRow id ∅ with
    members := img.members.erase (toString id) }

variable {img : Image} {indexed : OrderedSet String} {id : RowId} {at_ : String × String}

theorem enterAll_eq (fields : List (String × String)) : img.enterAll indexed id fields =
    { img with index := (img.enterAll indexed id fields).index } := by
  induction fields generalizing img with
  | nil => rfl
  | cons field rest ih =>
      rw [enterAll, ih]
      split <;> rfl

theorem mem_enterAll {fields : List (String × String)} {x : String} :
    x ∈ (img.enterAll indexed id fields).index at_ ↔
      (at_ ∈ fields ∧ at_.1 ∈ indexed ∧ x = toString id) ∨ x ∈ img.index at_ := by
  induction fields generalizing img with
  | nil => simp [enterAll]
  | cons field rest ih =>
      obtain ⟨column, value⟩ := field
      rw [enterAll, ih, List.mem_cons]
      by_cases hi : column ∈ indexed
      · rw [if_pos hi, mem_enter]
        constructor
        · rintro (⟨hmem, hx⟩ | ⟨rfl, hx⟩ | hx)
          · exact Or.inl ⟨Or.inr hmem, hx⟩
          · exact Or.inl ⟨Or.inl rfl, hi, hx⟩
          · exact Or.inr hx
        · rintro (⟨rfl | hmem, hx⟩ | hx)
          · exact Or.inr (Or.inl ⟨rfl, hx.2⟩)
          · exact Or.inl ⟨hmem, hx⟩
          · exact Or.inr (Or.inr hx)
      · rw [if_neg hi]
        constructor
        · rintro (⟨hmem, hx⟩ | hx)
          · exact Or.inl ⟨Or.inr hmem, hx⟩
          · exact Or.inr hx
        · rintro (⟨rfl | hmem, hx⟩ | hx)
          · exact (hi hx.1).elim
          · exact Or.inl ⟨hmem, hx⟩
          · exact Or.inr hx

theorem removeAll_eq (columns : List String) : img.removeAll id columns =
    { img with index := (img.removeAll id columns).index } := by
  induction columns generalizing img with
  | nil => rfl
  | cons column rest ih =>
      rw [removeAll]
      cases (img.row id).get? column with
      | none => exact ih
      | some value => exact ih

theorem mem_removeAll {columns : List String} {x : String} :
    x ∈ (img.removeAll id columns).index at_ ↔
      ¬ (at_.1 ∈ columns ∧ (img.row id).get? at_.1 = some at_.2 ∧ x = toString id) ∧
        x ∈ img.index at_ := by
  induction columns generalizing img with
  | nil => simp [removeAll]
  | cons column rest ih =>
      rw [removeAll, List.mem_cons]
      obtain ⟨column', value'⟩ := at_
      cases hvalue : (img.row id).get? column with
      | none =>
          dsimp only
          rw [ih]
          by_cases hc : column' = column
          · simp [hc, hvalue]
          · simp [hc]
      | some value =>
          have hrow : (img.remove column value id).row = img.row := rfl
          dsimp only
          rw [ih, mem_remove, hrow, Prod.mk.injEq]
          by_cases hc : column' = column
          · subst hc
            simp only [hvalue, Option.some.injEq, true_and, true_or, eq_comm (a := value')]
            generalize toString id = text
            by_cases hv : value = value' <;> by_cases hx : x = text <;> simp [hv, hx]
          · simp [hc]

/-- It makes no difference in which order a row leaves its indexes. -/
theorem removeAll_perm {columns columns' : List String} (h : columns.Perm columns') :
    img.removeAll id columns = img.removeAll id columns' := by
  rw [removeAll_eq columns, removeAll_eq columns']
  refine Image.ext rfl rfl rfl rfl rfl (funext fun at_ => OrderedSet.ext_mem fun x => ?_)
  rw [mem_removeAll, mem_removeAll]
  simp only [h.mem_iff]

/-- The image with something else under the columns without an index. -/
def leaving (img : Image) (indexed : OrderedSet String) (left : Leftovers) : Image :=
  { img with index := fun at_ => if at_.1 ∈ indexed then img.index at_ else left at_ }

section
variable {left : Leftovers} {column : String} (hcolumn : column ∈ indexed)
include hcolumn

theorem leaving_setIndex (value : String) (members : OrderedSet String) :
    (img.leaving indexed left).setIndex column value members =
      (img.setIndex column value members).leaving indexed left := by
  refine Image.ext rfl rfl rfl rfl rfl ?_
  funext at_
  rw [index_setIndex]
  show _ = if at_.1 ∈ indexed then (img.setIndex column value members).index at_ else left at_
  rw [index_setIndex]
  by_cases hat : at_ = (column, value)
  · rw [if_pos hat, if_pos (hat ▸ hcolumn), if_pos hat]
  · rw [if_neg hat, if_neg hat]
    rfl

theorem index_leaving (value : String) :
    (img.leaving indexed left).index (column, value) = img.index (column, value) := if_pos hcolumn

theorem leaving_enter (value : String) : (img.leaving indexed left).enter column value id =
    (img.enter column value id).leaving indexed left := by
  rw [enter, enter, index_leaving hcolumn, leaving_setIndex hcolumn]

theorem leaving_remove (value : String) : (img.leaving indexed left).remove column value id =
    (img.remove column value id).leaving indexed left := by
  rw [remove, remove, index_leaving hcolumn, leaving_setIndex hcolumn]

theorem leaving_move (old : Option String) (new : String) :
    (img.leaving indexed left).move column old new id =
      (img.move column old new id).leaving indexed left := by
  unfold move
  split
  · rfl
  · cases old with
    | none => exact leaving_enter hcolumn new
    | some old =>
        rw [Option.elim_some, Option.elim_some, leaving_remove hcolumn, leaving_enter hcolumn]

end

theorem leaving_enterAll {left : Leftovers} (fields : List (String × String)) :
    (img.leaving indexed left).enterAll indexed id fields =
      (img.enterAll indexed id fields).leaving indexed left := by
  induction fields generalizing img with
  | nil => rfl
  | cons field rest ih =>
      rw [enterAll, enterAll]
      by_cases hcolumn : field.1 ∈ indexed
      · rw [if_pos hcolumn, if_pos hcolumn, leaving_enter hcolumn, ih]
      · rw [if_neg hcolumn, if_neg hcolumn, ih]

theorem leaving_removeAll {left : Leftovers} {columns : List String}
    (hcolumns : ∀ column ∈ columns, column ∈ indexed) :
    (img.leaving indexed left).removeAll id columns =
      (img.removeAll id columns).leaving indexed left := by
  induction columns generalizing img with
  | nil => rfl
  | cons column rest ih =>
      obtain ⟨hcolumn, hrest⟩ := List.forall_mem_cons.mp hcolumns
      have hrow : (img.leaving indexed left).row = img.row := rfl
      rw [removeAll, removeAll, hrow]
      cases (img.row id).get? column with
      | none => exact ih hrest
      | some value =>
          dsimp only
          rw [leaving_remove hcolumn, ih hrest]

theorem leaving_setField {left : Leftovers} (field : String × String) :
    (img.leaving img.indexed left).setField id field =
      (img.setField id field).leaving img.indexed left := by
  have hleave (fields : OrderedMap String String) :
      (img.leaving img.indexed left).setRow id fields =
        (img.setRow id fields).leaving img.indexed left := rfl
  have hindexed : (img.leaving img.indexed left).indexed = img.indexed := rfl
  have hrow : (img.leaving img.indexed left).row = img.row := rfl
  unfold setField
  rw [hindexed, hrow, hleave]
  by_cases hcolumn : field.1 ∈ img.indexed
  · rw [if_pos hcolumn, if_pos hcolumn, leaving_move hcolumn]
  · rw [if_neg hcolumn, if_neg hcolumn]

theorem leaving_deleteRow {left : Leftovers} :
    (img.leaving img.indexed left).deleteRow id =
      (img.deleteRow id).leaving img.indexed left := by
  have hcolumns : ∀ column ∈ img.indexed.members, column ∈ img.indexed :=
    fun column hcolumn => OrderedSet.mem_members.mp hcolumn
  have hindexed : (img.leaving img.indexed left).indexed = img.indexed := rfl
  rw [deleteRow, hindexed, leaving_removeAll hcolumns]
  rfl

end Image

theorem Table.imageOver_eq (tb : Table) (left : Leftovers) :
    tb.imageOver left = tb.image.leaving tb.indexed left := by
  refine Image.ext rfl rfl rfl rfl rfl ?_
  funext at_
  show (if at_.1 ∈ tb.indexed then _ else _) =
    if at_.1 ∈ tb.indexed then if at_.1 ∈ tb.indexed then _ else _ else _
  by_cases hindexed : at_.1 ∈ tb.indexed
  · rw [if_pos hindexed, if_pos hindexed, if_pos hindexed]
  · rw [if_neg hindexed, if_neg hindexed]

/-! ### The images of changed tables -/

namespace Table

variable {tb : Table} {id : RowId}

/-- A new row, entered under its values. -/
theorem image_append (new : OrderedMap String String) (hrows : tb.last + 1 ∉ tb.rows) :
    ({ tb.image.setRow (tb.last + 1) new with
        last := tb.last + 1
        members := OrderedSet.add tb.ids.texts (toString (tb.last + 1)) }.enterAll tb.indexed
          (tb.last + 1) new.toList) = (tb.append new).image := by
  rw [Image.enterAll_eq]
  refine Image.ext rfl rfl rfl ?_ ?_ ?_
  · show _ = (tb.append new).ids.texts
    rw [ids_append, RowSet.texts_add]
  · funext id
    show (tb.image.setRow (tb.last + 1) new).row id = (tb.append new).fields id
    rw [Image.row_setRow, fields_append]
    rfl
  · funext at_
    apply OrderedSet.ext_mem
    intro x
    show x ∈ Image.index (Image.enterAll _ _ _ _) at_ ↔ _
    rw [Image.mem_enterAll, mem_index]
    show _ ∨ x ∈ tb.image.index at_ ↔ at_.1 ∈ tb.indexed ∧ _
    simp only [mem_index, cell, fields_append]
    constructor
    · rintro (⟨hmem, hi, rfl⟩ | ⟨hi, id, hcell, rfl⟩)
      · refine ⟨hi, tb.last + 1, ?_, rfl⟩
        rw [if_pos rfl, OrderedMap.get?_eq_some_iff]
        exact hmem
      · have hne : id ≠ tb.last + 1 := fun heq => hrows (heq ▸ mem_rows_of_cell hcell)
        exact ⟨hi, id, by rwa [if_neg hne], rfl⟩
    · rintro ⟨hi, id, hcell, rfl⟩
      by_cases heq : id = tb.last + 1
      · rw [if_pos heq, OrderedMap.get?_eq_some_iff] at hcell
        exact Or.inl ⟨hcell, hi, by rw [heq]⟩
      · rw [if_neg heq] at hcell
        exact Or.inr ⟨hi, id, hcell, rfl⟩

theorem mem_index_setField (hid : id ∈ tb.rows) {column value x : String} {at_ : String × String} :
    x ∈ (tb.setField id (column, value)).image.index at_ ↔ at_.1 ∈ tb.indexed ∧
      ∃ id', (if id' = id ∧ at_.1 = column then some value else tb.cell id' at_.1) = some at_.2 ∧
        toString id' = x := by
  rw [mem_index]
  simp only [cell_setField hid]
  rfl

/-- Under the index of the column the row moves from its old value to the new one. -/
theorem index_setField_of_indexed (hid : id ∈ tb.rows) {column : String} (value : String)
    (hi : column ∈ tb.indexed) (img : Image) (himg : img.index = tb.image.index) :
    (img.move column (tb.cell id column) value id).index =
      (tb.setField id (column, value)).image.index := by
  funext at_
  apply OrderedSet.ext_mem
  intro x
  rw [Image.mem_move, himg, mem_index, mem_index_setField hid]
  constructor
  · rintro (⟨-, rfl, rfl⟩ | ⟨hnot, hi', id', hold, rfl⟩)
    · exact ⟨hi, id, if_pos ⟨rfl, rfl⟩, rfl⟩
    · refine ⟨hi', id', ?_, rfl⟩
      split
      · next heq =>
          -- the old value stays under the index only if it is the new one
          obtain ⟨rfl, heq⟩ := heq
          rw [heq] at hold
          apply Decidable.byContradiction
          intro hne
          exact hnot ⟨fun h => hne (h ▸ hold), heq, hold, rfl⟩
      · exact hold
  · rintro ⟨hi', id', hnew, rfl⟩
    split at hnew
    · next heq =>
        obtain ⟨rfl, heq⟩ := heq
        obtain rfl := heq
        by_cases hsame : tb.cell id' at_.1 = some value
        · exact Or.inr ⟨fun h => h.1 hsame, hi', id', hsame.trans hnew, rfl⟩
        · exact Or.inl ⟨hsame, Prod.ext rfl (Option.some.inj hnew).symm, rfl⟩
    · next hne =>
        exact Or.inr ⟨fun h => hne ⟨Text.toString_injective h.2.2.2, h.2.1⟩, hi', id', hnew, rfl⟩

/-- No other index changes. -/
theorem index_setField_of_not_indexed (hid : id ∈ tb.rows) {column : String} (value : String)
    (hi : column ∉ tb.indexed) :
    tb.image.index = (tb.setField id (column, value)).image.index := by
  funext at_
  apply OrderedSet.ext_mem
  intro x
  rw [mem_index, mem_index_setField hid]
  have hother (hi' : at_.1 ∈ tb.indexed) (id' : RowId) : ¬ (id' = id ∧ at_.1 = column) :=
    fun h => hi (h.2 ▸ hi')
  constructor
  · rintro ⟨hi', id', h, rfl⟩
    exact ⟨hi', id', by rwa [if_neg (hother hi' id')], rfl⟩
  · rintro ⟨hi', id', h, rfl⟩
    rw [if_neg (hother hi' id')] at h
    exact ⟨hi', id', h, rfl⟩

/-- A field set, and the row moved from under its old value to under the new one. -/
theorem image_setField (hid : id ∈ tb.rows) (column value : String) :
    tb.image.setField id (column, value) = (tb.setField id (column, value)).image := by
  show (if column ∈ tb.indexed then
      (tb.image.setRow id ((tb.fields id).insert column value)).move column (tb.cell id column)
        value id
    else tb.image.setRow id ((tb.fields id).insert column value)) = _
  have hrow : (tb.image.setRow id ((tb.fields id).insert column value)).row =
      (tb.setField id (column, value)).fields := by
    funext id'
    rw [Image.row_setRow, fields_setField hid]
    rfl
  have hmembers : tb.image.members = (tb.setField id (column, value)).image.members := by
    show tb.ids.texts = (tb.setField id (column, value)).ids.texts
    rw [ids_setField]
  by_cases hi : column ∈ tb.indexed
  · rw [if_pos hi, Image.move_eq]
    exact Image.ext rfl rfl rfl hmembers hrow (index_setField_of_indexed hid value hi _ rfl)
  · rw [if_neg hi]
    exact Image.ext rfl rfl rfl hmembers hrow (index_setField_of_not_indexed hid value hi)

/-- A row taken from under its values, its fields and its number. -/
theorem image_deleteRow (tb : Table) (id : RowId) :
    tb.image.deleteRow id = (tb.deleteRow id).image := by
  rw [Image.deleteRow, Image.removeAll_eq]
  refine Image.ext rfl rfl rfl ?_ ?_ ?_
  · show _ = (tb.deleteRow id).ids.texts
    rw [ids_deleteRow, RowSet.texts_erase]
    rfl
  · funext id'
    show (tb.image.setRow id ∅).row id' = (tb.deleteRow id).fields id'
    rw [Image.row_setRow, fields_deleteRow]
    rfl
  · funext at_
    apply OrderedSet.ext_mem
    intro x
    show x ∈ (tb.image.removeAll id tb.indexed.members).index at_ ↔ _
    rw [Image.mem_removeAll, mem_index, mem_index]
    show _ ↔ at_.1 ∈ tb.indexed ∧ _
    simp only [OrderedSet.mem_members, cell, fields_deleteRow]
    constructor
    · rintro ⟨hnot, hi, id', hcell, rfl⟩
      have hne : id' ≠ id := by
        rintro rfl
        exact hnot ⟨hi, hcell, rfl⟩
      exact ⟨hi, id', by rwa [if_neg hne], rfl⟩
    · rintro ⟨hi, id', hcell, rfl⟩
      split at hcell
      · simp at hcell
      · next hne =>
          exact ⟨fun h => hne (Text.toString_injective h.2.2), hi, id', hcell, rfl⟩

/-! What is left under columns without an index stays there. -/

section
variable (left : Leftovers)

theorem imageOver_append (new : OrderedMap String String) (hrows : tb.last + 1 ∉ tb.rows) :
    ({ (tb.imageOver left).setRow (tb.last + 1) new with
        last := tb.last + 1
        members := OrderedSet.add tb.ids.texts (toString (tb.last + 1)) }.enterAll tb.indexed
          (tb.last + 1) new.toList) = (tb.append new).imageOver left := by
  have hleave : { (tb.image.leaving tb.indexed left).setRow (tb.last + 1) new with
        last := tb.last + 1
        members := OrderedSet.add tb.ids.texts (toString (tb.last + 1)) } =
      Image.leaving { tb.image.setRow (tb.last + 1) new with
        last := tb.last + 1
        members := OrderedSet.add tb.ids.texts (toString (tb.last + 1)) } tb.indexed left := rfl
  rw [imageOver_eq, imageOver_eq, ← image_append new hrows, hleave, Image.leaving_enterAll]
  rfl

theorem imageOver_setField (hid : id ∈ tb.rows) (column value : String) :
    (tb.imageOver left).setField id (column, value) =
      (tb.setField id (column, value)).imageOver left := by
  rw [imageOver_eq, imageOver_eq, ← image_setField hid]
  exact Image.leaving_setField (column, value)

theorem imageOver_deleteRow (tb : Table) (id : RowId) :
    (tb.imageOver left).deleteRow id = (tb.deleteRow id).imageOver left := by
  rw [imageOver_eq, imageOver_eq, ← image_deleteRow]
  exact Image.leaving_deleteRow

end

end Table

/-! ### Rows of a query -/

namespace Table

variable {tb : Table}

/-- A clause means rows of the table. -/
theorem mem_rows_of_meaning {w : Option WhereClause} {id : RowId} (h : id ∈ tb.meaning w) :
    id ∈ tb.rows := mem_ids.mp (mem_meaning.mp h).1

theorem mem_rows_of_reference {limit : Nat} {t : TableName} {w : Option WhereClause}
    {ids : List RowId} (h : Reference.rows limit t tb w = .ok ids) {id : RowId} (hid : id ∈ ids) :
    id ∈ tb.rows := by
  obtain ⟨_, -, h⟩ := bind_eq_ok.mp h
  unfold Reference.within at h
  split at h
  · obtain rfl := Except.ok.inj h
    exact mem_rows_of_meaning hid
  · cases h

end Table

theorem TableName.Names.of_rows {limit : Nat} {t : TableName} {tb : Table} {w : Option WhereClause}
    {ids : List RowId} (hn : t.Names tb) (h : Reference.rows limit t tb w = .ok ids) :
    t.Tagged := by
  obtain ⟨_, hplan, -⟩ := bind_eq_ok.mp h
  obtain ⟨_, hensure, -⟩ := bind_eq_ok.mp hplan
  exact hn.of_ensure hensure

/-- Fields that come from a hash are sorted already. -/
theorem Row.ofFields_toList (id : RowId) (fields : OrderedMap String String) :
    Row.ofFields id fields.toList = ⟨id, fields.toList⟩ := by
  rw [ofFields, List.mergeSort_of_pairwise]
  exact fields.ascending.imp fun h => by simp [h]

namespace StoreM

variable {t : TableName} {left : Leftovers} {l : Layout} {tb : Table} {limit : Nat}

section
variable (ht : t.Tagged)
include ht

/-! ### Reading -/

section
variable (hv : tb.Valid)
include hv

/-- Rows are read off their own keys, whatever the others hold. -/
theorem runs_fetchAll {img : Image} (himg : ∀ {id}, id ∈ tb.rows → img.row id = tb.fields id)
    {ids : List RowId} (hids : ∀ id ∈ ids, id ∈ tb.rows) :
    Runs (Engine.fetchAll t ids) (img.on t l) (.ok (ids.map tb.row)) (img.on t l) := by
  induction ids with
  | nil => exact Runs.ret []
  | cons id rest ih =>
      have hfetch : Runs (Engine.fetch t id) (img.on t l) (.ok (some (tb.row id)))
          (img.on t l) := by
        have hid := hids id (List.mem_cons_self ..)
        refine (runs_hgetall_row _ ht id).bind ?_
        rw [himg hid, hv.row_fields hid, Row.ofFields_toList]
        exact Runs.ret _
      exact hfetch.bind ((ih fun id hid => hids id (List.mem_cons_of_mem _ hid)).bind (Runs.ret _))

end

/-! ### Inserting -/

theorem runs_nextRowId (img : Image) (hlast : (img.last : Int) < Text.maxInt64) :
    Runs (Engine.nextRowId t) (img.on t l) (.ok (img.last + 1))
      ({ img with last := img.last + 1 }.on t l) :=
  (runs_incr_counter _ ht hlast).bind (Runs.ret _)

/-- Fields written one by one are all there in the end. -/
theorem runs_setFields (img : Image) (id : RowId) (fields : List (String × String)) :
    Runs (fields.forM fun (column, value) => do
        let _ ← hset (Key.row t id).text column value) (img.on t l) (.ok ())
      ((img.setRow id (fields.foldl (fun m b => m.insert b.1 b.2) (img.row id))).on t l) := by
  induction fields generalizing img with
  | nil =>
      have himg : img.setRow id (img.row id) = img := by
        rw [Image.setRow, Function.update_eq_self]
      rw [List.foldl_nil, himg]
      exact Runs.ret ()
  | cons field rest ih =>
      have hrest := ih (img.setRow id ((img.row id).insert field.1 field.2))
      rw [Image.row_setRow, if_pos rfl, Image.setRow, Image.setRow, Function.update_idem] at hrest
      rw [List.foldl_cons]
      exact ((runs_hset_row _ ht id field.1 field.2).bind (Runs.ret ())).bind hrest

/-- A row without fields has those that are written. -/
theorem runs_setFields_new (img : Image) {id : RowId} (hid : img.row id = ∅)
    (fields : OrderedMap String String) :
    Runs (fields.toList.forM fun (column, value) => do
        let _ ← hset (Key.row t id).text column value) (img.on t l) (.ok ())
      ((img.setRow id fields).on t l) := by
  have hall : fields.toList.foldl (fun m b => m.insert b.1 b.2) ∅ = fields :=
    OrderedMap.extend_empty fields
  have hset := runs_setFields (l := l) ht img id fields.toList
  rwa [hid, hall] at hset

theorem runs_enterAll (img : Image) {indexed : OrderedSet String} (id : RowId)
    (hindexed : ∀ column ∈ indexed, ':' ∉ column.toList) (fields : List (String × String)) :
    Runs (fields.forM fun (column, value) => do
        if indexed.contains column then
          let _ ← sadd (Key.index t column value).text (toString id)) (img.on t l) (.ok ())
      ((img.enterAll indexed id fields).on t l) := by
  induction fields generalizing img with
  | nil => exact Runs.ret ()
  | cons field rest ih =>
      obtain ⟨column, value⟩ := field
      rw [Image.enterAll]
      by_cases hi : column ∈ indexed
      · rw [if_pos hi]
        refine Runs.bind (a := ()) ?_ (ih (img.enter column value id))
        show Runs (if indexed.contains column = true then _ else _) _ _ _
        rw [if_pos (OrderedMap.contains_iff.mpr hi)]
        exact (runs_sadd_index _ ht (hindexed column hi) value id).bind (Runs.ret ())
      · rw [if_neg hi]
        refine Runs.bind (a := ()) ?_ (ih img)
        show Runs (if indexed.contains column = true then _ else _) _ _ _
        rw [if_neg fun h => hi (OrderedMap.contains_iff.mp h)]
        exact Runs.ret ()

/-! ### Changing -/

theorem runs_assign_on (img : Image) (hindexed : ∀ column ∈ img.indexed, ':' ∉ column.toList)
    (id : RowId) (field : String × String) :
    Runs (Engine.assign t img.indexed id field) (img.on t l) (.ok ())
      ((img.setField id field).on t l) := by
  obtain ⟨column, value⟩ := field
  have hset := runs_hset_row img (l := l) ht id column value
  refine (runs_hget_row _ ht id column).bind (hset.bind ?_)
  unfold Image.setField
  dsimp only
  by_cases hi : column ∈ img.indexed
  · rw [if_pos hi, if_pos (OrderedMap.contains_iff.mpr hi)]
    exact runs_moveIndexed ht (hindexed column hi) _ _ _ _
  · rw [if_neg hi, if_neg fun h => hi (OrderedMap.contains_iff.mp h)]
    exact Runs.ret ()

section
variable (hv : tb.Valid)
include hv

theorem runs_assign {id : RowId} (hid : id ∈ tb.rows) (field : String × String) :
    Runs (Engine.assign t tb.indexed id field) ((tb.imageOver left).on t l) (.ok ())
      (((tb.setField id field).imageOver left).on t l) := by
  rw [← Table.imageOver_setField left hid field.1 field.2]
  exact runs_assign_on ht (tb.imageOver left) (fun _ => hv.indexed_name) id field

theorem runs_assigns {id : RowId} (hid : id ∈ tb.rows) (fields : List (String × String))
    (hfields : ∀ field ∈ fields, tb.Admits field.1 field.2) :
    Runs (fields.forM (Engine.assign t tb.indexed id)) ((tb.imageOver left).on t l) (.ok ())
      (((fields.foldl (fun tb field => tb.setField id field) tb).imageOver left).on t l) := by
  induction fields generalizing tb with
  | nil => exact Runs.ret ()
  | cons field rest ih =>
      have hfield := hfields field (List.mem_cons_self ..)
      have hrest := ih (hv.setField hid hfield) (OrderedMap.mem_mapWithKey.mpr hid)
        fun field hf => hfields field (List.mem_cons_of_mem _ hf)
      exact (runs_assign ht hv hid field).bind hrest

/-- Every row of the list gets the fields. -/
theorem runs_assignAll {ids : List RowId} (hids : ∀ id ∈ ids, id ∈ tb.rows)
    {new : OrderedMap String String}
    (hnew : ∀ {column value}, new.get? column = some value → tb.Admits column value) :
    Runs (Engine.assignAll t tb.indexed new.toList ids) ((tb.imageOver left).on t l) (.ok ids.length)
      (((tb.assign ids new).imageOver left).on t l) := by
  induction ids generalizing tb with
  | nil =>
      rw [Table.assign_nil]
      exact Runs.ret 0
  | cons id rest ih =>
      have hid := hids id (List.mem_cons_self ..)
      have htype := runs_keyType_row (tb.imageOver left) (l := l) ht id
      have hne : ((tb.imageOver left).row id).isEmpty = false := hv.row_fields hid
      rw [hne] at htype
      have hassign : Runs _ ((tb.imageOver left).on t l) _ _ :=
        runs_assigns ht hv hid new.toList fun field hf =>
          hnew (OrderedMap.get?_eq_some_iff.mpr hf)
      rw [tb.foldl_setField] at hassign
      have hrest := ih (hv.assign [id] hnew)
        (fun id hid => OrderedMap.mem_mapWithKey.mpr (hids id (List.mem_cons_of_mem _ hid))) hnew
      rw [tb.assign_cons] at hrest
      exact htype.bind (hassign.bind (hrest.bind (Runs.ret _)))

/-! ### Deleting -/

omit hv in
theorem runs_removeAll (img : Image) (id : RowId) {columns : List String}
    (hcolumns : ∀ column ∈ columns, ':' ∉ column.toList) :
    Runs (Engine.unindexRow t id columns) (img.on t l) (.ok ())
      ((img.removeAll id columns).on t l) := by
  induction columns generalizing img with
  | nil => exact Runs.ret ()
  | cons column rest ih =>
      have hcolumn := hcolumns column (List.mem_cons_self ..)
      have hrest := fun img => ih img fun c hc => hcolumns c (List.mem_cons_of_mem _ hc)
      have hget := runs_hget_row img (l := l) ht id column
      rw [Image.removeAll]
      cases hvalue : (img.row id).get? column with
      | none =>
          rw [hvalue] at hget
          exact (hget.bind (Runs.ret ())).bind (hrest img)
      | some value =>
          rw [hvalue] at hget
          have hsrem := runs_srem_index img (l := l) ht hcolumn value id
          exact (hget.bind (hsrem.bind (Runs.ret ()))).bind (hrest _)

omit hv in
/-- A row leaves its indexes in any order. -/
theorem runs_deleteFrom_on (img : Image) (hindexed : ∀ column ∈ img.indexed, ':' ∉ column.toList)
    (id : RowId) {columns : List String} (hcolumns : columns.Perm img.indexed.members) :
    Runs (Engine.deleteFrom t id columns) (img.on t l) (.ok ()) ((img.deleteRow id).on t l) := by
  have hremove := runs_removeAll (l := l) ht img id fun column hc =>
    hindexed column (OrderedSet.mem_members.mp (hcolumns.mem_iff.mp hc))
  rw [Image.removeAll_perm hcolumns] at hremove
  obtain ⟨found, hdel⟩ := runs_del_row (img.removeAll id img.indexed.members) (l := l) ht id
  have hsrem := runs_srem_rows ((img.removeAll id img.indexed.members).setRow id ∅) (l := l) ht
    (toString id)
  have hmembers : ((img.removeAll id img.indexed.members).setRow id ∅).members = img.members := by
    rw [Image.removeAll_eq]
    rfl
  rw [hmembers] at hsrem
  exact hremove.bind (hdel.bind (hsrem.bind (Runs.ret ())))

omit hv in
theorem runs_deleteRow_on (order : Enumeration String) (img : Image)
    (hindexed : ∀ column ∈ img.indexed, ':' ∉ column.toList) (id : RowId) :
    Runs (Engine.deleteRowBy order t id) (img.on t l) (.ok ()) ((img.deleteRow id).on t l) :=
  (runs_smembers_indexed img ht).bind
    (runs_deleteFrom_on ht img hindexed id (order.perm img.indexed))

theorem runs_deleteRow (order : Enumeration String) (id : RowId) :
    Runs (Engine.deleteRowBy order t id) ((tb.imageOver left).on t l) (.ok ())
      (((tb.deleteRow id).imageOver left).on t l) := by
  rw [← Table.imageOver_deleteRow left tb id]
  exact runs_deleteRow_on ht order (tb.imageOver left) (fun _ => hv.indexed_name) id

theorem runs_deleteRows (columns : RowId → Enumeration String) (ids : List RowId) :
    Runs (ids.forM fun id => Engine.deleteRowBy (columns id) t id) ((tb.imageOver left).on t l)
      (.ok ()) (((tb.delete ids).imageOver left).on t l) := by
  induction ids generalizing tb with
  | nil =>
      rw [Table.delete_nil]
      exact Runs.ret ()
  | cons id rest ih =>
      have hrest := ih (hv.deleteRow id)
      rw [tb.delete_cons] at hrest
      exact (runs_deleteRow ht hv (columns id) id).bind hrest

end

end

/-! ### What the engine's programs come to -/

section
variable (hn : t.Names tb) (hv : tb.Valid)
include hn hv

theorem runs_select (order : Enumeration RowId) (w : Option WhereClause) :
    Runs (Engine.selectBy order limit t w) ((tb.imageOver left).on t l)
      (Reference.select limit t tb w) ((tb.imageOver left).on t l) := by
  refine Runs.check (runs_rows hn hv w) fun ids hids => ?_
  exact runs_fetchAll (hn.of_rows hids) hv (fun _ => rfl) fun _ => Table.mem_rows_of_reference hids

theorem refines_insert (fields : List (String × String)) :
    Refines (Engine.insert t fields) t left l tb (Reference.insert t tb fields) := by
  refine Refines.check (runs_ensureTable hn.proper) fun _ hensure => ?_
  have ht := hn.of_ensure hensure
  cases hfields : fields.isEmpty with
  | true => exact Refines.fail _ _
  | false =>
      refine Refines.look (runs_columnTypes ht) ?_
      refine Refines.check (Runs.of_except _) fun checked hchecked => ?_
      by_cases hlast : (tb.last : Int) < Text.maxInt64
      · rw [if_pos hlast]
        refine Refines.look (runs_indexedColumns ht) (.done ?_)
        have hnew : tb.last + 1 ∉ tb.rows := hv.succ_last_notMem
        have hset := runs_setFields_new (l := l) ht { (tb.imageOver left) with last := tb.last + 1 }
          (Table.fields_of_notMem hnew) checked
        have hadd := runs_sadd_rows
          ({ (tb.imageOver left) with last := tb.last + 1 }.setRow (tb.last + 1) checked) (l := l) ht
          (toString (tb.last + 1))
        have henter := runs_enterAll (l := l) ht
          { (tb.imageOver left).setRow (tb.last + 1) checked with
            last := tb.last + 1
            members := OrderedSet.add tb.ids.texts (toString (tb.last + 1)) }
          (tb.last + 1) (fun _ => hv.indexed_name) checked.toList
        rw [Table.imageOver_append left checked hnew] at henter
        exact (runs_nextRowId ht (tb.imageOver left) hlast).bind
          (hset.bind (hadd.bind (henter.bind (Runs.ret (tb.last + 1)))))
      · have hfull : (tb.last : Int) = Text.maxInt64 :=
          Int.le_antisymm hv.last_le (Int.not_lt.mp hlast)
        rw [if_neg hlast]
        refine Refines.look (runs_indexedColumns ht) (.failed ?_)
        exact Runs.bind_error (Runs.bind_error (runs_incr_counter_overflow _ ht hfull))

theorem refines_update (order : Enumeration RowId) (w : Option WhereClause)
    (fields : List (String × String)) :
    Refines (Engine.updateBy order limit t w fields) t left l tb
      (Reference.update limit t tb w fields) := by
  refine Refines.check (runs_ensureTable hn.proper) fun _ hensure => ?_
  have ht := hn.of_ensure hensure
  cases hfields : fields.isEmpty with
  | true => exact Refines.fail _ _
  | false =>
      refine Refines.look (runs_columnTypes ht) ?_
      refine Refines.check (Runs.of_except _) fun checked hchecked => ?_
      refine Refines.look (runs_indexedColumns ht) ?_
      refine Refines.check (runs_rows hn hv w) fun ids hids => .done ?_
      exact runs_assignAll ht hv (fun _ => Table.mem_rows_of_reference hids)
        (Engine.checkFields_admits hchecked)

theorem refines_delete (orders : Orders) (w : Option WhereClause) :
    Refines (Engine.deleteBy orders limit t w) t left l tb (Reference.delete limit t tb w) := by
  refine Refines.check (runs_rows hn hv w) fun ids hids => .done ?_
  exact (runs_deleteRows (hn.of_rows hids) hv orders.columns ids).bind (Runs.ret _)

end

end StoreM

end Tabular
