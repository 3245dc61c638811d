import Tabular.Proofs.Image
import Tabular.Proofs.Reference
import Tabular.Proofs.Walk

/-!
The catalog at work on the keys of a table: what the programs that look at a schema find, and that
creating, extending and dropping a table do what their references say. Dropping goes by pattern,
so it rests on which keys begin with the name of a table in braces.
-/

namespace Tabular

theorem ColumnType.ofName?_name (type : ColumnType) : ofName? type.name = some type := by
  cases type <;> decide +kernel

theorem ColumnType.ofStored_name (type : ColumnType) : ofStored type.name = type := by
  rw [ofStored, ofName?_name, Option.getD_some]

/-- Namespaces are named like the first part of a table's name. -/
theorem Catalog.checkNamespace_eq_ok_iff {ns : String} {u : Unit} :
    checkNamespace ns = .ok u ↔ ns ≠ "" ∧ '.' ∉ ns.toList ∧ nameFault? ns = none := by
  unfold checkNamespace
  cases nameFault? ns with
  | some fault => simp
  | none =>
      by_cases hns : ns = "" ∨ '.' ∈ ns.toList
      · simp only [if_pos hns, reduceCtorEq, false_iff]
        exact fun h => hns.elim h.1 h.2.1
      · simp only [if_neg hns, true_iff]
        exact ⟨(not_or.mp hns).1, (not_or.mp hns).2, trivial⟩

namespace Table

theorem ofStored_types (tb : Table) : tb.image.types.mapValues ColumnType.ofStored = tb.columns := by
  ext column : 1
  simp [image, Function.comp_def, ColumnType.ofStored_name]

theorem isEmpty_types (tb : Table) : tb.image.types.isEmpty = tb.columns.isEmpty := by
  obtain ⟨⟨_ | _, _⟩, _, _, _⟩ := tb <;> rfl

/-- Defining a column leaves the rows alone, and no index of the column has come to hold them. -/
theorem image_define {tb : Table} {column : Column} (hnew : ∀ id, tb.cell id column.name = none) :
    (tb.define column).image =
      { tb.image with
        types := tb.image.types.insert column.name column.type.name
        indexed := (tb.define column).indexed } := by
  have htypes : (tb.define column).image.types =
      tb.image.types.insert column.name column.type.name := by
    ext c : 1
    by_cases hc : c = column.name <;> simp [image, define, hc]
  have hindex : (tb.define column).image.index = tb.image.index := by
    funext at_
    have hholding : (tb.define column).holding at_.1 at_.2 = tb.holding at_.1 at_.2 := rfl
    have hempty : at_.1 = column.name → tb.holding at_.1 at_.2 = ∅ := by
      intro heq
      apply OrderedSet.ext_mem
      intro id
      rw [mem_holding, heq, hnew id]
      simp
    simp only [image, hholding]
    by_cases hc : at_.1 = column.name
    · simp only [hempty hc, RowSet.texts_empty, ite_self]
    · by_cases hi : column.indexed <;> simp [define, hi, hc]
  exact Image.ext htypes rfl rfl rfl rfl hindex

end Table

/-- A proper name, and one that keys may have as a tag if the table is there. -/
structure TableName.Names (t : TableName) (tb : Table) : Prop where
  proper : t.Proper
  tagged : tb.columns.isEmpty = false → t.Tagged

theorem Reference.ensure_eq_ok {t : TableName} {tb : Table} {u : Unit} :
    ensure t tb = .ok u ↔ tb.columns.isEmpty = false := by
  unfold ensure
  cases tb.columns.isEmpty with
  | true => exact iff_of_false (fun h => by cases h) Bool.noConfusion
  | false => exact iff_of_true rfl rfl

theorem TableName.Names.of_ensure {t : TableName} {tb : Table} {u : Unit} (h : t.Names tb)
    (hensure : Reference.ensure t tb = .ok u) : t.Tagged :=
  h.tagged (Reference.ensure_eq_ok.mp hensure)

namespace StoreM

variable {t : TableName} {left : Leftovers} {l : Layout} {tb : Table}

/-! ### Looking at a schema -/

section
variable {img : Image} (himg : img.types = tb.image.types)
include himg

/-- Whether a table is there is read off its schema, whatever the other keys hold. -/
theorem runs_ensureTable_of (ht : t.Proper) :
    Runs (Catalog.ensureTable t) (img.on t l) (Reference.ensure t tb) (img.on t l) := by
  have hexists : Runs (Catalog.tableExists t) (img.on t l) (.ok !tb.columns.isEmpty)
      (img.on t l) := by
    refine (runs_keyType_schema _ ht).bind ?_
    rw [himg, Table.isEmpty_types]
    cases tb.columns.isEmpty <;> exact Runs.ret _
  refine hexists.bind ?_
  unfold Reference.ensure
  cases tb.columns.isEmpty with
  | true => exact Runs.throw _
  | false => exact Runs.ret _

theorem runs_columnType_of (ht : t.Tagged) (column : String) :
    Runs (Catalog.columnType t column) (img.on t l) (Reference.columnType t tb column)
      (img.on t l) := by
  refine (runs_hget_schema _ ht column).bind ?_
  have htype : tb.image.types.get? column = (tb.columns.get? column).map ColumnType.name :=
    OrderedMap.get?_mapValues ..
  rw [Reference.columnType, himg, htype]
  cases tb.columns.get? column with
  | none => exact Runs.throw _
  | some type =>
      show Runs (pure (ColumnType.ofStored type.name)) _ (.ok type) _
      rw [ColumnType.ofStored_name]
      exact Runs.ret type

theorem runs_columnTypes_of (ht : t.Tagged) :
    Runs (Catalog.columnTypes t) (img.on t l) (.ok tb.columns) (img.on t l) := by
  refine (runs_hgetall_schema _ ht).bind ?_
  rw [himg, Table.ofStored_types]
  exact Runs.ret _

end

theorem runs_ensureTable (ht : t.Proper) :
    Runs (Catalog.ensureTable t) ((tb.imageOver left).on t l) (Reference.ensure t tb)
      ((tb.imageOver left).on t l) := by
  have himg : (tb.imageOver left).types = tb.image.types := rfl
  exact runs_ensureTable_of himg ht

section
variable (ht : t.Tagged)
include ht

theorem runs_columnType (column : String) :
    Runs (Catalog.columnType t column) ((tb.imageOver left).on t l)
      (Reference.columnType t tb column) ((tb.imageOver left).on t l) := by
  have himg : (tb.imageOver left).types = tb.image.types := rfl
  exact runs_columnType_of himg ht column

theorem runs_columnTypes :
    Runs (Catalog.columnTypes t) ((tb.imageOver left).on t l) (.ok tb.columns)
      ((tb.imageOver left).on t l) := by
  have himg : (tb.imageOver left).types = tb.image.types := rfl
  exact runs_columnTypes_of himg ht

theorem runs_indexedColumns :
    Runs (Catalog.indexedColumns t) ((tb.imageOver left).on t l) (.ok tb.indexed)
      ((tb.imageOver left).on t l) := runs_smembers_indexed _ ht

end

theorem runs_describe (hn : t.Names tb) :
    Runs (Catalog.describe t) (tb.image.on t l) (Reference.describe t tb) (tb.image.on t l) := by
  refine Runs.check (runs_ensureTable hn.proper) fun _ hensure => ?_
  have ht := hn.of_ensure hensure
  refine (runs_indexedColumns ht).bind ?_
  exact (runs_columnTypes ht).bind (Runs.ret _)

/-! ### Changing a schema -/

section
variable (ht : t.Tagged)
include ht

theorem runs_defineColumn {column : Column} (hnew : ∀ id, tb.cell id column.name = none) :
    Runs (Catalog.defineColumn t column) (tb.image.on t l) (.ok ())
      ((tb.define column).image.on t l) := by
  refine (runs_hset_schema tb.image ht column.name column.type.name).bind ?_
  rw [Table.image_define hnew]
  cases hi : column.indexed with
  | false =>
      have hindexed : (tb.define column).indexed = tb.image.indexed := by simp [Table.define, Table.image, hi]
      rw [hindexed]
      exact Runs.ret _
  | true =>
      have hindexed : (tb.define column).indexed = OrderedSet.add tb.image.indexed column.name := by
        simp [Table.define, Table.image, hi]
      rw [hindexed]
      exact (runs_sadd_indexed _ ht column.name).bind (Runs.ret _)

theorem runs_defineColumns (columns : List Column) (hnew : ∀ id column, tb.cell id column = none) :
    Runs (columns.forM (Catalog.defineColumn t)) (tb.image.on t l) (.ok ())
      ((columns.foldl Table.define tb).image.on t l) := by
  induction columns generalizing tb with
  | nil => exact Runs.ret _
  | cons column rest ih =>
      rw [List.forM_eq_forM, List.forM_cons, List.foldl_cons]
      exact (runs_defineColumn ht fun id => hnew id column.name).bind (ih hnew)

end

theorem refines_addColumn (hn : t.Names tb) (hv : tb.Valid) (column : Column) :
    Refines (Catalog.addColumn t column) t (fun _ => ∅) l tb (Reference.addColumn t tb column) := by
  refine Refines.check (runs_ensureTable hn.proper) fun _ hensure => ?_
  have ht := hn.of_ensure hensure
  have hget := runs_hget_schema tb.image (l := l) ht column.name
  have htype : tb.image.types.get? column.name =
      (tb.columns.get? column.name).map ColumnType.name := OrderedMap.get?_mapValues ..
  by_cases hcolumn : column.name ∈ tb.columns
  · obtain ⟨type, hcol⟩ := Option.isSome_iff_exists.mp (OrderedMap.mem_iff_isSome.mp hcolumn)
    rw [htype, hcol] at hget
    simp only [hcolumn, if_true]
    exact Refines.look hget (Refines.fail _ _)
  · rw [htype, OrderedMap.get?_eq_none_iff.mpr hcolumn] at hget
    simp only [hcolumn, if_false]
    exact Refines.look hget (.done (runs_defineColumn ht (hv.cell_eq_none hcolumn)))

/-- Whether a namespace is known is read off its marker, which is no key of the table. -/
theorem runs_namespaceExists {known : Bool} {img : Image} (ht : t.Proper)
    (hmarker : l (.marker t.ns) = if known then some (.text "1") else none) :
    Runs (Catalog.namespaceExists t.ns) (img.on t l) (.ok known) (img.on t l) := by
  have htype : Runs (keyType (Key.marker t.ns).text) (img.on t l)
      (.ok (if known then .text else .absent)) (img.on t l) := by
    apply runs_keyType (k := .marker t.ns) ht.1
    intro s hs
    rw [Store.keyType, hs, Image.on_of_ne (by simp [Key.table?]), hmarker]
    cases known <;> rfl
  refine htype.bind ?_
  cases known <;> exact Runs.ret _

theorem refines_createTable {known : Bool} (ht : t.Proper) (htb : tb.columns.isEmpty = true → tb = ∅)
    (hmarker : l (.marker t.ns) = if known then some (.text "1") else none)
    (columns : List Column) :
    Refines (Catalog.createTable t columns) t (fun _ => ∅) l tb
      (Reference.createTable known t tb columns) := by
  refine Refines.check (Runs.of_except _) fun _ hcheck => ?_
  have htag : t.Tagged := ⟨ht, t.notMem_of_check hcheck⟩
  refine Refines.look (runs_namespaceExists ht hmarker) ?_
  cases known with
  | false => exact Refines.fail _ _
  | true =>
      refine Refines.look (runs_keyType_schema tb.image ht) ?_
      rw [Table.isEmpty_types]
      cases hempty : tb.columns.isEmpty with
      | false => exact Refines.fail _ _
      | true =>
          cases columns with
          | nil => exact Refines.fail _ _
          | cons column rest =>
              rw [htb hempty]
              exact .done (runs_defineColumns htag (column :: rest) fun id c => rfl)

/-- Deleting the keys of a table by their pattern spares the schema and all other tables. -/
theorem runs_delTable (ht : t.Tagged) (img : Image) (pageSize : Nat) :
    ∃ n, Runs (delMatching t.keyPattern pageSize) (img.on t l) (.ok n)
      ({ (∅ : Image) with types := img.types }.on t l) := by
  apply runs_delMatching
  intro k hk
  have hmatch : Glob.matchesKey t.keyPattern k.text = true ↔ k.tag? = some t := by
    rw [TableName.matchesKey_keyPattern, Key.keyStem_prefix_iff ht hk]
  by_cases htag : k.tag? = some t
  · rw [if_pos (hmatch.mpr htag), Image.on_of_table (Key.table?_of_tag? htag),
      Image.entry_of_tag _ htag]
  · rw [if_neg fun h => htag (hmatch.mp h)]
    by_cases htable : k.table? = some t
    · rw [Image.on_of_table htable, Image.on_of_table htable]
      cases k with
      | schema t' => rfl
      | marker ns => rfl
      | _ => exact (htag htable).elim
    · rw [Image.on_of_ne htable, Image.on_of_ne htable]

theorem refines_dropTable (hn : t.Names tb) (pageSize : Nat) :
    Refines (Catalog.dropTable t pageSize) t (fun _ => ∅) l tb (Reference.dropTable t tb) := by
  refine Refines.check (runs_ensureTable hn.proper) fun _ hensure => ?_
  have ht := hn.of_ensure hensure
  obtain ⟨n, hkeys⟩ := runs_delTable ht (l := l) tb.image pageSize
  obtain ⟨found, hschema⟩ := runs_del (k := .schema t) ht.1
    (l := { (∅ : Image) with types := tb.image.types }.on t l)
  rw [← Entry.ofHash_empty, Image.put_types] at hschema
  refine .done (hkeys.bind ?_)
  rw [Table.imageOver_empty, Table.image_empty]
  exact hschema.bind (Runs.ret _)

end StoreM

end Tabular
