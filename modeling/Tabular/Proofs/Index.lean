import Tabular.Proofs.Query

/-!
Indexes at work. Building the index of a column enters the rows that have it under their values,
and dropping it empties the keys that begin with its stem; either way the index sets are again those
that the rows determine.
-/

namespace Tabular

namespace Image

/-- Enters rows into the index of a column in the order of the list. -/
def indexRows (img : Image) (column : String) : List RowId → Image
  | [] => img
  | id :: rest =>
      match (img.row id).get? column with
      | some value => (img.enter column value id).indexRows column rest
      | none => img.indexRows column rest

/-- Moves a row from under its old value to under its new one. -/
def move (img : Image) (column : String) (old : Option String) (new : String) (id : RowId) :
    Image :=
  if old = some new then img
  else (old.elim img fun old => img.remove column old id).enter column new id

/-- The image in which the index of a column is empty. -/
def clear (img : Image) (column : String) : Image :=
  { img with index := fun at_ => if at_.1 = column then ∅ else img.index at_ }

variable {img : Image} {column value : String} {id : RowId} {at_ : String × String}

@[simp] theorem index_clear (at_ : String × String) :
    (img.clear column).index at_ = if at_.1 = column then ∅ else img.index at_ := rfl

theorem mem_enter {x : String} : x ∈ (img.enter column value id).index at_ ↔
    (at_ = (column, value) ∧ x = toString id) ∨ x ∈ img.index at_ := by
  rw [enter, index_setIndex]
  by_cases h : at_ = (column, value)
  · simp [h]
  · simp [h]

theorem mem_remove {x : String} : x ∈ (img.remove column value id).index at_ ↔
    ¬ (at_ = (column, value) ∧ x = toString id) ∧ x ∈ img.index at_ := by
  rw [remove, index_setIndex]
  by_cases h : at_ = (column, value)
  · simp [h]
  · simp [h]

theorem move_eq (old : Option String) (new : String) : img.move column old new id =
    { img with index := (img.move column old new id).index } := by
  unfold move
  split
  · rfl
  · cases old <;> rfl

theorem mem_move {old : Option String} {new x : String} :
    x ∈ (img.move column old new id).index at_ ↔
      (old ≠ some new ∧ at_ = (column, new) ∧ x = toString id) ∨
        ¬ (old ≠ some new ∧ at_.1 = column ∧ old = some at_.2 ∧ x = toString id) ∧
          x ∈ img.index at_ := by
  unfold move
  by_cases h : old = some new
  · simp [h]
  · rw [if_neg h, mem_enter]
    cases old with
    | none => simp
    | some old =>
        rw [Option.elim_some, mem_remove]
        simp only [Prod.ext_iff, Option.some.injEq, ne_eq, h, not_false_eq_true, true_and,
          eq_comm (a := old), and_assoc]

/-- Only the index of the column changes. -/
theorem indexRows_eq (ids : List RowId) :
    img.indexRows column ids = { img with index := (img.indexRows column ids).index } := by
  induction ids generalizing img with
  | nil => rfl
  | cons id rest ih =>
      rw [indexRows]
      cases (img.row id).get? column with
      | none => exact ih
      | some value => exact ih

theorem mem_indexRows {ids : List RowId} {x : String} :
    x ∈ (img.indexRows column ids).index at_ ↔ x ∈ img.index at_ ∨
      at_.1 = column ∧ ∃ id ∈ ids, (img.row id).get? column = some at_.2 ∧ toString id = x := by
  induction ids generalizing img with
  | nil => simp [indexRows]
  | cons id rest ih =>
      rw [indexRows]
      cases hvalue : (img.row id).get? column with
      | none => simp [ih, hvalue]
      | some value =>
          have hrow : (img.enter column value id).row = img.row := rfl
          rw [ih, mem_enter, hrow]
          obtain ⟨column', value'⟩ := at_
          simp only [Prod.mk.injEq, List.mem_cons, exists_eq_or_imp, hvalue, Option.some.injEq]
          constructor
          · rintro ((⟨⟨rfl, rfl⟩, rfl⟩ | hx) | ⟨rfl, hx⟩)
            · exact Or.inr ⟨rfl, Or.inl ⟨rfl, rfl⟩⟩
            · exact Or.inl hx
            · exact Or.inr ⟨rfl, Or.inr hx⟩
          · rintro (hx | ⟨rfl, ⟨rfl, rfl⟩ | hx⟩)
            · exact Or.inl (Or.inr hx)
            · exact Or.inl (Or.inl ⟨⟨rfl, rfl⟩, rfl⟩)
            · exact Or.inr ⟨rfl, hx⟩

/-- It makes no difference in which order rows are entered. -/
theorem indexRows_perm {ids ids' : List RowId} (h : ids.Perm ids') :
    img.indexRows column ids = img.indexRows column ids' := by
  rw [indexRows_eq ids, indexRows_eq ids']
  refine Image.ext rfl rfl rfl rfl rfl (funext fun at_ => OrderedSet.ext_mem fun x => ?_)
  rw [mem_indexRows, mem_indexRows]
  simp only [h.mem_iff]

end Image

namespace Table

variable {tb : Table} {column : String}

/-- The rows that hold a value in a column, entered into an index that has some of them or none. -/
theorem indexRows_image (tb : Table) (column : String) :
    { tb.image with indexed := OrderedSet.add tb.indexed column }.indexRows column tb.ids.members =
      (tb.addIndex column).image := by
  rw [Image.indexRows_eq]
  refine Image.ext rfl rfl rfl rfl rfl ?_
  funext ⟨column', value⟩
  apply OrderedSet.ext_mem
  intro x
  rw [Image.mem_indexRows]
  show x ∈ tb.image.index (column', value) ∨ _ ↔ _
  rw [mem_index, mem_index]
  show _ ↔ column' ∈ OrderedSet.add tb.indexed column ∧ _
  rw [OrderedSet.mem_add]
  constructor
  · rintro (⟨hi, hx⟩ | ⟨rfl, id, -, hx⟩)
    · exact ⟨Or.inr hi, hx⟩
    · exact ⟨Or.inl rfl, id, hx⟩
  · rintro ⟨rfl | hi, id, hcell, hx⟩
    · exact Or.inr ⟨rfl, id, mem_ids.mpr (mem_rows_of_cell hcell), hcell, hx⟩
    · exact Or.inl ⟨hi, id, hcell, hx⟩

theorem clear_image (tb : Table) (column : String) :
    { tb.image with indexed := tb.indexed.erase column }.clear column =
      (tb.dropIndex column).image := by
  refine Image.ext rfl rfl rfl rfl rfl ?_
  funext at_
  have hindex : (tb.dropIndex column).image.index at_ =
      if at_.1 ∈ tb.indexed.erase column then (tb.holding at_.1 at_.2).texts else ∅ := rfl
  rw [hindex, Image.index_clear]
  by_cases hc : at_.1 = column <;> simp [hc, image]

end Table

namespace StoreM

variable {t : TableName} {l : Layout} {tb : Table} {column : String}
variable (ht : t.Tagged)

section
variable (hcolumn : ':' ∉ column.toList)
include ht hcolumn

theorem runs_moveIndexed (img : Image) (old : Option String) (new : String) (id : RowId) :
    Runs (Engine.moveIndexed t column old new id) (img.on t l) (.ok ())
      ((img.move column old new id).on t l) := by
  unfold Engine.moveIndexed Image.move
  by_cases h : old = some new
  · simp only [if_pos h]
    exact Runs.ret ()
  · simp only [if_neg h]
    cases old with
    | none => exact (runs_sadd_index _ ht hcolumn new id).bind (Runs.ret ())
    | some old =>
        refine (runs_srem_index _ ht hcolumn old id).bind ?_
        exact (runs_sadd_index _ ht hcolumn new id).bind (Runs.ret ())

theorem runs_indexRows (img : Image) (ids : List RowId) :
    Runs (Engine.indexRows t column ids) (img.on t l)
      (.ok (ids.filter fun id => ((img.row id).get? column).isSome).length)
      ((img.indexRows column ids).on t l) := by
  induction ids generalizing img with
  | nil => exact Runs.ret 0
  | cons id rest ih =>
      rw [Engine.indexRows, Image.indexRows]
      refine (runs_hget_row _ ht id column).bind ?_
      cases hvalue : (img.row id).get? column with
      | none =>
          simp only [List.filter_cons, hvalue, Option.isSome_none]
          exact ih img
      | some value =>
          simp only [List.filter_cons, hvalue, Option.isSome_some, if_true]
          refine (runs_sadd_index _ ht hcolumn value id).bind ?_
          exact (ih (img.enter column value id)).bind (Runs.ret _)

omit hcolumn in
/-- The keys of an index, by their pattern. -/
theorem matchesKey_index (hcolumn : ':' ∉ column.toList) {k : Key} (hk : k.Proper) :
    Glob.matchesKey (t.indexPattern column) k.text = true ↔ ∃ value, k = .index t column value := by
  rw [TableName.matchesKey_indexPattern, Key.indexStem_prefix_iff ht hcolumn hk]

/-- Without the keys that match the pattern of an index, the index is empty. -/
theorem on_clear (img : Image) {k : Key} (hk : k.Proper) :
    (img.clear column).on t l k =
      if Glob.matchesKey (t.indexPattern column) k.text then none else img.on t l k := by
  by_cases h : ∃ value, k = .index t column value
  · rw [if_pos ((matchesKey_index ht hcolumn hk).mpr h)]
    obtain ⟨value, rfl⟩ := h
    rw [Image.on_of_table rfl, Image.entry, Image.index_clear, if_pos rfl, Entry.ofSet_empty]
  · rw [if_neg fun h' => h ((matchesKey_index ht hcolumn hk).mp h')]
    by_cases htable : k.table? = some t
    · rw [Image.on_of_table htable, Image.on_of_table htable]
      cases k with
      | index t' column' value =>
          obtain rfl := Option.some.inj htable
          have hne : column' ≠ column := by
            rintro rfl
            exact h ⟨value, rfl⟩
          rw [Image.entry, Image.entry, Image.index_clear, if_neg hne]
      | _ => rfl
    · rw [Image.on_of_ne htable, Image.on_of_ne htable]

omit ht hcolumn in
/-- An index has a key for each value that rows hold. -/
theorem isSome_on_index (indexed : OrderedSet String) (value : String) :
    ({ tb.image with indexed }.on t l (.index t column value)).isSome = true ↔
      column ∈ tb.indexed ∧ value ∈ tb.values column := by
  rw [Image.on_of_table rfl, Image.entry, Entry.isSome_ofSet_iff, Table.mem_values]
  show (∃ x, x ∈ tb.image.index (column, value)) ↔ _
  simp only [Table.mem_index]
  constructor
  · rintro ⟨_, hi, id, hcell, -⟩
    exact ⟨hi, id, hcell⟩
  · rintro ⟨hi, id, hcell⟩
    exact ⟨toString id, hi, id, hcell, rfl⟩

theorem runs_delIndex_count (tb : Table) (indexed : OrderedSet String) (pageSize : Nat) :
    Runs (delMatching (t.indexPattern column) pageSize)
      ({ tb.image with indexed }.on t l)
      (.ok (if column ∈ tb.indexed then (tb.values column).size else 0))
      (({ tb.image with indexed }.clear column).on t l) := by
  have hclear := fun k hk => on_clear (k := k) (l := l) ht hcolumn { tb.image with indexed } hk
  by_cases hi : column ∈ tb.indexed
  · have hnodup : ((tb.values column).members.map (Key.index t column)).Nodup :=
      List.pairwise_map.mpr ((tb.values column).nodup_keys.imp fun hne heq =>
        hne (Key.index.inj heq).2.2)
    have hcount := runs_delMatching_count _ pageSize hnodup (fun k => ?_) hclear
    · rw [List.length_map, OrderedSet.members, OrderedMap.length_keys] at hcount
      rwa [if_pos hi]
    · rw [List.mem_map]
      constructor
      · rintro ⟨value, hvalue, rfl⟩
        have hk : (Key.index t column value).Proper := ⟨ht, hcolumn⟩
        exact ⟨hk, (matchesKey_index ht hcolumn hk).mpr ⟨value, rfl⟩,
          (isSome_on_index indexed value).mpr ⟨hi, hvalue⟩⟩
      · rintro ⟨hk, hmatch, hsome⟩
        obtain ⟨value, rfl⟩ := (matchesKey_index ht hcolumn hk).mp hmatch
        exact ⟨value, ((isSome_on_index indexed value).mp hsome).2, rfl⟩
  · have hnodup : ([] : List Key).Nodup := List.nodup_nil
    have hcount := runs_delMatching_count _ pageSize hnodup (fun k => ?_) hclear
    · rwa [if_neg hi]
    · refine iff_of_false (List.not_mem_nil) ?_
      rintro ⟨hk, hmatch, hsome⟩
      obtain ⟨value, rfl⟩ := (matchesKey_index ht hcolumn hk).mp hmatch
      exact hi ((isSome_on_index indexed value).mp hsome).1

end

variable (hn : t.Names tb) (hv : tb.Valid)

include hv in
theorem column_name_of_columnType {type : ColumnType}
    (h : Reference.columnType t tb column = .ok type) : ':' ∉ column.toList := by
  unfold Reference.columnType at h
  cases htype : tb.columns.get? column with
  | none =>
      rw [htype] at h
      cases h
  | some type => exact hv.column_name (OrderedMap.mem_of_get? htype)

include hn hv

/-- An index is built from the rows in any order. -/
theorem refines_addIndex (order : Enumeration RowId) (column : String) :
    Refines (Engine.addIndexBy order t column) t (fun _ => ∅) l tb
      (Reference.addIndex t tb column) := by
  refine Refines.check (runs_ensureTable hn.proper) fun _ hensure => ?_
  have ht := hn.of_ensure hensure
  refine Refines.check (runs_columnType ht column) fun type htype => ?_
  have hname := column_name_of_columnType hv htype
  have hrows := runs_indexRows (l := l) ht hname
    { tb.image with indexed := OrderedSet.add tb.indexed column } (order.list tb.ids)
  rw [Image.indexRows_perm (order.perm tb.ids), tb.indexRows_image,
    ((order.perm tb.ids).filter _).length_eq] at hrows
  exact .done ((runs_sadd_indexed _ ht column).bind ((runs_allRows ht hv rfl).bind hrows))

theorem refines_dropIndex (column : String) (pageSize : Nat) :
    Refines (Engine.dropIndex t column pageSize) t (fun _ => ∅) l tb
      (Reference.dropIndex t tb column) := by
  refine Refines.check (runs_ensureTable hn.proper) fun _ hensure => ?_
  have ht := hn.of_ensure hensure
  refine Refines.check (runs_columnType ht column) fun type htype => ?_
  have hname := column_name_of_columnType hv htype
  have hdel := runs_delIndex_count (l := l) ht hname tb (tb.indexed.erase column) pageSize
  rw [tb.clear_image] at hdel
  exact .done ((runs_srem_indexed _ ht column).bind (hdel.bind (Runs.ret _)))

end StoreM

end Tabular
