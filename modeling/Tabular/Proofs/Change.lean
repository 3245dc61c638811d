import Tabular.Proofs.Candidates
import Tabular.Proofs.Counter

/-!
Updates that a failure cuts short, and that are repeated. A field is written before its row is moved
under the index of the column, so a cut leaves a table, or a row that holds its new value and is not
under it (`cutsBy_update`). The same update run again writes that value only where it is already, and
then leaves the index alone, so it never enters the row (`runs_update_of_halfMoved`).
-/

namespace Tabular

/-! ### Fields set on an image -/

namespace Image

variable {img img' : Image} {id id' : RowId} {field : String × String} {column value : String}

theorem setField_eq : img.setField id field =
    { img with row := (img.setField id field).row, index := (img.setField id field).index } := by
  unfold setField
  dsimp only
  split
  · rw [move_eq]
    rfl
  · rfl

theorem row_setField (id' : RowId) : (img.setField id field).row id' =
    if id' = id then (img.row id).insert field.1 field.2 else img.row id' := by
  have hset : (img.setRow id ((img.row id).insert field.1 field.2)).row id' = _ := row_setRow ..
  unfold setField
  dsimp only
  split
  · rw [move_eq]
    exact hset
  · exact hset

/-- Fields of a list are set on rows, in any number and any order. -/
def Sets (fields : List (String × String)) : Image → Image → Prop :=
  Relation.ReflTransGen fun img img' => ∃ id, ∃ field ∈ fields, img' = img.setField id field

theorem Sets.eq {fields : List (String × String)} (h : Sets fields img img') :
    img' = { img with row := img'.row, index := img'.index } := by
  induction h with
  | refl => rfl
  | tail _ hset ih =>
      obtain ⟨id, field, -, rfl⟩ := hset
      rw [setField_eq, ih]

/-- The row holds the value in the column and is not under it. -/
structure Misses (img : Image) (column value : String) (id : RowId) : Prop where
  row : (img.row id).get? column = some value
  index : toString id ∉ img.index (column, value)

/-- To set the column to the value does not enter the row, because the row holds it. -/
theorem Misses.setField (h : img.Misses column value id)
    (hfield : field.1 = column → field.2 = value) (id' : RowId) :
    (img.setField id' field).Misses column value id := by
  constructor
  · rw [row_setField]
    split
    · next heq =>
        subst heq
        rw [OrderedMap.get?_insert]
        split
        · next hcolumn => rw [hfield hcolumn.symm]
        · exact h.row
    · exact h.row
  · unfold Image.setField
    dsimp only
    split
    · rw [mem_move]
      rintro (⟨hne, hat, hid⟩ | ⟨-, hx⟩)
      · obtain ⟨rfl, rfl⟩ := Prod.mk.inj hat
        obtain rfl := Text.toString_injective hid
        exact hne h.row
      · exact h.index hx
    · exact h.index

theorem Misses.sets {fields : List (String × String)} (h : img.Misses column value id)
    (hfields : ∀ field ∈ fields, field.1 = column → field.2 = value) (hsets : Sets fields img img') :
    img'.Misses column value id := by
  induction hsets with
  | refl => exact h
  | tail _ hset ih =>
      obtain ⟨id', field, hfield, rfl⟩ := hset
      exact ih.setField (hfields field hfield) id'

end Image

/-! ### What a cut leaves -/

/-- A row holds its new value in an indexed column and is not under it. The columns are those of a
table. -/
structure Image.HalfMoved (img : Image) (tb : Table) (new : OrderedMap String String) : Prop where
  types : img.types = tb.image.types
  indexed : img.indexed = tb.indexed
  row : ∃ id column value, toString id ∈ img.members ∧ column ∈ tb.indexed ∧
    new.get? column = some value ∧ img.Misses column value id

theorem Image.HalfMoved.sets {img img' : Image} {tb : Table} {new : OrderedMap String String}
    (h : img.HalfMoved tb new) (hsets : Sets new.toList img img') : img'.HalfMoved tb new := by
  obtain ⟨id, column, value, hlive, hi, hnew, hmisses⟩ := h.row
  have hkeep := hsets.eq
  have hfields : ∀ field ∈ new.toList, field.1 = column → field.2 = value := by
    rintro ⟨column', value'⟩ hfield rfl
    rw [OrderedMap.get?_eq_some_iff.mpr hfield] at hnew
    exact Option.some.inj hnew
  refine ⟨?_, ?_, id, column, value, ?_, hi, hnew, hmisses.sets hfields hsets⟩
  · rw [hkeep]
    exact h.types
  · rw [hkeep]
    exact h.indexed
  · rw [hkeep]
    exact hlive

/-- What an update leaves in which a primitive has failed. Only a failure to change an index set
leaves a row between two of them. -/
def Image.Updating (img : Image) (tb : Table) (new : OrderedMap String String) (q : Primitive) :
    Prop :=
  if q = .srem ∨ q = .sadd then img.HalfMoved tb new
  else ∃ tb' : Table, tb'.Valid ∧ tb'.columns = tb.columns ∧ img = tb'.image

namespace Image.Updating

variable {img : Image} {tb tb' : Table} {new : OrderedMap String String} {q : Primitive}

theorem of_table (hv : tb.Valid) (hq : ¬ (q = .srem ∨ q = .sadd)) :
    tb.image.Updating tb new q := by
  rw [Updating, if_neg hq]
  exact ⟨tb, hv, rfl, rfl⟩

theorem of_looks (hv : tb.Valid) (hq : q.looks = true) : tb.image.Updating tb new q := by
  refine of_table hv ?_
  rintro (rfl | rfl) <;> cases hq

/-- What is left does not depend on the rows that the update began with. -/
theorem of_columns (h : img.Updating tb' new q) (hcolumns : tb'.columns = tb.columns)
    (hindexed : tb'.indexed = tb.indexed) : img.Updating tb new q := by
  unfold Updating at *
  split
  · next hq =>
      rw [if_pos hq] at h
      have htypes : tb'.image.types = tb.image.types := by
        show tb'.columns.mapValues _ = tb.columns.mapValues _
        rw [hcolumns]
      obtain ⟨id, column, value, hlive, hi, hrow⟩ := h.row
      exact ⟨h.types.trans htypes, h.indexed.trans hindexed, id, column, value, hlive,
        hindexed ▸ hi, hrow⟩
  · next hq =>
      rw [if_neg hq] at h
      obtain ⟨tb'', hv, hcolumns', himg⟩ := h
      exact ⟨tb'', hv, hcolumns'.trans hcolumns, himg⟩

end Image.Updating

namespace StoreM

variable {t : TableName} {l : Layout} {tb : Table} {limit : Nat}

theorem steady_moveIndexed (t : TableName) (column : String) (old : Option String) (new : String)
    (id : RowId) : Steady (Engine.moveIndexed t column old new id) := by
  have hadd : Steady (do let _ ← sadd (Key.index t column new).text (toString id)) :=
    (Steady.call _ _).bind fun _ => Steady.ret ()
  unfold Engine.moveIndexed
  split
  · exact Steady.ret _
  · cases old with
    | none => exact hadd
    | some old => exact Steady.bind (Steady.call _ _) fun _ => hadd

theorem steady_assign (t : TableName) (indexed : OrderedSet String) (id : RowId)
    (field : String × String) : Steady (Engine.assign t indexed id field) := by
  refine Steady.bind (Reads.look _ _ rfl).steady fun old => Steady.bind (Steady.call _ _) fun _ => ?_
  split
  · exact steady_moveIndexed t _ _ _ _
  · exact Steady.ret _

theorem steady_assignAll (t : TableName) (indexed : OrderedSet String)
    (fields : List (String × String)) (ids : List RowId) :
    Steady (Engine.assignAll t indexed fields ids) := by
  induction ids with
  | nil => exact Steady.ret 0
  | cons id rest ih =>
      refine Steady.bind (Reads.look _ _ rfl).steady fun type => ?_
      split
      · exact ih
      · refine Steady.bind (Steady.forM fun field => steady_assign t indexed id field) fun _ => ?_
        exact ih.bind fun _ => Steady.ret _

section
variable (ht : t.Tagged)
include ht

/-- A row that is not under its new value is not there yet when the move is cut. -/
theorem cutsBy_moveIndexed (img : Image) {column new : String} (hcolumn : ':' ∉ column.toList)
    (old : Option String) (id : RowId) (hrow : (img.row id).get? column = some new)
    (hindex : old ≠ some new → toString id ∉ img.index (column, new)) :
    CutsBy (Engine.moveIndexed t column old new id) t l img fun q img' =>
      (q = .srem ∨ q = .sadd) ∧ img' = { img with index := img'.index } ∧
        img'.Misses column new id := by
  unfold Engine.moveIndexed
  by_cases h : old = some new
  · simp only [if_pos h]
    exact CutsBy.ret ()
  · have hmisses : img.Misses column new id := ⟨hrow, hindex h⟩
    simp only [if_neg h]
    cases old with
    | none =>
        refine CutsBy.step ⟨Or.inr rfl, rfl, hmisses⟩ (runs_sadd_index img ht hcolumn new id) ?_
        exact CutsBy.ret ()
    | some old =>
        refine CutsBy.step ⟨Or.inl rfl, rfl, hmisses⟩ (runs_srem_index img ht hcolumn old id) ?_
        have hremoved : (img.remove column old id).Misses column new id :=
          ⟨hrow, fun hx => hmisses.index (Image.mem_remove.mp hx).2⟩
        refine CutsBy.step ⟨Or.inr rfl, rfl, hremoved⟩ (runs_sadd_index _ ht hcolumn new id) ?_
        exact CutsBy.ret ()

section
variable (hv : tb.Valid) {new : OrderedMap String String}
include hv

theorem cutsBy_assign {id : RowId} (hid : id ∈ tb.rows) {field : String × String}
    (hfield : new.get? field.1 = some field.2) :
    CutsBy (Engine.assign t tb.indexed id field) t l tb.image fun q img => img.Updating tb new q := by
  obtain ⟨column, value⟩ := field
  have hset := runs_hset_row tb.image (l := l) ht id column value
  have hlooks (q : Primitive) (hq : q.looks = true) : tb.image.Updating tb new q := .of_looks hv hq
  refine CutsBy.look hlooks (Reads.look _ _ rfl) (runs_hget_row _ ht id column) ?_
  refine CutsBy.step (Image.Updating.of_table hv (by simp)) hset ?_
  by_cases hi : column ∈ tb.indexed
  · simp only [if_pos (OrderedMap.contains_iff.mpr hi)]
    have hrow : ((tb.image.setRow id ((tb.image.row id).insert column value)).row id).get? column =
        some value := by
      rw [Image.row_setRow, if_pos rfl, OrderedMap.get?_insert, if_pos rfl]
    have hindex : (tb.image.row id).get? column ≠ some value →
        toString id ∉ (tb.image.setRow id ((tb.image.row id).insert column value)).index
          (column, value) := by
      intro hne hx
      obtain ⟨-, id', hcell, heq⟩ := Table.mem_index.mp hx
      obtain rfl := Text.toString_injective heq
      exact hne hcell
    refine (cutsBy_moveIndexed ht _ (hv.indexed_name hi) _ id hrow hindex).mono fun q img himg => ?_
    obtain ⟨hq, heq, hmisses⟩ := himg
    rw [Image.Updating, if_pos hq]
    refine ⟨?_, ?_, id, column, value, ?_, hi, hfield, hmisses⟩
    · rw [heq]
      rfl
    · rw [heq]
      rfl
    · rw [heq]
      exact RowSet.toString_mem_texts.mpr (Table.mem_ids.mpr hid)
  · simp only [if_neg fun h => hi (OrderedMap.contains_iff.mp h)]
    exact CutsBy.ret ()

theorem cutsBy_assigns {id : RowId} (hid : id ∈ tb.rows) {fields : List (String × String)}
    (hfields : ∀ field ∈ fields, new.get? field.1 = some field.2)
    (hadmits : ∀ field ∈ fields, tb.Admits field.1 field.2) :
    CutsBy (fields.forM (Engine.assign t tb.indexed id)) t l tb.image
      fun q img => img.Updating tb new q := by
  induction fields generalizing tb with
  | nil => exact CutsBy.ret ()
  | cons field rest ih =>
      obtain ⟨hfield, hrest⟩ := List.forall_mem_cons.mp hfields
      obtain ⟨hvalue, hadmits⟩ := List.forall_mem_cons.mp hadmits
      rw [List.forM_eq_forM, List.forM_cons]
      have hassign : Runs _ (tb.image.on t l) _ ((tb.setField id field).image.on t l) :=
        runs_assign ht hv hid field
      refine CutsBy.bind (steady_assign t _ id field) (cutsBy_assign ht hv hid hfield) hassign ?_
      refine (ih (hv.setField hid hvalue) (OrderedMap.mem_mapWithKey.mpr hid) hrest hadmits).mono ?_
      exact fun q img himg => himg.of_columns rfl rfl

theorem cutsBy_assignAll
    (hnew : ∀ {column value}, new.get? column = some value → tb.Admits column value)
    {ids : List RowId} (hids : ∀ id ∈ ids, id ∈ tb.rows) :
    CutsBy (Engine.assignAll t tb.indexed new.toList ids) t l tb.image
      fun q img => img.Updating tb new q := by
  induction ids generalizing tb with
  | nil => exact CutsBy.ret 0
  | cons id rest ih =>
      obtain ⟨hid, hrest⟩ := List.forall_mem_cons.mp hids
      have hlooks (q : Primitive) (hq : q.looks = true) : tb.image.Updating tb new q :=
        .of_looks hv hq
      have hfields : ∀ field ∈ new.toList, new.get? field.1 = some field.2 :=
        fun field hf => OrderedMap.get?_eq_some_iff.mpr hf
      have htype := runs_keyType_row tb.image (l := l) ht id
      have hne : (tb.image.row id).isEmpty = false := hv.row_fields hid
      rw [hne] at htype
      have hassign : Runs (new.toList.forM (Engine.assign t tb.indexed id)) (tb.image.on t l) (.ok ())
          ((tb.assign [id] new).image.on t l) := by
        rw [← tb.foldl_setField]
        exact runs_assigns ht hv hid new.toList fun field hf => hnew (hfields field hf)
      refine CutsBy.look hlooks (Reads.look _ _ rfl) htype ?_
      refine CutsBy.bind (Steady.forM fun field => steady_assign t _ id field)
        (cutsBy_assigns ht hv hid hfields fun field hf => hnew (hfields field hf)) hassign ?_
      refine CutsBy.map (steady_assignAll t _ _ rest) ((ih (hv.assign [id] hnew) hnew
        fun id hid => OrderedMap.mem_mapWithKey.mpr (hrest id hid)).mono ?_) _
      exact fun q img himg => himg.of_columns rfl rfl

end

/-! ### Updates run again -/

/-- Rows that are there get the fields, others are passed over. -/
theorem runs_assignAll_on {img : Image} (hindexed : ∀ column ∈ img.indexed, ':' ∉ column.toList)
    (fields : List (String × String)) (ids : List RowId) :
    ∃ n img', Image.Sets fields img img' ∧
      Runs (Engine.assignAll t img.indexed fields ids) (img.on t l) (.ok n) (img'.on t l) := by
  have hassigns (id : RowId) {rest : List (String × String)} (hrest : ∀ field ∈ rest, field ∈ fields)
      {img : Image} (hindexed : ∀ column ∈ img.indexed, ':' ∉ column.toList) :
      ∃ img', Image.Sets fields img img' ∧
        Runs (rest.forM (Engine.assign t img.indexed id)) (img.on t l) (.ok ()) (img'.on t l) := by
    induction rest generalizing img with
    | nil => exact ⟨img, .refl, Runs.ret ()⟩
    | cons field rest ih =>
        obtain ⟨hfield, hrest⟩ := List.forall_mem_cons.mp hrest
        have hkeep : (img.setField id field).indexed = img.indexed := by rw [Image.setField_eq]
        obtain ⟨img', hsets, hruns⟩ := ih hrest (hkeep.symm ▸ hindexed)
        rw [hkeep] at hruns
        exact ⟨img', .head ⟨id, field, hfield, rfl⟩ hsets,
          (runs_assign_on ht img hindexed id field).bind hruns⟩
  induction ids generalizing img with
  | nil => exact ⟨0, img, .refl, Runs.ret 0⟩
  | cons id rest ih =>
      have htype := runs_keyType_row img (l := l) ht id
      cases hempty : (img.row id).isEmpty with
      | true =>
          obtain ⟨n, img', hsets, hruns⟩ := ih hindexed
          rw [hempty] at htype
          exact ⟨n, img', hsets, htype.bind hruns⟩
      | false =>
          obtain ⟨img₁, hsets, hassign⟩ := hassigns id (fun _ hf => hf) hindexed
          have hkeep : img₁.indexed = img.indexed := by rw [hsets.eq]
          obtain ⟨n, img₂, hsets', hruns⟩ := ih (hkeep.symm ▸ hindexed)
          rw [hempty] at htype
          rw [hkeep] at hruns
          exact ⟨_, img₂, hsets.trans hsets', htype.bind (hassign.bind (hruns.bind (Runs.ret _)))⟩

end

section
variable (hn : t.Names tb) (hv : tb.Valid) (hthere : tb.columns.isEmpty = false)
variable {fields : List (String × String)} (hfields : fields.isEmpty = false)
variable {new : OrderedMap String String} (hnew : Engine.checkFields t tb.columns fields = .ok new)
include hn hv hthere hfields hnew

/-- A cut update leaves a table or a row that is half moved. -/
theorem cutsBy_update (order : Enumeration RowId) {w : Option WhereClause} {ids : List RowId}
    (hids : Reference.rows limit t tb w = .ok ids) :
    CutsBy (Engine.updateBy order limit t w fields) t l tb.image
      fun q img => img.Updating tb new q := by
  have ht := hn.of_rows hids
  have hlooks (q : Primitive) (hq : q.looks = true) : tb.image.Updating tb new q := .of_looks hv hq
  have hensure := runs_ensureTable_of (l := l) (rfl : tb.image.types = tb.image.types) hn.proper
  have hok : Reference.ensure t tb = .ok () := Reference.ensure_eq_ok.mpr hthere
  have hrows : Runs (Query.rowsBy order limit t w) (tb.image.on t l)
      (Reference.rows limit t tb w) (tb.image.on t l) := runs_rows hn hv w
  rw [hok] at hensure
  rw [hids] at hrows
  refine CutsBy.look hlooks (reads_ensureTable t) hensure ?_
  simp only [hfields, Bool.false_eq_true, if_false]
  refine CutsBy.look hlooks (reads_columnTypes t) (runs_columnTypes ht) ?_
  rw [hnew]
  refine CutsBy.look hlooks (Reads.of_except _) (Runs.of_except _) ?_
  refine CutsBy.look hlooks (reads_indexedColumns t) (runs_indexedColumns ht) ?_
  refine CutsBy.look hlooks (reads_rows order limit t w) hrows ?_
  exact cutsBy_assignAll ht hv (Engine.checkFields_admits hnew)
    fun _ => Table.mem_rows_of_reference hids

omit hn hv hthere hnew in
theorem steady_update (order : Enumeration RowId) (w : Option WhereClause) :
    Steady (Engine.updateBy order limit t w fields) := by
  refine (reads_ensureTable t).steady.bind fun _ => ?_
  simp only [hfields, Bool.false_eq_true, if_false]
  refine (reads_columnTypes t).steady.bind fun types => ?_
  refine (Steady.of_except _).bind fun checked => ?_
  refine (reads_indexedColumns t).steady.bind fun indexed => ?_
  exact (reads_rows order limit t w).steady.bind fun ids => steady_assignAll t indexed _ ids

/-- The update run again, whether it succeeds or fails, leaves the row where it is. -/
theorem runs_update_of_halfMoved (order : Enumeration RowId) {img : Image}
    (himg : img.HalfMoved tb new) (w : Option WhereClause) :
    ∃ (r : Except Error Nat) (img' : Image), img'.HalfMoved tb new ∧
      Runs (Engine.updateBy order limit t w fields) (img.on t l) r (img'.on t l) := by
  have hok : Reference.ensure t tb = .ok () := Reference.ensure_eq_ok.mpr hthere
  have ht := hn.of_ensure hok
  have hensure := runs_ensureTable_of (l := l) himg.types hn.proper
  rw [hok] at hensure
  have hindexed : ∀ column ∈ img.indexed, ':' ∉ column.toList := by
    rw [himg.indexed]
    exact fun _ => hv.indexed_name
  have hrows : Runs (Query.rowsBy order limit t w) (img.on t l) (img.rows limit t tb w)
      (img.on t l) := runs_rows_on hn hv himg.types himg.indexed w
  -- before the rows are known nothing is written
  have hrun {r : Except Error Nat} {img' : Image}
      (h : Runs (Query.rowsBy order limit t w >>= Engine.assignAll t img.indexed new.toList)
        (img.on t l) r (img'.on t l)) :
      Runs (Engine.updateBy order limit t w fields) (img.on t l) r (img'.on t l) := by
    refine hensure.bind ?_
    simp only [hfields, Bool.false_eq_true, if_false]
    refine (runs_columnTypes_of himg.types ht).bind ?_
    rw [hnew]
    exact (Runs.of_except _).bind ((runs_smembers_indexed img ht).bind h)
  cases hids : img.rows limit t tb w with
  | error e =>
      rw [hids] at hrows
      exact ⟨_, img, himg, hrun hrows.bind_error⟩
  | ok ids =>
      rw [hids] at hrows
      obtain ⟨n, img', hsets, hruns⟩ := runs_assignAll_on (l := l) ht hindexed new.toList ids
      exact ⟨_, img', himg.sets hsets, hrun (hrows.bind hruns)⟩

end

end StoreM

end Tabular
