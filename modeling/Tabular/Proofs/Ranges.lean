import Tabular.Proofs.Order
import Tabular.Proofs.Transparency

/-!
Range queries. The values that rows hold are of the types of their columns and so have an order with
every value of that type. A row with a column is thus on one side of a value or on the other, or
holds an equal one, and queries for what is below the value and for what is not share out the rows
that have the column (`Store.Reachable.ranges_partition`).
-/

namespace Tabular

/-- The clause of one comparison. -/
def WhereClause.single (column : String) (op : Comparison) (value : String) : WhereClause :=
  ⟨⟨column, op, value⟩, []⟩

/-- The clause with one more condition, which must hold as well. -/
def WhereClause.and (w : WhereClause) (c : Condition) : WhereClause :=
  ⟨w.first, w.rest ++ [(.and, c)]⟩

/-! ### Comparisons with one value -/

namespace Comparison

/-- Two comparisons of which exactly one holds, whatever the order. -/
def Opposite (op op' : Comparison) : Prop := ∀ o, op.holds o = !op'.holds o

theorem opposite_lt_ge : Opposite .lt .ge := by
  intro o
  cases o <;> rfl

theorem opposite_gt_le : Opposite .gt .le := by
  intro o
  cases o <;> rfl

/-- Neither less nor greater is equal. -/
theorem holds_eq (o : Ordering) : eq.holds o = (ge.holds o && le.holds o) := by
  cases o <;> rfl

end Comparison

namespace Condition

variable {type : ColumnType} {stored value value' column : String}

/-- Two values of a type have an order, by which all comparisons go. -/
theorem exists_ordering (hstored : type.accepts stored = true)
    (hvalue : type.accepts value = true) :
    ∃ o, ∀ column op, accepts ⟨column, op, value⟩ type stored = op.holds o := by
  obtain ⟨α, _, rank, hrank⟩ := type.exists_rank
  refine ⟨Ord.compare (rank stored) (rank value), fun column op => ?_⟩
  unfold accepts
  rw [hrank hstored hvalue]
  rfl

/-- What is no less than a value is no less than any value that is no greater. -/
theorem accepts_ge_trans (hstored : type.accepts stored = true)
    (hvalue' : type.accepts value' = true) (hvalue : type.accepts value = true)
    (h : accepts ⟨column, .ge, value'⟩ type stored = true)
    (h' : accepts ⟨column, .ge, value⟩ type value' = true) :
    accepts ⟨column, .ge, value⟩ type stored = true := by
  obtain ⟨α, _, rank, hrank⟩ := type.exists_rank
  unfold accepts at *
  rw [hrank hstored hvalue'] at h
  rw [hrank hvalue' hvalue] at h'
  rw [hrank hstored hvalue]
  simp only [Option.any_some, Comparison.holds, decide_eq_true_iff, compare_ge_iff_ge] at h h' ⊢
  exact le_trans h' h

end Condition

/-! ### Rows of a table -/

theorem Row.get?_toList (id : RowId) (fields : OrderedMap String String) (column : String) :
    (⟨id, fields.toList⟩ : Row).get? column = fields.get? column := by
  have hlookup : ∀ l : List (String × String),
      (l.find? fun field => field.1 = column).map (·.2) = OrderedMap.lookupIn column l := by
    intro l
    induction l with
    | nil => rfl
    | cons field rest ih =>
        rw [OrderedMap.lookupIn, ← ih]
        by_cases h : field.1 = column
        · rw [List.find?_cons_of_pos (by simpa using h), if_pos h.symm]
          rfl
        · rw [List.find?_cons_of_neg (by simpa using h), if_neg fun heq => h heq.symm]
  exact hlookup fields.toList

namespace Table

variable {tb : Table} {id : RowId} {column value value' : String} {type : ColumnType}
variable {op op' : Comparison}

/-- A row of the table with all its fields. -/
def IsRow (tb : Table) (row : Row) : Prop := row.id ∈ tb.ids ∧ tb.row row.id = row

theorem IsRow.get? {row : Row} (h : tb.IsRow row) (column : String) :
    row.get? column = tb.cell row.id column :=
  (congrArg (Row.get? · column) h.2.symm).trans (Row.get?_toList ..)

section
variable (hv : tb.Valid) (htype : tb.columns.get? column = some type)
variable (hvalue : type.accepts value = true)
include hv htype hvalue

/-- A row that has the column satisfies the comparisons with a value that hold of some order. -/
theorem exists_ordering {stored : String} (hcell : tb.cell id column = some stored) :
    ∃ o, ∀ op, tb.satisfies ⟨column, op, value⟩ id = op.holds o := by
  obtain ⟨o, ho⟩ := Condition.exists_ordering (hv.accepts_of_cell htype hcell) hvalue
  refine ⟨o, fun op => ?_⟩
  rw [satisfies_eq htype, hcell]
  exact ho column op

/-- Of two opposite comparisons a row satisfies one if it has the column, and never both. -/
theorem satisfies_opposite (h : op.Opposite op') :
    ¬ (tb.satisfies ⟨column, op, value⟩ id = true ∧ tb.satisfies ⟨column, op', value⟩ id = true) ∧
    (tb.satisfies ⟨column, op, value⟩ id = true ∨ tb.satisfies ⟨column, op', value⟩ id = true ↔
      (tb.cell id column).isSome = true) := by
  cases hcell : tb.cell id column with
  | none =>
      have hnone (op : Comparison) : tb.satisfies ⟨column, op, value⟩ id = false :=
        satisfies_of_cell_eq_none hcell
      simp [hnone]
  | some stored =>
      obtain ⟨o, ho⟩ := exists_ordering hv htype hvalue hcell
      rw [ho, ho, h o]
      cases op'.holds o <;> simp

theorem satisfies_eq_iff : tb.satisfies ⟨column, .eq, value⟩ id = true ↔
    tb.satisfies ⟨column, .ge, value⟩ id = true ∧ tb.satisfies ⟨column, .le, value⟩ id = true := by
  cases hcell : tb.cell id column with
  | none =>
      have hnone (op : Comparison) : tb.satisfies ⟨column, op, value⟩ id = false :=
        satisfies_of_cell_eq_none hcell
      simp [hnone]
  | some stored =>
      obtain ⟨o, ho⟩ := exists_ordering hv htype hvalue hcell
      rw [ho, ho, ho, Comparison.holds_eq, Bool.and_eq_true]

theorem satisfies_ge_trans (hvalue' : type.accepts value' = true)
    (hle : Condition.accepts ⟨column, .ge, value⟩ type value' = true)
    (h : tb.satisfies ⟨column, .ge, value'⟩ id = true) :
    tb.satisfies ⟨column, .ge, value⟩ id = true := by
  cases hcell : tb.cell id column with
  | none =>
      rw [satisfies_of_cell_eq_none hcell] at h
      cases h
  | some stored =>
      have hstored := hv.accepts_of_cell htype hcell
      rw [satisfies_eq htype, hcell] at h ⊢
      exact Condition.accepts_ge_trans hstored hvalue' hvalue h hle

end

/-- A comparison that is no equality is left to a filter. -/
theorem holds_single (hop : op ≠ .eq) :
    tb.holds id (WhereClause.single column op value) = tb.satisfies ⟨column, op, value⟩ id := by
  show tb.finds ⟨column, op, value⟩ id = _
  exact if_neg fun hs => hop hs.1

/-- One more condition is a filter on the rows that the clause means. -/
theorem passes_and (tb : Table) (w : WhereClause) (c : Condition) :
    tb.passes (w.and c) = tb.passes w ++ [(tb.meaning w).size] := by
  have hrest : ∀ (rest : List (Connective × Condition)) (found : RowSet),
      tb.restPasses found (rest ++ [(.and, c)]) =
        tb.restPasses found rest ++ [(rest.foldl tb.advance found).size] := by
    intro rest
    induction rest with
    | nil => exact fun _ => rfl
    | cons c' rest ih =>
        intro found
        rw [List.cons_append, restPasses, restPasses, ih, List.append_assoc, List.foldl_cons]
  show tb.ownPasses w.first ++ tb.restPasses (tb.fullMatch w.first) (w.rest ++ [(.and, c)]) = _
  rw [hrest, ← List.append_assoc]
  rfl

theorem holds_and (w : WhereClause) (c : Condition) :
    tb.holds id (w.and c) = (tb.holds id w && tb.satisfies c id) := List.foldl_concat ..

end Table

/-! ### Answers -/

/-- Two answers that have no row in common and together all rows that have a column. -/
structure Shares (rows : Row → Prop) (column : String) (answer answer' : List Row) : Prop where
  disjoint : ∀ row ∈ answer, row ∉ answer'
  covers : ∀ row, row ∈ answer ∨ row ∈ answer' ↔ rows row ∧ (row.get? column).isSome = true

namespace Reference

variable {t : TableName} {tb : Table} {limit : Nat} {w : Option WhereClause} {rows : List Row}
variable {column value : String} {type : ColumnType} {op : Comparison}

/-- An answer has the rows that the clause holds of. -/
theorem mem_of_select (h : select limit t tb w = .ok rows) {row : Row} :
    row ∈ rows ↔ tb.IsRow row ∧ tb.holds row.id w = true := by
  obtain ⟨-, -, rfl⟩ := select_eq_ok.mp h
  rw [List.mem_map]
  constructor
  · rintro ⟨id, hid, rfl⟩
    obtain ⟨hid, hholds⟩ := Table.mem_meaning.mp (OrderedSet.mem_members.mp hid)
    exact ⟨⟨hid, rfl⟩, hholds⟩
  · rintro ⟨⟨hid, hrow⟩, hholds⟩
    exact ⟨row.id, OrderedSet.mem_members.mpr (Table.mem_meaning.mpr ⟨hid, hholds⟩), hrow⟩

theorem mem_of_select_single (hop : op ≠ .eq)
    (h : select limit t tb (WhereClause.single column op value) = .ok rows) {row : Row} :
    row ∈ rows ↔ tb.IsRow row ∧ tb.satisfies ⟨column, op, value⟩ row.id = true := by
  rw [mem_of_select h, Table.holds_single hop]

section
variable (htype : tb.columns.get? column = some type) (hvalue : type.accepts value = true)
variable (hsize : tb.ids.size ≤ limit)
include htype hvalue hsize

/-- A comparison that needs no index is answered if the rows are within the limit. -/
theorem exists_select_single (hthere : ensure t tb = .ok ()) (hop : op ≠ .eq) :
    ∃ rows, select limit t tb (WhereClause.single column op value) = .ok rows := by
  have hclause : Plan.ofClause t tb.columns tb.indexed (.single column op value) =
      .ok [.seed (.ofCondition tb.indexed ⟨column, op, value⟩ type)] :=
    Plan.ofClause_eq_ok.mpr ⟨type, [], Condition.resolve_eq_ok.mpr ⟨htype, hvalue⟩,
      fun heq => (hop heq).elim, rfl, rfl⟩
  refine ⟨_, select_eq_ok.mpr ⟨⟨_, bind_eq_ok.mpr ⟨(), hthere, hclause⟩⟩, fun n hn => ?_, rfl⟩⟩
  have hown : tb.passes (WhereClause.single column op value) = [tb.ids.size] := by
    show tb.ownPasses ⟨column, op, value⟩ ++ [] = _
    rw [Table.ownPasses, if_neg fun hs => hop hs.1, List.append_nil]
  rw [hown, List.mem_singleton] at hn
  exact hn ▸ hsize

/-- A clause that is answered is so with one more condition, since the filter meets no more rows
than there are. -/
theorem exists_select_and (op : Comparison) {w : WhereClause} (h : select limit t tb w = .ok rows) :
    ∃ kept, select limit t tb (w.and ⟨column, op, value⟩) = .ok kept := by
  obtain ⟨⟨plan, hplan⟩, hpasses, -⟩ := select_eq_ok.mp h
  obtain ⟨u, hthere, hclause⟩ := bind_eq_ok.mp hplan
  obtain ⟨type', steps, hresolve, hindexed, hsteps, -⟩ := Plan.ofClause_eq_ok.mp hclause
  have hstep : Plan.stepOf t tb.columns tb.indexed (.and, ⟨column, op, value⟩) =
      .ok (.narrow ⟨column, op, value⟩ type) := by
    have hresolve : Condition.resolve t tb.columns ⟨column, op, value⟩ = .ok type :=
      Condition.resolve_eq_ok.mpr ⟨htype, hvalue⟩
    rw [Plan.stepOf, hresolve]
    rfl
  have hsteps' : (w.and ⟨column, op, value⟩).rest.mapM (Plan.stepOf t tb.columns tb.indexed) =
      .ok (steps ++ [.narrow ⟨column, op, value⟩ type]) := by
    show (w.rest ++ [_]).mapM _ = _
    rw [List.mapM_append, hsteps, List.mapM_cons, hstep]
    rfl
  have hclause' : Plan.ofClause t tb.columns tb.indexed (w.and ⟨column, op, value⟩) = .ok _ :=
    Plan.ofClause_eq_ok.mpr ⟨type', _, hresolve, hindexed, hsteps', rfl⟩
  refine ⟨_, select_eq_ok.mpr ⟨⟨_, bind_eq_ok.mpr ⟨u, hthere, hclause'⟩⟩, fun n hn => ?_, rfl⟩⟩
  rw [Table.passes_and, List.mem_append, List.mem_singleton] at hn
  rcases hn with hn | rfl
  · exact hpasses n hn
  · have hmeaning : ∀ id ∈ tb.meaning w, id ∈ tb.ids := fun id hid => (Table.mem_meaning.mp hid).1
    exact Nat.le_trans (OrderedMap.size_le_of_subset hmeaning) hsize

end

/-- A value that a query compares with is of the type of the column. -/
theorem accepts_of_select (htype : tb.columns.get? column = some type)
    (h : select limit t tb (WhereClause.single column op value) = .ok rows) :
    type.accepts value = true := by
  obtain ⟨⟨plan, hplan⟩, -⟩ := select_eq_ok.mp h
  obtain ⟨_, -, hclause⟩ := bind_eq_ok.mp hplan
  obtain ⟨type', -, hresolve, -⟩ := Plan.ofClause_eq_ok.mp hclause
  obtain ⟨htype', haccepts⟩ := Condition.resolve_eq_ok.mp hresolve
  obtain rfl : type = type' := Option.some.inj (htype.symm.trans htype')
  exact haccepts

section
variable (hv : tb.Valid) (htype : tb.columns.get? column = some type)
variable (hvalue : type.accepts value = true)
include hv htype hvalue

theorem shares_of_opposite {op' : Comparison} (hopposite : op.Opposite op') (hop : op ≠ .eq)
    (hop' : op' ≠ .eq) {rows' : List Row}
    (h : select limit t tb (WhereClause.single column op value) = .ok rows)
    (h' : select limit t tb (WhereClause.single column op' value) = .ok rows') :
    Shares tb.IsRow column rows rows' := by
  refine ⟨fun row hmem hmem' => ?_, fun row => ?_⟩
  · rw [mem_of_select_single hop h] at hmem
    rw [mem_of_select_single hop' h'] at hmem'
    exact (Table.satisfies_opposite hv htype hvalue hopposite).1 ⟨hmem.2, hmem'.2⟩
  · rw [mem_of_select_single hop h, mem_of_select_single hop' h', ← and_or_left,
      (Table.satisfies_opposite hv htype hvalue hopposite).2]
    exact and_congr_right fun hrow => by rw [hrow.get?]

/-- A filter for an equal value keeps what is neither less nor greater. -/
theorem mem_of_select_and {w : WhereClause} {kept ge le : List Row}
    (h : select limit t tb w = .ok rows)
    (hkept : select limit t tb (w.and ⟨column, .eq, value⟩) = .ok kept)
    (hge : select limit t tb (WhereClause.single column .ge value) = .ok ge)
    (hle : select limit t tb (WhereClause.single column .le value) = .ok le) (row : Row) :
    row ∈ kept ↔ row ∈ rows ∧ row ∈ ge ∧ row ∈ le := by
  rw [mem_of_select hkept, mem_of_select hge, mem_of_select hle, mem_of_select h, Table.holds_and,
    Table.holds_single (by decide), Table.holds_single (by decide), Bool.and_eq_true,
    Table.satisfies_eq_iff hv htype hvalue]
  constructor
  · rintro ⟨hrow, hholds, hge', hle'⟩
    exact ⟨⟨hrow, hholds⟩, ⟨hrow, hge'⟩, hrow, hle'⟩
  · rintro ⟨⟨hrow, hholds⟩, ⟨-, hge'⟩, -, hle'⟩
    exact ⟨hrow, hholds, hge', hle'⟩

/-- A query for what is no less than a greater value answers with no more. -/
theorem subset_of_select_ge {value' : String} {rows' : List Row}
    (hle : Condition.accepts ⟨column, .ge, value⟩ type value' = true)
    (h : select limit t tb (WhereClause.single column .ge value) = .ok rows)
    (h' : select limit t tb (WhereClause.single column .ge value') = .ok rows') :
    rows' ⊆ rows := by
  intro row hrow
  rw [mem_of_select_single (by decide) h'] at hrow
  rw [mem_of_select_single (by decide) h]
  have hvalue' := accepts_of_select htype h'
  exact ⟨hrow.1, Table.satisfies_ge_trans hv htype hvalue hvalue' hle hrow.2⟩

end

end Reference

namespace Store

variable {s : Store} {db : Database} {t : TableName} {column value : String} {type : ColumnType}
variable {limit : Nat}

/-- A row of a table with all its fields, as its keys give it. -/
def IsRow (s : Store) (t : TableName) (row : Row) : Prop :=
  row.id ∈ s.rowsOf t ∧ row.fields = (s.fieldsAt (Key.row t row.id).text).toList

theorem Holds.isRow_eq (hs : s.Holds db.layout) (hdb : db.Valid) (ht : t.Tagged) :
    s.IsRow t = (db.table t).IsRow := by
  funext ⟨id, fields⟩
  unfold IsRow Table.IsRow
  rw [hs.rowsOf hdb ht, hs.fieldsAt_row ht]
  refine propext (and_congr_right fun _ => ?_)
  exact Row.mk.injEq .. ▸ ((and_iff_right rfl).trans eq_comm).symm

/-- As long as the rows are within the limit, a query for what is below a value and one for what is
not share out the rows that have the column, and so do those for what is above and what is not. A
filter for an equal value keeps the rows that are in the second answer of both. A query for what is
no less than a greater value answers with no more. -/
theorem Reachable.ranges_partition (h : s.Reachable) (ht : s.HasTable t)
    (htype : (s.tableAt t).columns.get? column = some type) (hvalue : type.accepts value = true)
    (hlimit : (s.rowsOf t).size ≤ limit) :
    ∃ lt ge gt le : List Row,
      s.answer limit t (WhereClause.single column .lt value) = .ok lt ∧
      s.answer limit t (WhereClause.single column .ge value) = .ok ge ∧
      s.answer limit t (WhereClause.single column .gt value) = .ok gt ∧
      s.answer limit t (WhereClause.single column .le value) = .ok le ∧
      Shares (s.IsRow t) column lt ge ∧ Shares (s.IsRow t) column gt le ∧
      (∀ (w : WhereClause) (rows : List Row), s.answer limit t w = .ok rows →
        ∃ kept, s.answer limit t (w.and ⟨column, .eq, value⟩) = .ok kept ∧
          ∀ row, row ∈ kept ↔ row ∈ rows ∧ row ∈ ge ∧ row ∈ le) ∧
      ∀ value', Condition.accepts ⟨column, .ge, value⟩ type value' = true →
        (∀ rows, s.answer limit t (WhereClause.single column .ge value') = .ok rows → rows ⊆ ge) ∧
        (type.accepts value' = true →
          ∃ rows, s.answer limit t (WhereClause.single column .ge value') = .ok rows) := by
  obtain ⟨db, hdb, hs⟩ := h.exists_database
  have hmem := (hs.hasTable_iff hdb).mp ht
  have htag := hdb.tagged hmem
  have hv := hdb.table_valid t
  have hthere : Reference.ensure t (db.table t) = .ok () :=
    Reference.ensure_eq_ok.mpr (hdb.mem_tables_iff.mp hmem)
  have hanswer (w : Option WhereClause) :
      s.answer limit t w = Reference.select limit t (db.table t) w := by
    rw [answer, hs.exec_select htag hv]
  rw [hs.tableAt hdb htag] at htype
  rw [hs.rowsOf hdb htag] at hlimit
  simp only [hanswer, hs.isRow_eq hdb htag]
  have hsingle (op : Comparison) (hop : op ≠ .eq) {value : String}
      (hvalue : type.accepts value = true) :=
    Reference.exists_select_single htype hvalue hlimit hthere hop
  obtain ⟨lt, hlt⟩ := hsingle .lt (by decide) hvalue
  obtain ⟨ge, hge⟩ := hsingle .ge (by decide) hvalue
  obtain ⟨gt, hgt⟩ := hsingle .gt (by decide) hvalue
  obtain ⟨le, hle⟩ := hsingle .le (by decide) hvalue
  refine ⟨lt, ge, gt, le, hlt, hge, hgt, hle, ?_, ?_, fun w rows hrows => ?_,
    fun value' hvalue' => ?_⟩
  · exact Reference.shares_of_opposite hv htype hvalue Comparison.opposite_lt_ge (by decide)
      (by decide) hlt hge
  · exact Reference.shares_of_opposite hv htype hvalue Comparison.opposite_gt_le (by decide)
      (by decide) hgt hle
  · obtain ⟨kept, hkept⟩ := Reference.exists_select_and htype hvalue hlimit .eq hrows
    exact ⟨kept, hkept, Reference.mem_of_select_and hv htype hvalue hrows hkept hge hle⟩
  · refine ⟨fun rows hrows => ?_, fun haccepts => hsingle .ge (by decide) haccepts⟩
    exact Reference.subset_of_select_ge hv htype hvalue hvalue' hge hrows

/-- A row whose age is spelled in another way is neither below nor above the value. -/
theorem sample_ranges_partition :
    let t : TableName := ⟨"app", "users"⟩
    let row : Row := ⟨1, [("age", "7"), ("name", "ann")]⟩
    sample.HasTable t ∧ (sample.tableAt t).columns.get? "age" = some .integer ∧
      ColumnType.integer.accepts "07" = true ∧ (sample.rowsOf t).size ≤ 1 ∧
      ∃ lt gt : List Row,
        sample.answer 1 t (WhereClause.single "age" .lt "07") = .ok lt ∧
        sample.answer 1 t (WhereClause.single "age" .gt "07") = .ok gt ∧ row ∉ lt ∧ row ∉ gt := by
  intro t row
  have ht : sample.HasTable t := of_decide_eq_true (by cbv)
  have htype : (sample.tableAt t).columns.get? "age" = some .integer := by cbv
  have hvalue : ColumnType.integer.accepts "07" = true := by decide +kernel
  have hlimit : (sample.rowsOf t).size ≤ 1 := of_decide_eq_true (by cbv)
  have hann : sample.answer 1 t (WhereClause.single "name" .eq "ann") = .ok [row] := by cbv
  have hequal : sample.answer 1 t ((WhereClause.single "name" .eq "ann").and ⟨"age", .eq, "07"⟩) =
      .ok [row] := by cbv
  obtain ⟨lt, ge, gt, le, hlt, -, hgt, -, hbelow, habove, hand, -⟩ :=
    sample_reachable.ranges_partition ht htype hvalue hlimit
  obtain ⟨kept, hkept, hmem⟩ := hand _ _ hann
  obtain rfl : [row] = kept := Except.ok.inj (hequal.symm.trans hkept)
  obtain ⟨-, hge, hle⟩ := (hmem row).mp List.mem_cons_self
  refine ⟨ht, htype, hvalue, hlimit, lt, gt, hlt, hgt, ?_, ?_⟩
  · exact fun hrow => hbelow.disjoint row hrow hge
  · exact fun hrow => habove.disjoint row hrow hle

end Store

end Tabular
