import Tabular.Proofs.Selection
import Tabular.Proofs.Spelling

/-!
Queries with an index and without. An index answers an equality by the texts of values, a filter by
the values, and the two differ on the rows that hold the value in another spelling.
`alike_addIndex_iff` says for which columns no clause can tell whether there is an index; for all
others a probe can.
-/

namespace Tabular

/-- The conditions of a clause that are evaluated on all rows: the first, and those after OR. -/
def WhereClause.alone (w : WhereClause) : List Condition :=
  w.first :: w.rest.filterMap fun (connective, c) => if connective = .or then some c else none

/-- A clause that asks for a value of a column. It asks for greater ones first, since an equality
cannot come first without an index. -/
def WhereClause.probe (column value : String) : WhereClause :=
  ⟨⟨column, .gt, value⟩, [(.or, ⟨column, .eq, value⟩)]⟩

/-- A filter for an equality looks for equal values. -/
theorem Condition.accepts_iff_of_eq {c : Condition} (hop : c.op = .eq) {type : ColumnType}
    {value : String} : c.accepts type value = true ↔ type.compare value c.value = some .eq := by
  unfold accepts
  rw [hop]
  cases type.compare value c.value with
  | none => exact iff_of_false Bool.noConfusion (fun h => by cases h)
  | some o => cases o <;> decide

namespace Table

variable {tb : Table} {c : Condition} {id : RowId} {column : String} {type : ColumnType}

/-! ### What an index changes -/

theorem addIndex_of_mem (h : column ∈ tb.indexed) : tb.addIndex column = tb := by
  rw [addIndex, OrderedSet.add_of_mem h]

theorem dropIndex_of_notMem (h : column ∉ tb.indexed) : tb.dropIndex column = tb := by
  rw [dropIndex, OrderedMap.erase_of_notMem h]

/-- An index that is dropped may be added again. -/
theorem addIndex_dropIndex (h : column ∈ tb.indexed) :
    (tb.dropIndex column).addIndex column = tb := by
  have hindexed : OrderedSet.add (tb.indexed.erase column) column = tb.indexed := by
    apply OrderedSet.ext_mem
    intro x
    rw [OrderedSet.mem_add, OrderedMap.mem_erase]
    by_cases hx : x = column
    · exact iff_of_true (Or.inl hx) (hx ▸ h)
    · exact (or_iff_right hx).trans (and_iff_right hx)
  unfold dropIndex addIndex
  dsimp only
  rw [hindexed]

theorem serves_addIndex_iff :
    (tb.addIndex column).Serves c ↔ tb.Serves c ∨ c.op = .eq ∧ c.column = column := by
  have hindexed : c.column ∈ (tb.addIndex column).indexed ↔
      c.column = column ∨ c.column ∈ tb.indexed := OrderedSet.mem_add
  unfold Serves
  rw [hindexed, and_or_left, or_comm]

/-- An index is of no use to any other condition than an equality on its column. -/
theorem finds_addIndex_of_ne (h : ¬ (c.op = .eq ∧ c.column = column)) :
    (tb.addIndex column).finds c id = tb.finds c id := by
  have hserves : (tb.addIndex column).Serves c ↔ tb.Serves c :=
    serves_addIndex_iff.trans (or_iff_left h)
  unfold finds
  simp only [hserves]
  rfl

/-- An index finds what a filter finds if the value is spelled in one way only. -/
theorem finds_addIndex_of_verbatim (htype : tb.columns.get? c.column = some type)
    (hverbatim : type.Verbatim) (hop : c.op = .eq) :
    (tb.addIndex column).finds c id = tb.finds c id := by
  have hfilter : tb.satisfies c id = decide (tb.cell id c.column = some c.value) := by
    rw [satisfies_eq htype, Bool.eq_iff_iff, decide_eq_true_iff]
    cases tb.cell id c.column with
    | none => exact iff_of_false Bool.noConfusion (fun h => by cases h)
    | some value =>
        show c.accepts type value = true ↔ _
        rw [Condition.accepts_iff_of_eq hop, ColumnType.compare_eq_iff hverbatim, Option.some_inj]
  have hsame (tb' : Table) (hcell : tb'.cell id c.column = tb.cell id c.column)
      (hsatisfies : tb'.satisfies c id = tb.satisfies c id) :
      tb'.finds c id = tb.satisfies c id := by
    rw [finds, hcell, hsatisfies, ← hfilter, ite_self]
  rw [hsame (tb.addIndex column) rfl rfl, hsame tb rfl rfl]

/-- Neither an index nor a filter finds a row without the column. -/
theorem finds_of_cell_eq_none (h : tb.cell id c.column = none) : tb.finds c id = false := by
  unfold finds
  rw [satisfies_of_cell_eq_none h, h]
  split <;> rfl

/-- A clause holds of the same rows with an index if the conditions that it evaluates on all rows
find the same rows. -/
theorem holds_addIndex_of_alone {w : WhereClause}
    (h : ∀ c ∈ w.alone, (tb.addIndex column).finds c id = tb.finds c id) :
    (tb.addIndex column).holds id w = tb.holds id w := by
  have hfold : ∀ (rest : List (Connective × Condition)) (found : Bool),
      (∀ c, (.or, c) ∈ rest → (tb.addIndex column).finds c id = tb.finds c id) →
      rest.foldl ((tb.addIndex column).join id) found = rest.foldl (tb.join id) found := by
    intro rest
    induction rest with
    | nil => exact fun _ _ => rfl
    | cons c rest ih =>
        intro found hrest
        have hjoin : (tb.addIndex column).join id found c = tb.join id found c := by
          obtain ⟨connective, c⟩ := c
          cases connective with
          | and => rfl
          | or => exact congrArg (found || ·) (hrest c List.mem_cons_self)
        rw [List.foldl_cons, List.foldl_cons, hjoin]
        exact ih _ fun c hc => hrest c (List.mem_cons_of_mem _ hc)
  have hfirst := h w.first List.mem_cons_self
  show w.rest.foldl _ ((tb.addIndex column).finds w.first id) = _
  rw [hfirst]
  refine hfold w.rest _ fun c hc => h c (List.mem_cons_of_mem _ ?_)
  exact List.mem_filterMap.mpr ⟨(.or, c), hc, rfl⟩

/-- A condition that is evaluated on all rows without an index meets all rows. -/
theorem mem_passes_of_alone {w : WhereClause} (hc : c ∈ w.alone) (hs : ¬ tb.Serves c) :
    tb.ids.size ∈ tb.passes w := by
  have hown : tb.ids.size ∈ tb.ownPasses c := by
    rw [ownPasses, if_neg hs]
    exact List.mem_singleton.mpr rfl
  have hrest : ∀ (rest : List (Connective × Condition)) (found : RowSet),
      (.or, c) ∈ rest → tb.ids.size ∈ tb.restPasses found rest := by
    intro rest
    induction rest with
    | nil => exact fun _ h => (List.not_mem_nil h).elim
    | cons c' rest ih =>
        intro found h
        apply List.mem_append.mpr
        rcases List.mem_cons.mp h with rfl | h
        · exact Or.inl hown
        · exact Or.inr (ih _ h)
  show _ ∈ tb.ownPasses w.first ++ tb.restPasses (tb.fullMatch w.first) w.rest
  apply List.mem_append.mpr
  rcases List.mem_cons.mp hc with rfl | hc
  · exact Or.inl hown
  · obtain ⟨⟨connective, c'⟩, hmem, heq⟩ := List.mem_filterMap.mp hc
    cases connective with
    | and => cases heq
    | or =>
        obtain rfl : c' = c := Option.some.inj heq
        exact Or.inr (hrest w.rest _ hmem)

/-! ### A clause that tells an index from a filter -/

/-- The filters of a probe meet all rows or none. -/
theorem le_of_mem_passes_probe {value : String} {n : Nat}
    (h : n ∈ tb.passes (WhereClause.probe column value)) : n ≤ tb.ids.size := by
  have hown (c : Condition) (hn : n ∈ tb.ownPasses c) : n ≤ tb.ids.size := by
    unfold ownPasses at hn
    split at hn
    · cases hn
    · exact Nat.le_of_eq (List.mem_singleton.mp hn)
  rcases List.mem_append.mp h with h | h
  · exact hown _ h
  · rcases List.mem_append.mp h with h | h
    · exact hown _ h
    · cases h

theorem holds_probe_eq (value : String) : tb.holds id (WhereClause.probe column value) =
    (tb.finds ⟨column, .gt, value⟩ id || tb.finds ⟨column, .eq, value⟩ id) := rfl

section
variable {value value' : String} (htype : tb.columns.get? column = some type)
variable (hcell : tb.cell id column = some value) (heq : type.compare value value' = some .eq)
include htype hcell heq

theorem satisfies_of_spelling (op : Comparison) :
    tb.satisfies ⟨column, op, value'⟩ id = op.holds .eq := by
  rw [satisfies_eq htype, hcell]
  show (type.compare value value').any op.holds = _
  rw [heq]
  rfl

/-- Without an index a probe holds of a row whose value it spells in another way. -/
theorem holds_probe (hnew : column ∉ tb.indexed) :
    tb.holds id (WhereClause.probe column value') = true := by
  have hserves : ¬ tb.Serves ⟨column, .eq, value'⟩ := fun hs => hnew hs.2
  have hfinds : tb.finds ⟨column, .eq, value'⟩ id = true := by
    rw [finds, if_neg hserves, satisfies_of_spelling htype hcell heq]
    rfl
  rw [holds_probe_eq, hfinds, Bool.or_true]

/-- With an index it does not. -/
theorem holds_probe_indexed (hindexed : column ∈ tb.indexed) (hne : value' ≠ value) :
    tb.holds id (WhereClause.probe column value') = false := by
  have hop : Comparison.gt ≠ .eq := by decide
  have hserves : ¬ tb.Serves ⟨column, .gt, value'⟩ := fun hs => hop hs.1
  have hgreater : tb.finds ⟨column, .gt, value'⟩ id = false := by
    rw [finds, if_neg hserves]
    exact satisfies_of_spelling htype hcell heq .gt
  have hserves' : tb.Serves ⟨column, .eq, value'⟩ := ⟨rfl, hindexed⟩
  have hequal : tb.finds ⟨column, .eq, value'⟩ id = false := by
    rw [finds, if_pos hserves', decide_eq_false_iff_not, hcell]
    exact fun h => hne (Option.some.inj h).symm
  rw [holds_probe_eq, hgreater, hequal, Bool.or_false]

end

end Table

/-! ### Answers with an index and without -/

namespace Reference

variable {t : TableName} {tb tb' : Table} {limit : Nat} {column : String} {type : ColumnType}

theorem select_eq_ok {w : Option WhereClause} {rows : List Row} :
    select limit t tb w = .ok rows ↔ (∃ plan, Reference.plan t tb w = .ok plan) ∧
      (∀ n ∈ tb.passes w, n ≤ limit) ∧ rows = (tb.meaning w).members.map tb.row := by
  constructor
  · intro h
    obtain ⟨_, hids, -⟩ := bind_eq_ok.mp h
    obtain ⟨plan, hplan, -⟩ := bind_eq_ok.mp hids
    rw [select_of_plan hplan, within] at h
    split at h
    · next hpasses => exact ⟨⟨plan, hplan⟩, hpasses, (Except.ok.inj h).symm⟩
    · cases h
  · rintro ⟨⟨plan, hplan⟩, hpasses, rfl⟩
    rw [select_of_plan hplan, within, if_pos hpasses]

/-- Rows read from the same place are the same rows if their numbers are. -/
theorem members_map_row_inj (hrows : tb'.rows = tb.rows) {ids ids' : RowSet} :
    ids.members.map tb.row = ids'.members.map tb'.row ↔ ids = ids' := by
  have hrow : tb'.row = tb.row := by
    funext id
    rw [Table.row, Table.row, Table.fields, Table.fields, hrows]
  rw [hrow]
  constructor
  · intro h
    have hid : Row.id ∘ tb.row = id := rfl
    have hmembers := congrArg (List.map Row.id) h
    rw [List.map_map, List.map_map, hid, List.map_id, List.map_id] at hmembers
    apply OrderedSet.ext_mem
    intro id
    rw [← OrderedSet.mem_members, ← OrderedSet.mem_members, hmembers]
  · rintro rfl
    rfl

/-- Two tables with the same rows answer a query with the same rows if and only if its clause holds
of the same rows. -/
theorem rows_eq_iff (hrows : tb'.rows = tb.rows) {w : Option WhereClause} {rows rows' : List Row}
    (h : select limit t tb w = .ok rows) (h' : select limit t tb' w = .ok rows') :
    rows = rows' ↔ ∀ id ∈ tb.ids, tb.holds id w = tb'.holds id w := by
  obtain ⟨-, -, rfl⟩ := select_eq_ok.mp h
  obtain ⟨-, -, rfl⟩ := select_eq_ok.mp h'
  have hids : tb'.ids = tb.ids := by rw [Table.ids, Table.ids, hrows]
  rw [members_map_row_inj hrows]
  constructor
  · intro heq id hid
    have hmem : id ∈ tb.meaning w ↔ id ∈ tb'.meaning w := by rw [heq]
    rw [Table.mem_meaning, Table.mem_meaning, hids, and_iff_right hid, and_iff_right hid] at hmem
    exact Bool.eq_iff_iff.mpr hmem
  · intro heq
    apply OrderedSet.ext_mem
    intro id
    rw [Table.mem_meaning, Table.mem_meaning, hids]
    exact and_congr_right fun hid => by rw [heq id hid]

/-- No query that both of two tables answer tells them apart. -/
def Alike (limit : Nat) (t : TableName) (tb tb' : Table) : Prop :=
  ∀ (w : Option WhereClause) (rows rows' : List Row),
    select limit t tb w = .ok rows → select limit t tb' w = .ok rows' → rows = rows'

theorem Alike.symm (h : Alike limit t tb tb') : Alike limit t tb' tb :=
  fun w rows rows' hrows hrows' => (h w rows' rows hrows' hrows).symm

theorem alike_self (limit : Nat) (t : TableName) (tb : Table) : Alike limit t tb tb :=
  fun _ _ _ hrows hrows' => Except.ok.inj (hrows.symm.trans hrows')

theorem select_probe (hthere : ensure t tb = .ok ()) (htype : tb.columns.get? column = some type)
    {value : String} (hvalue : type.accepts value = true) (hsize : tb.ids.size ≤ limit) :
    ∃ rows, select limit t tb (WhereClause.probe column value) = .ok rows := by
  have hresolve (op : Comparison) : Condition.resolve t tb.columns ⟨column, op, value⟩ = .ok type :=
    Condition.resolve_eq_ok.mpr ⟨htype, hvalue⟩
  have hsteps : (WhereClause.probe column value).rest.mapM (Plan.stepOf t tb.columns tb.indexed) =
      .ok [.union (.ofCondition tb.indexed ⟨column, .eq, value⟩ type)] := by
    simp [WhereClause.probe, Plan.stepOf, hresolve]
  have hop : Comparison.gt ≠ .eq := by decide
  have hclause : Plan.ofClause t tb.columns tb.indexed (.probe column value) =
      .ok (.seed (.ofCondition tb.indexed ⟨column, .gt, value⟩ type) ::
        [.union (.ofCondition tb.indexed ⟨column, .eq, value⟩ type)]) :=
    Plan.ofClause_eq_ok.mpr ⟨type, _, hresolve .gt, fun heq => (hop heq).elim, hsteps, rfl⟩
  refine ⟨_, select_eq_ok.mpr ⟨⟨_, bind_eq_ok.mpr ⟨(), hthere, hclause⟩⟩, ?_, rfl⟩⟩
  intro n hn
  exact Nat.le_trans (Table.le_of_mem_passes_probe hn) hsize

section
variable (htype : tb.columns.get? column = some type) (hnew : column ∉ tb.indexed)
include htype hnew

/-- Any row with a value that can be spelled in another way is told apart by that spelling. -/
theorem not_alike_addIndex (hthere : ensure t tb = .ok ()) (hsize : tb.ids.size ≤ limit)
    {id : RowId} {value value' : String} (hcell : tb.cell id column = some value)
    (hne : value' ≠ value) (haccepts : type.accepts value' = true)
    (heq : type.compare value value' = some .eq) :
    ¬ Alike limit t tb (tb.addIndex column) := by
  intro h
  have hthere' : ensure t (tb.addIndex column) = .ok () := hthere
  have htype' : (tb.addIndex column).columns.get? column = some type := htype
  have hsize' : (tb.addIndex column).ids.size ≤ limit := hsize
  have hcell' : (tb.addIndex column).cell id column = some value := hcell
  have hkeep : (tb.addIndex column).rows = tb.rows := rfl
  have hid : id ∈ tb.ids := Table.mem_ids.mpr (Table.mem_rows_of_cell hcell)
  obtain ⟨rows, hrows⟩ := select_probe hthere htype haccepts hsize
  obtain ⟨rows', hrows'⟩ := select_probe hthere' htype' haccepts hsize'
  have hsame := (rows_eq_iff hkeep hrows hrows').mp (h _ _ _ hrows hrows') id hid
  have hindexed : column ∈ (tb.addIndex column).indexed := OrderedSet.mem_add.mpr (Or.inl rfl)
  rw [Table.holds_probe htype hcell heq hnew,
    Table.holds_probe_indexed htype' hcell' heq hindexed hne] at hsame
  cases hsame

theorem alike_addIndex (h : limit < tb.ids.size ∨ type.Verbatim ∨
    ∀ id ∈ tb.ids, tb.cell id column = none) : Alike limit t tb (tb.addIndex column) := by
  intro w rows rows' hrows hrows'
  have hkeep : (tb.addIndex column).rows = tb.rows := rfl
  refine (rows_eq_iff hkeep hrows hrows').mpr fun id hid => ?_
  cases w with
  | none => rfl
  | some w =>
      refine (Table.holds_addIndex_of_alone fun c hc => ?_).symm
      by_cases hindex : c.op = .eq ∧ c.column = column
      · obtain ⟨hop, rfl⟩ := hindex
        rcases h with hsize | hverbatim | hnone
        · -- without an index such a condition meets all rows
          have hserves : ¬ tb.Serves c := fun hs => hnew hs.2
          have hle := (select_eq_ok.mp hrows).2.1 _ (Table.mem_passes_of_alone hc hserves)
          exact absurd hle (Nat.not_le.mpr hsize)
        · exact Table.finds_addIndex_of_verbatim htype hverbatim hop
        · have hcell := hnone id hid
          have hcell' : (tb.addIndex c.column).cell id c.column = none := hcell
          rw [Table.finds_of_cell_eq_none hcell, Table.finds_of_cell_eq_none hcell']
      · exact Table.finds_addIndex_of_ne hindex

/-- Queries cannot tell whether a column has an index if values of its type are spelled in one way
only, if no row has the column, or if there are too many rows for an equality without an index. In
all other cases some query can. -/
theorem alike_addIndex_iff (limit : Nat) (hv : tb.Valid) (hthere : ensure t tb = .ok ()) :
    Alike limit t tb (tb.addIndex column) ↔
      limit < tb.ids.size ∨ type.Verbatim ∨ ∀ id ∈ tb.ids, tb.cell id column = none := by
  refine ⟨fun h => ?_, alike_addIndex htype hnew⟩
  apply Decidable.byContradiction
  intro hnone
  obtain ⟨hsize, hnone⟩ := not_or.mp hnone
  obtain ⟨hverbatim, hnone⟩ := not_or.mp hnone
  apply hnone
  intro id hid
  cases hcell : tb.cell id column with
  | none => rfl
  | some value =>
      have haccepts := hv.accepts_of_cell htype hcell
      obtain ⟨value', hne, haccepts', heq⟩ := ColumnType.exists_spelling hverbatim haccepts
      exact (not_alike_addIndex htype hnew hthere (Nat.not_lt.mp hsize) hcell hne haccepts' heq
        h).elim

end

/-- The same for a table before and after a change of its indexes, which may change nothing. -/
theorem alike_alter_iff (hv : tb.Valid) (hthere : ensure t tb = .ok ())
    (htype : tb.columns.get? column = some type)
    (htb' : tb' = tb.addIndex column ∨ tb' = tb.dropIndex column) :
    Alike limit t tb tb' ↔ tb' = tb ∨ limit < tb.ids.size ∨ type.Verbatim ∨
      ∀ id ∈ tb.ids, tb.cell id column = none := by
  by_cases hsame : tb' = tb
  · exact iff_of_true (hsame ▸ alike_self limit t tb) (Or.inl hsame)
  · rw [or_iff_right hsame]
    rcases htb' with rfl | rfl
    · have hnew : column ∉ tb.indexed := fun hmem => hsame (Table.addIndex_of_mem hmem)
      exact alike_addIndex_iff htype hnew limit hv hthere
    · have hmem : column ∈ tb.indexed :=
        Decidable.byContradiction fun hmem => hsame (Table.dropIndex_of_notMem hmem)
      have hnew : column ∉ (tb.dropIndex column).indexed :=
        fun h => (OrderedMap.mem_erase.mp h).1 rfl
      have hthere' : ensure t (tb.dropIndex column) = .ok () := hthere
      have htype' : (tb.dropIndex column).columns.get? column = some type := htype
      have hiff := alike_addIndex_iff htype' hnew limit (hv.dropIndex column) hthere'
      rw [Table.addIndex_dropIndex hmem] at hiff
      exact ⟨fun h => hiff.mp h.symm, fun h => (hiff.mpr h).symm⟩

end Reference

/-! ### Altering a table -/

namespace Store

variable {s : Store} {db : Database} {t : TableName} {column : String} {type : ColumnType}

/-- What a query answers. -/
def answer (s : Store) (limit : Nat) (t : TableName) (w : Option WhereClause) :
    Except Error (List Row) := ((Engine.select limit t w).exec ⟨s, none⟩).1

/-- A command that gives an index to a column or takes one from it leaves a table that differs in
this only. -/
theorem Holds.exec_alter (hs : s.Holds db.layout) (hdb : db.Valid) (hmem : t ∈ db.tables)
    (htype : (db.table t).columns.get? column = some type) (config : Config) {c : Command}
    {tb : Table} (hc : c = .addIndex t column ∧ tb = (db.table t).addIndex column ∨
      c = .dropIndex t column ∧ tb = (db.table t).dropIndex column) :
    ∃ s', ((c.run config).exec ⟨s, none⟩).2.store = s' ∧ s'.Holds (db.set t tb).layout ∧
      (db.set t tb).Valid ∧ (db.set t tb).table t = tb := by
  have htag := hdb.tagged hmem
  have hthere := hdb.mem_tables_iff.mp hmem
  have hensure : Reference.ensure t (db.table t) = .ok () := Reference.ensure_eq_ok.mpr hthere
  have hcolumn : Reference.columnType t (db.table t) column = .ok type := by
    rw [Reference.columnType, htype]
  have hcolumns : tb.columns = (db.table t).columns := by
    rcases hc with ⟨-, rfl⟩ | ⟨-, rfl⟩ <;> rfl
  have hproper : c.Proper := by
    rcases hc with ⟨rfl, -⟩ | ⟨rfl, -⟩ <;>
      exact ⟨fun h => Option.some.inj h ▸ htag.1, fun h => (List.not_mem_nil h).elim⟩
  have hrun : db.run config c = .ok (.ok, db.set t tb) := by
    rcases hc with ⟨rfl, rfl⟩ | ⟨rfl, rfl⟩
    · show db.onTable t (Reference.addIndex t (db.table t) column >>= fun out => _) = _
      rw [Reference.addIndex, hensure]
      show db.onTable t ((Reference.columnType t (db.table t) column >>= _) >>= fun out => _) = _
      rw [hcolumn]
      rfl
    · show db.onTable t (Reference.dropIndex t (db.table t) column >>= fun out => _) = _
      rw [Reference.dropIndex, hensure]
      show db.onTable t ((Reference.columnType t (db.table t) column >>= _) >>= fun out => _) = _
      rw [hcolumn]
      rfl
  have hperforms : StoreM.Performs (c.run config) db (db.run config c) :=
    StoreM.performs_run .ascending config hdb hproper
  rw [hrun] at hperforms
  obtain ⟨hvalid, s', hexec, hs'⟩ := hperforms.exec_ok hs
  refine ⟨s', by rw [hexec], hs', hvalid, ?_⟩
  rw [Database.table_set, if_pos rfl]
  intro hempty
  rw [hcolumns, hthere] at hempty
  cases hempty

/-- Before and after an index is added or dropped, a query that is answered both times gets the same
rows if and only if its clause holds of the same rows. This is so for all queries if nothing
changed, if an equality without an index is beyond the limit, if the values of the column are
spelled in one way only or if no row has the column, and for no other column. -/
theorem Reachable.index_transparent_iff (h : s.Reachable) (ht : s.HasTable t)
    (htype : (s.tableAt t).columns.get? column = some type) (config : Config) {c : Command}
    (hc : c = .addIndex t column ∨ c = .dropIndex t column) (limit : Nat) :
    let s' := ((c.run config).exec ⟨s, none⟩).2.store
    (∀ w rows rows', s.answer limit t w = .ok rows → s'.answer limit t w = .ok rows' →
      (rows = rows' ↔
        ∀ id ∈ s.rowsOf t, (s.tableAt t).holds id w = (s'.tableAt t).holds id w)) ∧
    ((∀ w rows rows', s.answer limit t w = .ok rows → s'.answer limit t w = .ok rows' →
        rows = rows') ↔
      s' = s ∨ limit < (s.rowsOf t).size ∨ type = .string ∨ type = .date ∨
        ∀ id ∈ s.rowsOf t, (s.fieldsAt (Key.row t id).text).get? column = none) := by
  obtain ⟨db, hdb, hs⟩ := h.exists_database
  have hmem := (hs.hasTable_iff hdb).mp ht
  have htag := hdb.tagged hmem
  have hthere : Reference.ensure t (db.table t) = .ok () :=
    Reference.ensure_eq_ok.mpr (hdb.mem_tables_iff.mp hmem)
  rw [hs.tableAt hdb htag] at htype
  have hchoice : ∃ tb, (c = .addIndex t column ∧ tb = (db.table t).addIndex column) ∨
      (c = .dropIndex t column ∧ tb = (db.table t).dropIndex column) := by
    rcases hc with hc | hc
    · exact ⟨_, Or.inl ⟨hc, rfl⟩⟩
    · exact ⟨_, Or.inr ⟨hc, rfl⟩⟩
  obtain ⟨tb, htb⟩ := hchoice
  obtain ⟨s', hexec, hs', hdb', heq⟩ := hs.exec_alter hdb hmem htype config htb
  have hafter : s'.tableAt t = tb := (hs'.tableAt hdb' htag).trans heq
  have hanswer (w : Option WhereClause) :
      s.answer limit t w = Reference.select limit t (db.table t) w := by
    rw [answer, hs.exec_select htag (hdb.table_valid t)]
  have hanswer' (w : Option WhereClause) :
      s'.answer limit t w = Reference.select limit t tb w := by
    rw [answer, hs'.exec_select htag (hdb'.table_valid t), heq]
  have hcell (id : RowId) : (s.fieldsAt (Key.row t id).text).get? column =
      (db.table t).cell id column := by
    rw [hs.fieldsAt_eq (k := .row t id) (t := t) htag rfl rfl]
    rfl
  have hsame : s' = s ↔ tb = db.table t := by
    constructor
    · rintro rfl
      exact hafter.symm.trans (hs.tableAt hdb htag)
    · intro hsame
      have hempty : (db.table t).columns.isEmpty = true → db.table t = ∅ := hdb.table_empty
      rw [hsame, ← Database.on_layout hempty, ← db.layout_on] at hs'
      exact hs'.unique hs
  intro s''
  obtain rfl : s'' = s' := hexec
  rw [hs.tableAt hdb htag, hs.rowsOf hdb htag, hafter]
  simp only [hanswer, hanswer', hcell, hsame]
  have htb' : tb = (db.table t).addIndex column ∨ tb = (db.table t).dropIndex column :=
    htb.imp And.right And.right
  have hrows : tb.rows = (db.table t).rows := by
    rcases htb' with rfl | rfl <;> rfl
  refine ⟨fun w rows rows' => Reference.rows_eq_iff hrows, ?_⟩
  refine (Reference.alike_alter_iff (hdb.table_valid t) hthere htype htb').trans ?_
  rw [ColumnType.Verbatim, or_assoc (a := type = .string)]

theorem sample_index_transparent_iff :
    let t : TableName := ⟨"app", "users"⟩
    let s' := ((Command.run {} (.addIndex t "age")).exec ⟨sample, none⟩).2.store
    sample.HasTable t ∧
    (∀ w rows rows', sample.answer 1000 t w = .ok rows → s'.answer 1000 t w = .ok rows' →
      (rows = rows' ↔
        ∀ id ∈ sample.rowsOf t, (sample.tableAt t).holds id w = (s'.tableAt t).holds id w)) ∧
    ((∀ w rows rows', sample.answer 1000 t w = .ok rows → s'.answer 1000 t w = .ok rows' →
        rows = rows') ↔
      s' = sample ∨ 1000 < (sample.rowsOf t).size ∨
        ColumnType.integer = .string ∨ ColumnType.integer = .date ∨
        ∀ id ∈ sample.rowsOf t,
          (sample.fieldsAt (Key.row t id).text).get? "age" = none) := by
  intro t s'
  have ht : sample.HasTable t := of_decide_eq_true (by cbv)
  have htype : (sample.tableAt t).columns.get? "age" = some .integer := by cbv
  exact ⟨ht, sample_reachable.index_transparent_iff ht htype {} (Or.inl rfl) 1000⟩

/-- A query finds a row by another spelling of its number until the column gets an index. -/
theorem sample_index_not_transparent :
    let t : TableName := ⟨"app", "users"⟩
    let w : WhereClause := ⟨⟨"age", .gt, "9"⟩, [(.or, ⟨"age", .eq, "07"⟩)]⟩
    let s' := ((Command.run {} (.addIndex t "age")).exec ⟨sample, none⟩).2.store
    sample.Reachable ∧
      sample.answer 1000 t w = .ok [⟨1, [("age", "7"), ("name", "ann")]⟩] ∧
      s'.answer 1000 t w = .ok [] := by
  refine ⟨sample_reachable, ?_, ?_⟩
  · cbv
  · cbv

end Store

end Tabular
