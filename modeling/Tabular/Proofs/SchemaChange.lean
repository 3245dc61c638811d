import Tabular.Proofs.Inventory
import Tabular.Proofs.Retry

/-!
Creations of tables and additions of columns that a failure has cut short. What is cut leaves some
of the columns, the last of them possibly without its index, and that is the whole of what a command
with only these columns leaves. The table or the column is then there, so the command is refused when
it is run again; what is missing takes other commands, an index for the last column and additions of
the rest, and these complete it (`Reachable.schema_change_again`).
-/

namespace Tabular

/-! ### Definitions cut short -/

/-- What of the definitions of some columns has been written when one of them is cut. -/
inductive Truncates : List Column → List Column → Prop
  /-- Nothing has been written of the next column. -/
  | stopped (c next : Column) (rest : List Column) : Truncates [c] (c :: next :: rest)
  /-- The type of the column has been written and its index has not. -/
  | unindexed {c : Column} (h : c.indexed = true) (rest : List Column) :
      Truncates [{ c with indexed := false }] (c :: rest)
  | cons (c : Column) {written rest : List Column} (h : Truncates written rest) :
      Truncates (c :: written) (c :: rest)

namespace Truncates

variable {written columns : List Column}

theorem isEmpty_eq_false (h : Truncates written columns) : written.isEmpty = false := by
  cases h <;> rfl

theorem names_prefix (h : Truncates written columns) :
    written.map (·.name) <+: columns.map (·.name) := by
  induction h with
  | stopped c next rest => exact ⟨_, rfl⟩
  | unindexed _ rest => exact ⟨_, rfl⟩
  | cons c _ ih => exact List.cons_prefix_cons.mpr ⟨rfl, ih⟩

/-- Of columns with different names at least one is not as it should be. -/
theorem exists_notMem (h : Truncates written columns) (hnames : (columns.map (·.name)).Nodup) :
    ∃ c ∈ columns, c ∉ written := by
  induction h with
  | stopped c next rest =>
      have hne : next ≠ c := by
        rintro rfl
        exact (List.nodup_cons.mp hnames).1 (List.mem_cons_self ..)
      exact ⟨next, by simp, by simpa using hne⟩
  | @unindexed c hi rest =>
      refine ⟨c, List.mem_cons_self .., fun hmem => ?_⟩
      have hsame := congrArg Column.indexed (List.mem_singleton.mp hmem)
      rw [hi] at hsame
      cases hsame
  | @cons c written rest _ ih =>
      rw [List.map_cons, List.nodup_cons] at hnames
      obtain ⟨c', hmem, hnot⟩ := ih hnames.2
      refine ⟨c', List.mem_cons_of_mem _ hmem, fun hmem' => ?_⟩
      rcases List.mem_cons.mp hmem' with rfl | hmem'
      · exact hnames.1 (List.mem_map_of_mem hmem)
      · exact hnot hmem'

end Truncates

/-- What a cut leaves of a command that defines columns is what another one leaves, with the error
by which the first is refused from then on. -/
inductive Command.CutShort : Command → Command → Error → Prop
  | create {written columns : List Column} (t : TableName) (h : Truncates written columns) :
      CutShort (.createTable t columns) (.createTable t written) (.tableExists t)
  | add {column : Column} (t : TableName) (h : column.indexed = true) :
      CutShort (.addColumn t column) (.addColumn t { column with indexed := false })
        (.columnExists column.name t)

/-- The commands that define what is missing of some columns. -/
def missing (t : TableName) : List Column → List Column → List Command
  | c :: written, column :: rest =>
      (if column.indexed && !c.indexed then [.addIndex t column.name] else []) ++
        missing t written rest
  | _, rest => rest.map (.addColumn t)

/-- Carries out commands one after another until one fails. -/
def Command.runAll (config : Config) : List Command → StoreM Unit
  | [] => return ()
  | c :: rest => do
      let _ ← c.run config
      runAll config rest

/-- The command creates a table or adds a column to it. -/
def Command.DefinesColumns (t : TableName) (c : Command) : Prop :=
  (∃ columns, c = .createTable t columns) ∨ ∃ column, c = .addColumn t column

namespace Command.CutShort

variable {c less : Command} {e : Error} {t : TableName}

theorem truncates (h : c.CutShort less e) : Truncates less.newColumns c.newColumns := by
  cases h with
  | create t h => exact h
  | add t h => exact .unindexed h []

theorem table?_eq (h : c.CutShort less e) : less.table? = c.table? := by
  cases h <;> rfl

theorem proper (h : c.CutShort less e) (hc : c.Proper) : less.Proper := by
  refine ⟨fun ht => hc.table (h.table?_eq ▸ ht), fun {column} hcolumn => ?_⟩
  obtain ⟨column', hcolumn', hname⟩ :=
    List.mem_map.mp (h.truncates.names_prefix.subset (List.mem_map_of_mem hcolumn))
  exact hname ▸ hc.columns hcolumn'

end Command.CutShort

/-! ### Tables with some of the columns -/

namespace Table

variable {tb : Table} {columns written : List Column}

theorem foldl_define_of_notMem (tb : Table) {name : String} (h : name ∉ columns.map (·.name)) :
    (columns.foldl define tb).columns.get? name = tb.columns.get? name ∧
      (name ∈ (columns.foldl define tb).indexed ↔ name ∈ tb.indexed) := by
  induction columns generalizing tb with
  | nil => exact ⟨rfl, Iff.rfl⟩
  | cons first rest ih =>
      rw [List.map_cons, List.mem_cons, not_or] at h
      obtain ⟨htype, hindexed⟩ := ih (tb.define first) h.2
      rw [List.foldl_cons, htype, hindexed]
      refine ⟨?_, ?_⟩
      · rw [define, OrderedMap.get?_insert, if_neg h.1]
      · cases hi : first.indexed <;> simp [define, hi, h.1]

/-- Of columns with different names each is in the table as it is defined. -/
theorem foldl_define_of_mem (hnames : (columns.map (·.name)).Nodup) {c : Column} (hc : c ∈ columns)
    (hnew : c.name ∉ tb.indexed) :
    (columns.foldl define tb).columns.get? c.name = some c.type ∧
      (c.name ∈ (columns.foldl define tb).indexed ↔ c.indexed = true) := by
  induction columns generalizing tb with
  | nil => cases hc
  | cons first rest ih =>
      rw [List.map_cons, List.nodup_cons] at hnames
      rw [List.foldl_cons]
      rcases List.mem_cons.mp hc with rfl | hc
      · obtain ⟨htype, hindexed⟩ := foldl_define_of_notMem (tb.define c) hnames.1
        rw [htype, hindexed]
        refine ⟨?_, ?_⟩
        · rw [define, OrderedMap.get?_insert, if_pos rfl]
        · cases hi : c.indexed <;> simp [define, hi, hnew]
      · have hne : c.name ≠ first.name := fun heq =>
          hnames.1 (heq ▸ List.mem_map_of_mem hc)
        refine ih hnames.2 hc ?_
        cases hi : first.indexed <;> simp [define, hi, hne, hnew]

/-- Columns with different names that the table does not have and that it may be given. -/
structure Fresh (tb : Table) (columns : List Column) : Prop where
  valid : tb.Valid
  proper : ∀ c ∈ columns, ':' ∉ c.name.toList
  distinct : (columns.map (·.name)).Nodup
  new : ∀ c ∈ columns, c.name ∉ tb.columns

/-- When the first column is defined, the others are still new. -/
theorem Fresh.define {c : Column} {rest : List Column} (h : tb.Fresh (c :: rest)) :
    (tb.define c).Fresh rest := by
  obtain ⟨hv, hproper, hdistinct, hnew⟩ := h
  rw [List.forall_mem_cons] at hproper hnew
  rw [List.map_cons, List.nodup_cons] at hdistinct
  refine ⟨hv.define hproper.1 (hv.cell_eq_none hnew.1), hproper.2, hdistinct.2, ?_⟩
  intro c' hc' hmem
  rcases OrderedMap.mem_insert.mp hmem with heq | hmem
  · exact hdistinct.1 (heq ▸ List.mem_map_of_mem hc')
  · exact hnew.2 c' hc' hmem

/-- The schema shows that not all columns are as they should be. -/
theorem Fresh.schema_ne (hfresh : tb.Fresh columns) (h : Truncates written columns)
    (hcolumns : (written.foldl Table.define tb).columns = (columns.foldl Table.define tb).columns) :
    (written.foldl Table.define tb).indexed ≠ (columns.foldl Table.define tb).indexed := by
  intro hsame
  obtain ⟨c, hc, hnot⟩ := h.exists_notMem hfresh.distinct
  have hindexed : c.name ∉ tb.indexed := fun hi =>
    hfresh.new c hc (hfresh.valid.indexed_declared hi)
  obtain ⟨htype, hflag⟩ := foldl_define_of_mem hfresh.distinct hc hindexed
  rw [← hcolumns] at htype
  rw [← hsame] at hflag
  by_cases hname : c.name ∈ written.map (·.name)
  · obtain ⟨c', hc', hname⟩ := List.mem_map.mp hname
    obtain ⟨htype', hflag'⟩ := foldl_define_of_mem
      (hfresh.distinct.sublist h.names_prefix.sublist) hc' (hname ▸ hindexed)
    rw [hname] at htype' hflag'
    have hsame : c' = c := by
      obtain ⟨name, type, indexed⟩ := c
      obtain ⟨name', type', indexed'⟩ := c'
      obtain rfl : name' = name := hname
      obtain rfl : type' = type := Option.some.inj (htype'.symm.trans htype)
      obtain rfl : indexed' = indexed := Bool.eq_iff_iff.mpr (hflag'.symm.trans hflag)
      rfl
    exact hnot (hsame ▸ hc')
  · have hnew := OrderedMap.get?_eq_none_iff.mpr (hfresh.new c hc)
    rw [(foldl_define_of_notMem tb hname).1, hnew] at htype
    cases htype

end Table

/-! ### Cuts of definitions -/

namespace StoreM

variable {t : TableName} {l : Layout} {tb : Table} {config : Config}

/-- A check that throws is steady if what comes after it is. -/
theorem Steady.guard {p : Prop} [Decidable p] {e : Error} {x : StoreM Unit} (hx : Steady x) :
    Steady (if p then throwThe Error e >>= fun _ : Unit => x else x) := by
  split
  · exact (Steady.throw e).bind fun _ => hx
  · exact hx

theorem steady_defineColumn (t : TableName) (column : Column) :
    Steady (Catalog.defineColumn t column) := by
  refine (Steady.call _ _).bind fun _ => ?_
  split
  · exact (Steady.call _ _).bind fun _ => Steady.ret ()
  · exact Steady.ret ()

theorem steady_addColumn (t : TableName) (column : Column) :
    Steady (Catalog.addColumn t column) := by
  refine (reads_ensureTable t).steady.bind fun _ => (Reads.look _ _ rfl).steady.bind fun found => ?_
  exact (steady_defineColumn t column).guard

theorem steady_createTable (t : TableName) (columns : List Column) :
    Steady (Catalog.createTable t columns) := by
  refine (Steady.of_except _).bind fun _ => ?_
  refine ((Reads.look _ _ rfl).steady.bind fun _ => Steady.ret _).bind fun known => ?_
  have hdefine : Steady (columns.forM (Catalog.defineColumn t)) :=
    Steady.forM (steady_defineColumn t)
  have hcolumns := hdefine.guard (p := columns.isEmpty = true)
    (e := .badSyntax .tableWithoutColumns)
  have hexists : Steady (keyType (Key.schema t).text >>= fun type =>
      if type ≠ .absent then _ else _) :=
    (Reads.look _ _ rfl).steady.bind fun type =>
      hcolumns.guard (p := type ≠ .absent) (e := .tableExists t)
  dsimp only
  split
  · exact hexists
  · exact (Steady.throw _).bind fun _ => hexists

/-- A definition is cut before it, or between the type and the index. -/
theorem cutsTo_defineColumn (ht : t.Tagged) {column : Column}
    (hnew : ∀ id, tb.cell id column.name = none) :
    CutsTo (Catalog.defineColumn t column) t l tb.image fun img => img = tb.image ∨
      column.indexed = true ∧ img = (tb.define { column with indexed := false }).image := by
  have hplain : (tb.define { column with indexed := false }).image =
      { tb.image with types := tb.image.types.insert column.name column.type.name } :=
    @Table.image_define tb { column with indexed := false } hnew
  refine CutsTo.step (Or.inl rfl) (runs_hset_schema tb.image ht column.name column.type.name) ?_
  rw [← hplain]
  cases column.indexed with
  | false => exact CutsTo.ret ()
  | true =>
      exact CutsTo.map (Steady.call _ _) (CutsTo.call (Or.inr ⟨rfl, rfl⟩) _ _) fun _ => ()

/-- A cut of several definitions leaves some of them. -/
theorem cutsTo_defineColumns (ht : t.Tagged) (columns : List Column)
    (hnew : ∀ id column, tb.cell id column = none) :
    CutsTo (columns.forM (Catalog.defineColumn t)) t l tb.image fun img => img = tb.image ∨
      ∃ written, Truncates written columns ∧ img = (written.foldl Table.define tb).image := by
  induction columns generalizing tb with
  | nil => exact CutsTo.ret ()
  | cons column rest ih =>
      rw [List.forM_eq_forM, List.forM_cons]
      refine CutsTo.bind (steady_defineColumn t column) ?_
        (runs_defineColumn ht fun id => hnew id column.name) ?_
      · refine (cutsTo_defineColumn ht fun id => hnew id column.name).mono fun img himg => ?_
        exact himg.imp_right fun ⟨hi, heq⟩ => ⟨_, .unindexed hi rest, heq⟩
      · cases rest with
        | nil => exact CutsTo.ret ()
        | cons next rest =>
            refine (@ih (tb.define column) hnew).mono fun img himg => Or.inr ?_
            rcases himg with rfl | ⟨written, h, rfl⟩
            · exact ⟨_, .stopped column next rest, rfl⟩
            · exact ⟨_, .cons column h, rfl⟩

theorem cutsTo_addColumn (hn : t.Names tb) (hv : tb.Valid) (column : Column) :
    CutsTo (Catalog.addColumn t column) t l tb.image fun img => img = tb.image ∨
      column.indexed = true ∧ ∃ tb', img = tb'.image ∧
        Reference.addColumn t tb { column with indexed := false } = .ok ((), tb') := by
  refine CutsTo.check (Or.inl rfl) (reads_ensureTable t) (runs_ensureTable hn.proper)
    fun _ hensure => ?_
  have ht := hn.of_ensure hensure
  have hget := runs_hget_schema tb.image (l := l) ht column.name
  have htype : tb.image.types.get? column.name =
      (tb.columns.get? column.name).map ColumnType.name := OrderedMap.get?_mapValues ..
  rw [htype] at hget
  by_cases hcolumn : column.name ∈ tb.columns
  · obtain ⟨type, hcol⟩ := Option.isSome_iff_exists.mp (OrderedMap.mem_iff_isSome.mp hcolumn)
    rw [hcol] at hget
    exact CutsTo.look (Or.inl rfl) (Reads.look _ _ rfl) hget (CutsTo.fail _)
  · rw [OrderedMap.get?_eq_none_iff.mpr hcolumn] at hget
    refine CutsTo.look (Or.inl rfl) (Reads.look _ _ rfl) hget ?_
    refine (cutsTo_defineColumn ht (hv.cell_eq_none hcolumn)).mono fun img himg => ?_
    exact himg.imp_right fun ⟨hi, heq⟩ => ⟨hi, _, heq,
      Reference.addColumn_eq_ok.mpr ⟨Reference.ensure_eq_ok.mp hensure, hcolumn, rfl⟩⟩

theorem cutsTo_createTable {known : Bool} (ht : t.Proper) (htb : tb.columns.isEmpty = true → tb = ∅)
    (hmarker : l (.marker t.ns) = if known then some (.text "1") else none)
    (columns : List Column) :
    CutsTo (Catalog.createTable t columns) t l tb.image fun img => img = tb.image ∨
      ∃ written, Truncates written columns ∧ ∃ tb', img = tb'.image ∧
        Reference.createTable known t tb written = .ok ((), tb') := by
  refine CutsTo.check (Or.inl rfl) (Reads.of_except _) (Runs.of_except _) fun _ hcheck => ?_
  have htag : t.Tagged := ⟨ht, t.notMem_of_check hcheck⟩
  refine CutsTo.look (Or.inl rfl) ((Reads.look _ _ rfl).bind fun _ => Reads.ret _)
    (runs_namespaceExists ht hmarker) ?_
  cases known with
  | false => exact CutsTo.fail _
  | true =>
      refine CutsTo.look (Or.inl rfl) (Reads.look _ _ rfl) (runs_keyType_schema tb.image ht) ?_
      rw [Table.isEmpty_types]
      cases hempty : tb.columns.isEmpty with
      | false => exact CutsTo.fail _
      | true =>
          cases columns with
          | nil => exact CutsTo.fail _
          | cons column rest =>
              obtain rfl := htb hempty
              refine (cutsTo_defineColumns htag (column :: rest) fun id c => rfl).mono
                fun img himg => himg.imp_right fun ⟨written, h, heq⟩ => ?_
              exact ⟨written, h, _, heq, Reference.createTable_eq_ok.mpr
                ⟨hcheck, rfl, rfl, h.isEmpty_eq_false, rfl⟩⟩

/-- A cut of a command that defines columns leaves the table as it was, or as a command leaves it
that defines some of the columns. -/
theorem cutsTo_run_of_definesColumns {known : Bool} {c : Command} (hn : t.Names tb) (hv : tb.Valid)
    (htb : tb.columns.isEmpty = true → tb = ∅)
    (hmarker : l (.marker t.ns) = if known then some (.text "1") else none)
    (hc : c.DefinesColumns t) :
    CutsTo (c.run config) t l tb.image fun img => img = tb.image ∨
      ∃ less e tb', c.CutShort less e ∧ img = tb'.image ∧
        Reference.run config known t tb less = .ok (.ok, tb') := by
  rcases hc with ⟨columns, rfl⟩ | ⟨column, rfl⟩
  · refine ((cutsTo_createTable hn.proper htb hmarker columns).map
      (steady_createTable t columns) fun _ => Reply.ok).mono fun img himg => ?_
    refine himg.imp_right ?_
    rintro ⟨written, h, tb', heq, hrun⟩
    refine ⟨_, _, tb', .create t h, heq, ?_⟩
    rw [Reference.run, hrun]
    rfl
  · refine ((cutsTo_addColumn hn hv column).map (steady_addColumn t column)
      fun _ => Reply.ok).mono fun img himg => ?_
    refine himg.imp_right ?_
    rintro ⟨hi, tb', heq, hrun⟩
    refine ⟨_, _, tb', .add t hi, heq, ?_⟩
    rw [Reference.run, hrun]
    rfl

/-! ### Completions -/

theorem runs_addColumns (ht : t.Tagged) {columns : List Column} (hfresh : tb.Fresh columns)
    (hthere : tb.columns.isEmpty = false) :
    Runs (Command.runAll config (columns.map (.addColumn t))) (tb.image.on t l) (.ok ())
      ((columns.foldl Table.define tb).image.on t l) := by
  induction columns generalizing tb with
  | nil => exact Runs.ret ()
  | cons c rest ih =>
      have hadd := (refines_addColumn (l := l) ⟨ht.1, fun _ => ht⟩ hfresh.valid c).map
        fun _ => Reply.ok
      have hnew := hfresh.new c (List.mem_cons_self ..)
      rw [(Reference.addColumn_eq_ok (u := ())).mpr ⟨hthere, hnew, rfl⟩] at hadd
      cases hadd with
      | done hadd => exact hadd.bind (ih hfresh.define (OrderedMap.isEmpty_insert ..))

/-- A column that has been defined without its index is given the index. -/
theorem runs_addIndex_of_fresh (ht : t.Tagged) {c : Column} {rest : List Column}
    (hfresh : tb.Fresh (c :: rest)) (hi : c.indexed = true) :
    Runs (Command.run config (.addIndex t c.name))
      ((tb.define { c with indexed := false }).image.on t l) (.ok .ok)
      ((tb.define c).image.on t l) := by
  have hnew := hfresh.new c (List.mem_cons_self ..)
  have hproper := hfresh.proper c (List.mem_cons_self ..)
  have hv : (tb.define { c with indexed := false }).Valid :=
    hfresh.valid.define hproper (hfresh.valid.cell_eq_none hnew)
  have htype : Reference.columnType t (tb.define { c with indexed := false }) c.name = .ok c.type :=
    Reference.columnType_eq_ok.mpr ((OrderedMap.get?_insert ..).trans (if_pos rfl))
  have hensure : Reference.ensure t (tb.define { c with indexed := false }) = .ok () :=
    Reference.ensure_eq_ok.mpr (OrderedMap.isEmpty_insert ..)
  have hdefine : (tb.define { c with indexed := false }).addIndex c.name = tb.define c := by
    simp [Table.addIndex, Table.define, hi]
  have hadd := (refines_addIndex (l := l) ⟨ht.1, fun _ => ht⟩ hv .ascending c.name).map
    fun _ => Reply.ok
  rw [Reference.addIndex, hensure, htype] at hadd
  cases hadd with
  | done hadd => exact hdefine ▸ hadd

/-- What is missing of some columns is defined by commands that all succeed. -/
theorem runs_missing (config : Config) (ht : t.Tagged) {written columns : List Column}
    (h : Truncates written columns) (hfresh : tb.Fresh columns) :
    Runs (Command.runAll config (missing t written columns))
      ((written.foldl Table.define tb).image.on t l) (.ok ())
      ((columns.foldl Table.define tb).image.on t l) := by
  induction h generalizing tb with
  | stopped c next rest =>
      have hmissing : missing t [c] (c :: next :: rest) =
          (next :: rest).map (.addColumn t) := by
        cases hi : c.indexed <;> simp [missing, hi]
      rw [hmissing]
      exact runs_addColumns ht hfresh.define (OrderedMap.isEmpty_insert ..)
  | @unindexed c hi rest =>
      have hmissing : missing t [{ c with indexed := false }] (c :: rest) =
          .addIndex t c.name :: rest.map (.addColumn t) := by
        simp [missing, hi]
      rw [hmissing]
      exact (runs_addIndex_of_fresh ht hfresh hi).bind
        (runs_addColumns ht hfresh.define (OrderedMap.isEmpty_insert ..))
  | @cons c written rest _ ih =>
      have hmissing : missing t (c :: written) (c :: rest) = missing t written rest := by
        cases hi : c.indexed <;> simp [missing, hi]
      rw [hmissing]
      exact ih hfresh.define

end StoreM

/-! ### Commands run again -/

namespace Reference

variable {t : TableName} {tb tb' tb₁ : Table} {known : Bool} {c less : Command} {e : Error}
variable {config config' : Config} {reply reply' : Reply}

/-- Where some of the columns are, the command is refused. -/
theorem run_of_cutShort (h : c.CutShort less e) (ht : c.table? = some t)
    (hrun : run config known t tb c = .ok (reply, tb'))
    (hless : run config' known t tb less = .ok (reply', tb₁)) :
    tb'.columns.isEmpty = false ∧ tb₁.columns.isEmpty = false ∧
      run config known t tb₁ c = .error e := by
  have hmakes := makes_of_run hrun
  have hmakes₁ := makes_of_run hless
  cases h with
  | create _ h =>
      obtain rfl := Option.some.inj ht
      cases hmakes with
      | createTable _ hcheck hknown _ hcolumns =>
          cases hmakes₁ with
          | createTable _ _ _ _ hwritten =>
              refine ⟨columns_create hcolumns, columns_create hwritten, ?_⟩
              rw [run, createTable, hcheck, hknown, columns_create hwritten]
              rfl
  | @add column _ hi =>
      obtain rfl := Option.some.inj ht
      cases hmakes with
      | addColumn =>
          cases hmakes₁ with
          | addColumn =>
              have hthere : (tb.define { column with indexed := false }).columns.isEmpty = false :=
                OrderedMap.isEmpty_insert ..
              have hmem : column.name ∈ (tb.define { column with indexed := false }).columns :=
                OrderedMap.mem_insert.mpr (Or.inl rfl)
              refine ⟨OrderedMap.isEmpty_insert .., hthere, ?_⟩
              rw [run, addColumn, (ensure_eq_ok (u := ())).mpr hthere]
              simp only [hmem, if_true]
              rfl

/-- The command and what is left of it define columns in one table. -/
theorem exists_fresh (h : c.CutShort less e) (hv : tb.Valid) (hc : c.Proper)
    (hdistinct : (c.newColumns.map (·.name)).Nodup)
    (hrun : run config known t tb c = .ok (reply, tb'))
    (hless : run config' known t tb less = .ok (reply', tb₁)) :
    ∃ base : Table, base.Fresh c.newColumns ∧ tb₁ = less.newColumns.foldl Table.define base ∧
      tb' = c.newColumns.foldl Table.define base := by
  have hmakes := makes_of_run hrun
  have hmakes₁ := makes_of_run hless
  cases h with
  | create _ h =>
      cases hmakes with
      | createTable =>
          cases hmakes₁ with
          | createTable =>
              exact ⟨∅, ⟨Table.Valid.empty, fun _ => hc.columns, hdistinct,
                fun c _ => OrderedMap.notMem_empty c.name⟩, rfl, rfl⟩
  | add _ hi =>
      cases hmakes with
      | addColumn _ _ hnew =>
          cases hmakes₁ with
          | addColumn =>
              exact ⟨tb, ⟨hv, fun _ => hc.columns, hdistinct, List.forall_mem_singleton.mpr hnew⟩,
                rfl, rfl⟩

end Reference

namespace Store

variable {s s₁ : Store} {db : Database} {t : TableName} {config : Config} {c : Command}
variable {reply : Reply}

theorem Holds.types_on {img : Image} {l : Layout} (hs : s.Holds (img.on t l)) (ht : t.Proper) :
    s.fieldsAt (Key.schema t).text = img.types :=
  Store.fieldsAt_eq (hs.get?_on (k := .schema t) ht rfl)

/-- A command on a table does to the store what the reference says of the table. -/
theorem Holds.exec_run (hs : s.Holds db.layout) (hdb : db.Valid) (hc : c.Proper)
    (ht : c.table? = some t) {tb' : Table}
    (hrun : Reference.run config (t.ns ∈ db.namespaces) t (db.table t) c = .ok (reply, tb')) :
    (db.set t tb').Valid ∧ ∃ s', (c.run config).exec ⟨s, none⟩ = (.ok reply, ⟨s', none⟩) ∧
      s'.Holds (db.set t tb').layout := by
  have hperforms := StoreM.performs_run .ascending config hdb hc
  rw [Database.run_of_table ht, hrun] at hperforms
  exact hperforms.exec_ok hs

theorem Holds.exec_run_error (hs : s.Holds db.layout) (hdb : db.Valid) (hc : c.Proper)
    (ht : c.table? = some t) {e : Error}
    (hrun : Reference.run config (t.ns ∈ db.namespaces) t (db.table t) c = .error e) :
    (c.run config).exec ⟨s, none⟩ = (.error e, ⟨s, none⟩) := by
  have hperforms := StoreM.performs_run .ascending config hdb hc
  rw [Database.run_of_table ht, hrun] at hperforms
  exact hperforms.exec_error hs

/-- A store in which some columns are missing is not the one with all of them, and is made so by the
commands that define what is missing. -/
theorem Holds.completed {s' : Store} {l : Layout} {base : Table} {written columns : List Column}
    (hs : s.Holds ((written.foldl Table.define base).image.on t l))
    (hs' : s'.Holds ((columns.foldl Table.define base).image.on t l)) (ht : t.Tagged)
    (hfresh : base.Fresh columns) (h : Truncates written columns) (config : Config) :
    s ≠ s' ∧ (Command.runAll config (missing t written columns)).exec ⟨s, none⟩ =
      (.ok (), ⟨s', none⟩) := by
  constructor
  · rintro rfl
    have htypes := (hs.types_on ht.1).symm.trans (hs'.types_on ht.1)
    have hindexed := (hs.indexed_on ht).symm.trans (hs'.indexed_on ht)
    refine hfresh.schema_ne h ?_ hindexed
    rw [← Table.ofStored_types, htypes, Table.ofStored_types]
  · obtain ⟨s₂, hexec, hs₂⟩ := StoreM.runs_missing config ht h hfresh s hs
    rw [hexec, hs₂.unique hs']

/-- A creation of a table or an addition of a column that succeeds on a store is cut by a failure and
then carried out again. If nothing has been written, that makes of it what one run does. Otherwise
the store is as a command with only some of the columns leaves it, the line is refused, because the
table or the column is there, and nothing changes; so with columns of different names the store is
not as after one run, and it is made so by the commands that define what is missing. -/
theorem Reachable.schema_change_again (h : s.Reachable) {line : String}
    (hparse : Command.parse line = .ok c) (hc : c.DefinesColumns t)
    (hok : s.reply config line = .ok reply) (hcut : (Command.runLine config line).Cut s s₁)
    (config' : Config) :
    (s₁ = s ∧ s₁.reply config' line = .ok reply ∧
      s₁.after config' line = s.after config line) ∨
    ∃ less e, c.CutShort less e ∧ (less.run config).exec ⟨s, none⟩ = (.ok .ok, ⟨s₁, none⟩) ∧
      s₁.reply config' line = .error e ∧ s₁.after config' line = s₁ ∧
      ((c.newColumns.map (·.name)).Nodup → s₁ ≠ s.after config line ∧
        (Command.runAll config' (missing t less.newColumns c.newColumns)).exec ⟨s₁, none⟩ =
          (.ok (), ⟨s.after config line, none⟩)) := by
  obtain ⟨db, hdb, hs⟩ := h.exists_database
  have hproper := Command.proper_of_parse hparse
  have hv := hdb.table_valid t
  have ht : c.table? = some t := by rcases hc with ⟨columns, rfl⟩ | ⟨column, rfl⟩ <;> rfl
  -- the configuration makes no difference
  have hline (s : Store) : (Command.runLine config' line).exec ⟨s, none⟩ =
      (c.run config).exec ⟨s, none⟩ := by
    rw [exec_runLine hparse]
    rcases hc with ⟨columns, rfl⟩ | ⟨column, rfl⟩ <;> rfl
  obtain ⟨tb', hrun⟩ := hs.exists_run hdb hparse ht hok
  obtain ⟨-, s', hexec, hs'⟩ := hs.exec_run hdb hproper ht hrun
  have hafter : s.after config line = s' := by
    rw [after, exec_runLine hparse, hexec]
  have hn : t.Names (db.table t) :=
    ⟨hproper.table ht, fun hthere => hdb.tagged (hdb.mem_tables_iff.mpr hthere)⟩
  have hmarker : db.layout (.marker t.ns) =
      if decide (t.ns ∈ db.namespaces) then some (.text "1") else none := by
    simp [Database.layout_marker]
  obtain ⟨q, hcut⟩ := StoreM.cut_iff.mp hcut
  have hcut := StoreM.cut_iff.mpr ⟨q, cutBy_run hparse hcut⟩
  obtain ⟨img, himg, hs₁⟩ := StoreM.cutsTo_run_of_definesColumns hn hv hdb.table_empty hmarker hc
    s s₁ (db.layout_on t ▸ hs) hcut
  rcases himg with rfl | ⟨less, e, tb₁, hless, rfl, hrun₁⟩
  · rw [← db.layout_on t] at hs₁
    obtain rfl := hs₁.unique hs
    refine Or.inl ⟨rfl, ?_, ?_⟩
    · rw [Store.reply, hline, hexec]
    · rw [hafter, after, hline, hexec]
  · obtain ⟨hthere', hthere₁, hrefused⟩ := Reference.run_of_cutShort hless ht hrun hrun₁
    obtain ⟨hdb₁, s₂, hexec₁, hs₂⟩ :=
      hs.exec_run hdb (hless.proper hproper) (hless.table?_eq.trans ht) hrun₁
    rw [← Database.on_layout_of_there hthere₁] at hs₂
    rw [← Database.on_layout_of_there hthere'] at hs'
    obtain rfl := hs₁.unique hs₂
    rw [Database.on_layout_of_there hthere₁] at hs₂
    rw [← Database.table_set_self hthere₁] at hrefused
    have hagain := hs₂.exec_run_error hdb₁ hproper ht hrefused
    refine Or.inr ⟨less, e, hless, hexec₁, ?_, ?_, fun hdistinct => ?_⟩
    · rw [Store.reply, hline, hagain]
    · rw [after, hline, hagain]
    · have htag := hdb₁.tagged (hdb₁.mem_tables_iff.mpr (Database.table_set_self hthere₁ ▸ hthere₁))
      obtain ⟨base, hfresh, rfl, rfl⟩ :=
        Reference.exists_fresh hless hv hproper hdistinct hrun hrun₁
      rw [hafter]
      exact hs₁.completed hs' htag hfresh hless.truncates config'

/-- A store with a namespace and no table. -/
def sampleNamespace : Store := (∅ : Store).after {} "NAMESPACE.CREATE app"

theorem sampleNamespace_reachable : sampleNamespace.Reachable := by
  unfold sampleNamespace
  exact Reachable.empty.line {} _

/-- The first of two columns has been defined, with its index. -/
def sampleCutCreate : Store :=
  OrderedMap.ofList
    [((Key.marker "app").text, .text "1"),
     ((Key.schema ⟨"app", "users"⟩).text, .hash (OrderedMap.ofList [("name", "string")])),
     ((Key.indexed ⟨"app", "users"⟩).text, .set (OrderedSet.ofMembers ["name"]))]

theorem sample_parse_create :
    Command.parse "SCHEMA.CREATE app.users name:string:hash age:integer" =
      .ok (.createTable ⟨"app", "users"⟩ [⟨"name", .string, true⟩, ⟨"age", .integer, false⟩]) := by
  cbv

theorem sample_cut_create :
    (Command.runLine {} "SCHEMA.CREATE app.users name:string:hash age:integer").Cut
      sampleNamespace sampleCutCreate := by
  refine ⟨⟨.hset, 1⟩, ?_⟩
  rw [exec_runLine sample_parse_create]
  cbv

theorem sample_reply_create :
    sampleNamespace.reply {} "SCHEMA.CREATE app.users name:string:hash age:integer" = .ok .ok := by
  cbv

theorem sample_schema_change_again :
    let line := "SCHEMA.CREATE app.users name:string:hash age:integer"
    let t : TableName := ⟨"app", "users"⟩
    let c : Command := .createTable t [⟨"name", .string, true⟩, ⟨"age", .integer, false⟩]
    sampleNamespace.Reachable ∧ Command.parse line = .ok c ∧ c.DefinesColumns t ∧
      sampleNamespace.reply {} line = .ok .ok ∧
      (Command.runLine {} line).Cut sampleNamespace sampleCutCreate ∧
      ((sampleCutCreate = sampleNamespace ∧ sampleCutCreate.reply {} line = .ok .ok ∧
          sampleCutCreate.after {} line = sampleNamespace.after {} line) ∨
        ∃ less e, c.CutShort less e ∧
          (less.run {}).exec ⟨sampleNamespace, none⟩ = (.ok .ok, ⟨sampleCutCreate, none⟩) ∧
          sampleCutCreate.reply {} line = .error e ∧
          sampleCutCreate.after {} line = sampleCutCreate ∧
          ((c.newColumns.map (·.name)).Nodup →
            sampleCutCreate ≠ sampleNamespace.after {} line ∧
            (Command.runAll {} (missing t less.newColumns c.newColumns)).exec
              ⟨sampleCutCreate, none⟩ = (.ok (), ⟨sampleNamespace.after {} line, none⟩))) := by
  intro line t c
  have hc : c.DefinesColumns t := Or.inl ⟨_, rfl⟩
  exact ⟨sampleNamespace_reachable, sample_parse_create, hc, sample_reply_create, sample_cut_create,
    sampleNamespace_reachable.schema_change_again sample_parse_create hc sample_reply_create
      sample_cut_create {}⟩

/-- The new column of the sample has been defined, and its index has not. -/
def sampleCutAdd : Store :=
  sample.insert (Key.schema ⟨"app", "users"⟩).text
    (.hash (OrderedMap.ofList [("age", "integer"), ("email", "string"), ("name", "string")]))

theorem sample_cut_add :
    (Command.runLine {} "SCHEMA.ALTER app.users ADD COLUMN email:string:hash").Cut sample
      sampleCutAdd := by
  have hparse : Command.parse "SCHEMA.ALTER app.users ADD COLUMN email:string:hash" =
      .ok (.addColumn ⟨"app", "users"⟩ ⟨"email", .string, true⟩) := by cbv
  refine ⟨⟨.sadd, 0⟩, ?_⟩
  rw [exec_runLine hparse]
  cbv

theorem sample_reply_add :
    sample.reply {} "SCHEMA.ALTER app.users ADD COLUMN email:string:hash" = .ok .ok := by
  cbv

/-- Run again, the creation still lacks a column. -/
theorem sampleCutCreate_again :
    let line := "SCHEMA.CREATE app.users name:string:hash age:integer"
    sampleCutCreate.after {} line = sampleCutCreate ∧
      sampleNamespace.after {} line = sampleCutCreate.insert (Key.schema ⟨"app", "users"⟩).text
        (.hash (OrderedMap.ofList [("age", "integer"), ("name", "string")])) := by
  constructor <;> cbv

/-- Run again, the addition still lacks the index. -/
theorem sampleCutAdd_again :
    let line := "SCHEMA.ALTER app.users ADD COLUMN email:string:hash"
    sampleCutAdd.after {} line = sampleCutAdd ∧
      sample.after {} line = sampleCutAdd.insert (Key.indexed ⟨"app", "users"⟩).text
        (.set (OrderedSet.ofMembers ["email", "name"])) := by
  constructor <;> cbv

/-- Run again, neither the creation nor the addition completes what has been cut. -/
theorem sample_not_completed :
    let create := "SCHEMA.CREATE app.users name:string:hash age:integer"
    let add := "SCHEMA.ALTER app.users ADD COLUMN email:string:hash"
    (sampleNamespace.Reachable ∧ sampleNamespace.reply {} create = .ok .ok ∧
      (Command.runLine {} create).Cut sampleNamespace sampleCutCreate ∧
      sampleCutCreate.after {} create ≠ sampleNamespace.after {} create) ∧
    sample.Reachable ∧ sample.reply {} add = .ok .ok ∧
      (Command.runLine {} add).Cut sample sampleCutAdd ∧
      sampleCutAdd.after {} add ≠ sample.after {} add := by
  intro create add
  refine ⟨⟨sampleNamespace_reachable, sample_reply_create, sample_cut_create, ?_⟩,
    sample_reachable, sample_reply_add, sample_cut_add, ?_⟩
  · rw [sampleCutCreate_again.1, sampleCutCreate_again.2]
    decide +kernel
  · rw [sampleCutAdd_again.1, sampleCutAdd_again.2]
    decide +kernel

end Store

end Tabular
