import Tabular.Proofs.History

/-!
What a run has done to the columns of a table. Two commands define columns and two more give them
an index or take it away; all four leave their traces in the log. What a view of the schema shows of
a column is what the log says since the table was created: the type by the one command that defined
the column, the index by the last command that was about it (`schema_of_era`).
-/

namespace Tabular

/-! ### What a log says of a column -/

namespace Event

variable {t : TableName} {name : String} {e : Event}

/-- The definitions of a column that a command has put into a table. A creation may have several. -/
def definitions (t : TableName) (name : String) (e : Event) : List Column :=
  if e.command.table? = some t then e.command.newColumns.filter fun c => c.name = name else []

/-- The type that a command gave to a column, which is that of the last definition. -/
def type? (t : TableName) (name : String) (e : Event) : Option ColumnType :=
  (e.definitions t name).getLast?.map (·.type)

/-- Whether a command left a column with an index; `none` if it was not about the index of the
column. A definition that asks for an index is enough. -/
def mark? (t : TableName) (name : String) (e : Event) : Option Bool :=
  match e.command with
  | .addIndex t' column => if t' = t ∧ column = name then some true else none
  | .dropIndex t' column => if t' = t ∧ column = name then some false else none
  | _ =>
      match e.definitions t name with
      | [] => none
      | columns => some (columns.any (·.indexed))

theorem definitions_of_ne (h : e.command.table? ≠ some t) : e.definitions t name = [] := if_neg h

theorem type?_of_nil (h : e.definitions t name = []) : e.type? t name = none := by
  rw [type?, h]
  rfl

theorem mark?_of_nil (h : e.definitions t name = [])
    (hadd : e.command ≠ .addIndex t name) (hdrop : e.command ≠ .dropIndex t name) :
    e.mark? t name = none := by
  unfold mark?
  split
  · next t' column hc =>
      refine if_neg fun heq => hadd ?_
      rw [hc, heq.1, heq.2]
  · next t' column hc =>
      refine if_neg fun heq => hdrop ?_
      rw [hc, heq.1, heq.2]
  · rw [h]

/-- A command that defines columns marks those that it defines. -/
theorem mark?_of_ne_nil (h : e.definitions t name ≠ []) :
    e.mark? t name = some ((e.definitions t name).any (·.indexed)) := by
  have hnew : e.command.newColumns ≠ [] := by
    intro hnil
    apply h
    rw [definitions, hnil, List.filter_nil, ite_self]
  unfold mark?
  split
  · next hc => exact (hnew (by rw [hc]; rfl)).elim
  · next hc => exact (hnew (by rw [hc]; rfl)).elim
  · split
    · next hnil => exact (h hnil).elim
    · rfl

end Event

/-! ### What a table has kept of it -/

namespace Table

/-- A new table has of each column the type that is defined last, and an index if any of the
definitions asks for one. -/
theorem create_column (columns : List Column) (name : String) :
    ((Table.create columns).columns.get? name =
        (columns.filter fun c => c.name = name).getLast?.map (·.type)) ∧
      (Table.create columns).indexed.contains name =
        (columns.filter fun c => c.name = name).any (·.indexed) := by
  induction columns using List.reverseRecOn with
  | nil => exact ⟨rfl, rfl⟩
  | append_singleton columns c ih =>
      obtain ⟨htype, hindexed⟩ := ih
      have hconcat : Table.create (columns ++ [c]) = (Table.create columns).define c :=
        List.foldl_concat ..
      rw [OrderedMap.contains_eq_decide] at hindexed ⊢
      rw [hconcat, List.filter_append]
      by_cases hc : c.name = name
      · have hlast : [c].filter (fun c => c.name = name) = [c] :=
          List.filter_cons_of_pos (by simpa using hc)
        rw [hlast, List.getLast?_concat, List.any_append, ← hindexed]
        refine ⟨?_, ?_⟩
        · rw [define, OrderedMap.get?_insert, if_pos hc.symm]
          rfl
        · cases hi : c.indexed <;> simp [define, hi, hc]
      · have hlast : [c].filter (fun c => c.name = name) = [] :=
          List.filter_cons_of_neg (by simpa using hc)
        rw [hlast, List.append_nil, ← htype, ← hindexed]
        refine ⟨?_, ?_⟩
        · rw [define, OrderedMap.get?_insert, if_neg fun heq => hc heq.symm]
        · have hne : name ≠ c.name := fun heq => hc heq.symm
          cases hi : c.indexed <;> simp [define, hi, hne]

end Table

/-- Each column of a table has been defined by one command, with the type that it has, and has an
index if the last command about its index has left it one. No other column has been defined. -/
structure Chronicle (t : TableName) (events : List Event) (tb : Table) : Prop where
  types : ∀ name, events.filterMap (Event.type? t name) = (tb.columns.get? name).toList
  marks : ∀ {name}, name ∈ tb.columns →
    (events.filterMap (Event.mark? t name)).getLast? = some (tb.indexed.contains name)

namespace Chronicle

variable {t : TableName} {events : List Event} {tb tb' : Table} {e : Event}

theorem create {columns : List Column} (he : e.command = .createTable t columns) :
    Chronicle t [e] (Table.create columns) := by
  have hdefinitions (name : String) :
      e.definitions t name = columns.filter fun c => c.name = name := by
    rw [Event.definitions, he]
    exact if_pos rfl
  refine ⟨fun name => ?_, fun {name} hname => ?_⟩
  · rw [(Table.create_column columns name).1, ← hdefinitions]
    show List.filterMap (Event.type? t name) [e] = (e.type? t name).toList
    cases htype : e.type? t name <;> simp [htype]
  · have htype := (Table.create_column columns name).1
    have hne : e.definitions t name ≠ [] := by
      intro hnil
      rw [← hdefinitions, hnil] at htype
      exact OrderedMap.get?_eq_none_iff.mp htype hname
    have hmark := Event.mark?_of_ne_nil hne
    rw [(Table.create_column columns name).2, ← hdefinitions, ← hmark]
    simp [hmark]

/-- A command that defines no column and is not about an index. -/
theorem keep (h : Chronicle t events tb) (htype : ∀ name, e.type? t name = none)
    (hmark : ∀ name, e.mark? t name = none) (hcolumns : tb'.columns = tb.columns)
    (hindexed : tb'.indexed = tb.indexed) : Chronicle t (events ++ [e]) tb' := by
  refine ⟨fun name => ?_, fun {name} hname => ?_⟩
  · have hnone : [e].filterMap (Event.type? t name) = [] := by simp [htype]
    rw [List.filterMap_append, hnone, List.append_nil, hcolumns, h.types]
  · have hnone : [e].filterMap (Event.mark? t name) = [] := by simp [hmark]
    rw [List.filterMap_append, hnone, List.append_nil, hindexed, h.marks (hcolumns ▸ hname)]

/-- A command that gives a column an index or takes it away. -/
theorem mark (h : Chronicle t events tb) (column : String) (flag : Bool)
    (htype : ∀ name, e.type? t name = none)
    (hmark : ∀ name, e.mark? t name = if column = name then some flag else none)
    (hcolumns : tb'.columns = tb.columns) (hindexed : ∀ name,
      tb'.indexed.contains name = if column = name then flag else tb.indexed.contains name) :
    Chronicle t (events ++ [e]) tb' := by
  refine ⟨fun name => ?_, fun {name} hname => ?_⟩
  · have hnone : [e].filterMap (Event.type? t name) = [] := by simp [htype]
    rw [List.filterMap_append, hnone, List.append_nil, hcolumns, h.types]
  · rw [List.filterMap_append, hindexed]
    by_cases hc : column = name
    · have hone : [e].filterMap (Event.mark? t name) = [flag] := by simp [hmark, hc]
      rw [hone, List.getLast?_concat, if_pos hc]
    · have hnone : [e].filterMap (Event.mark? t name) = [] := by simp [hmark, hc]
      rw [hnone, List.append_nil, if_neg hc, h.marks (hcolumns ▸ hname)]

theorem addColumn (h : Chronicle t events tb) (hv : tb.Valid) {column : Column}
    (he : e.command = .addColumn t column) (hnew : column.name ∉ tb.columns) :
    Chronicle t (events ++ [e]) (tb.define column) := by
  have hdefinitions (name : String) :
      e.definitions t name = [column].filter fun c => c.name = name := by
    rw [Event.definitions, he]
    exact if_pos rfl
  have hnotIndexed : column.name ∉ tb.indexed := fun hi => hnew (hv.indexed_declared hi)
  refine ⟨fun name => ?_, fun {name} hname => ?_⟩
  · have hget : (tb.define column).columns.get? name =
        if name = column.name then some column.type else tb.columns.get? name :=
      OrderedMap.get?_insert ..
    rw [List.filterMap_append, h.types, hget]
    by_cases hc : column.name = name
    · have hnone : tb.columns.get? name = none := OrderedMap.get?_eq_none_iff.mpr (hc ▸ hnew)
      have hlast : e.definitions t name = [column] := by rw [hdefinitions]; simp [hc]
      simp [Event.type?, hlast, hnone, hc]
    · have hnil : e.definitions t name = [] := by rw [hdefinitions]; simp [hc]
      have hne : name ≠ column.name := fun heq => hc heq.symm
      simp [Event.type?_of_nil hnil, hne]
  · rw [List.filterMap_append]
    by_cases hc : column.name = name
    · have hlast : e.definitions t name = [column] := by rw [hdefinitions]; simp [hc]
      have hmark : e.mark? t name = some column.indexed := by
        rw [Event.mark?_of_ne_nil (by rw [hlast]; simp), hlast]
        simp
      have hone : [e].filterMap (Event.mark? t name) = [column.indexed] := by simp [hmark]
      rw [hone, List.getLast?_concat, OrderedMap.contains_eq_decide]
      cases hi : column.indexed <;> simp [Table.define, hi, ← hc, hnotIndexed]
    · have hne : name ≠ column.name := fun heq => hc heq.symm
      have hthere : name ∈ tb.columns := (OrderedMap.mem_insert.mp hname).resolve_left hne
      have hmark : e.mark? t name = none := by
        refine Event.mark?_of_nil (by rw [hdefinitions]; simp [hc]) ?_ ?_ <;> simp [he]
      have hnone : [e].filterMap (Event.mark? t name) = [] := by simp [hmark]
      rw [hnone, List.append_nil, h.marks hthere, OrderedMap.contains_eq_decide,
        OrderedMap.contains_eq_decide]
      cases hi : column.indexed <;> simp [Table.define, hi, hne]

theorem addIndex (h : Chronicle t events tb) {column : String}
    (he : e.command = .addIndex t column) : Chronicle t (events ++ [e]) (tb.addIndex column) := by
  refine h.mark column true (fun name => Event.type?_of_nil ?_) (fun name => ?_) rfl fun name => ?_
  · rw [Event.definitions, he]
    exact ite_self _
  · simp [Event.mark?, he]
  · rw [OrderedMap.contains_eq_decide, OrderedMap.contains_eq_decide]
    by_cases hc : column = name <;> simp [Table.addIndex, hc, eq_comm]

theorem dropIndex (h : Chronicle t events tb) {column : String}
    (he : e.command = .dropIndex t column) : Chronicle t (events ++ [e]) (tb.dropIndex column) := by
  refine h.mark column false (fun name => Event.type?_of_nil ?_) (fun name => ?_) rfl fun name => ?_
  · rw [Event.definitions, he]
    exact ite_self _
  · simp [Event.mark?, he]
  · rw [OrderedMap.contains_eq_decide, OrderedMap.contains_eq_decide]
    by_cases hc : column = name <;> simp [Table.dropIndex, hc, eq_comm]

/-- An event that may change the table takes its chronicle on. -/
theorem turn (h : Chronicle t events tb) (hv : tb.Valid) (he : e.Turns t tb tb') :
    Chronicle t (events ++ [e]) tb' := by
  have hstill := he.still
  have hcreates := he.creates
  rcases he.effect with ⟨ht, config, known, hrun⟩ | ⟨hne, rfl⟩
  · have hmakes := Reference.makes_of_run hrun
    obtain ⟨c, reply, s⟩ := e
    dsimp only at ht hmakes
    cases hmakes with
    | createTable t' =>
        obtain rfl := Option.some.inj ht
        rw [Event.creates_iff.mpr ⟨_, rfl⟩] at hcreates
        cases hcreates
    | addColumn t' _ hnew =>
        obtain rfl := Option.some.inj ht
        exact h.addColumn hv rfl hnew
    | @addIndex t' column =>
        obtain rfl := Option.some.inj ht
        exact h.addIndex rfl
    | @dropIndex t' column =>
        obtain rfl := Option.some.inj ht
        exact h.dropIndex rfl
    | dropTable => cases hstill
    | viewSchema | select | insert | update | delete | createNamespace | listTables | help =>
        refine h.keep (fun name => Event.type?_of_nil ?_) (fun name => ?_) rfl rfl
        · exact ite_self _
        · exact Event.mark?_of_nil (ite_self _) (by simp) (by simp)
  · refine h.keep (fun name => Event.type?_of_nil (Event.definitions_of_ne hne)) (fun name => ?_)
      rfl rfl
    refine Event.mark?_of_nil (Event.definitions_of_ne hne) ?_ ?_ <;>
    · intro hc
      rw [hc] at hne
      exact hne rfl

/-- The columns are those that have been defined. -/
theorem mem_iff (h : Chronicle t events tb) {name : String} :
    name ∈ tb.columns ↔ ∃ e ∈ events, e.definitions t name ≠ [] := by
  have htypes := h.types name
  constructor
  · intro hname
    obtain ⟨type, htype⟩ := Option.isSome_iff_exists.mp (OrderedMap.mem_iff_isSome.mp hname)
    rw [htype] at htypes
    have hmem : type ∈ events.filterMap (Event.type? t name) := by
      rw [htypes]
      exact List.mem_singleton_self type
    obtain ⟨e, he, hetype⟩ := List.mem_filterMap.mp hmem
    refine ⟨e, he, fun hnil => ?_⟩
    rw [Event.type?_of_nil hnil] at hetype
    cases hetype
  · rintro ⟨e, he, hne⟩
    have htype : e.type? t name = some ((e.definitions t name).getLast hne).type := by
      rw [Event.type?, List.getLast?_eq_some_getLast hne]
      rfl
    have hmem := List.mem_filterMap.mpr ⟨e, he, htype⟩
    rw [htypes, Option.mem_toList] at hmem
    exact OrderedMap.mem_of_get? hmem

/-- What has been defined stays so. -/
theorem type_of_append {later : List Event} (h' : Chronicle t (events ++ later) tb')
    (h : Chronicle t events tb) {name : String} {type : ColumnType}
    (htype : tb.columns.get? name = some type) : tb'.columns.get? name = some type := by
  have htypes := h'.types name
  rw [List.filterMap_append, h.types, htype] at htypes
  have hmem : type ∈ (tb'.columns.get? name).toList := by
    rw [← htypes]
    exact List.mem_cons_self
  exact Option.mem_toList.mp hmem

end Chronicle

/-! ### What a view shows -/

namespace Table

variable {tb : Table} {t : TableName}

/-- The columns of a schema are in order already. -/
theorem columns_schema (tb : Table) (t : TableName) :
    (tb.schema t).columns =
      tb.columns.toList.map fun b => ⟨b.1, b.2, tb.indexed.contains b.1⟩ := by
  refine List.mergeSort_of_pairwise (List.pairwise_map.mpr (tb.columns.ascending.imp ?_))
  exact fun h => decide_eq_true (Std.le_of_lt h)

theorem pairwise_columns_schema (tb : Table) (t : TableName) :
    (tb.schema t).columns.Pairwise fun a b => a.name < b.name := by
  rw [columns_schema]
  exact List.pairwise_map.mpr tb.columns.ascending

theorem mem_columns_schema {c : Column} : c ∈ (tb.schema t).columns ↔
    tb.columns.get? c.name = some c.type ∧ tb.indexed.contains c.name = c.indexed := by
  rw [columns_schema, List.mem_map]
  constructor
  · rintro ⟨b, hb, rfl⟩
    exact ⟨OrderedMap.get?_eq_some_iff.mpr hb, rfl⟩
  · rintro ⟨htype, hindexed⟩
    refine ⟨(c.name, c.type), OrderedMap.get?_eq_some_iff.mp htype, ?_⟩
    rw [hindexed]

theorem exists_column_schema {name : String} :
    (∃ c ∈ (tb.schema t).columns, c.name = name) ↔ name ∈ tb.columns := by
  constructor
  · rintro ⟨c, hc, rfl⟩
    exact OrderedMap.mem_of_get? (mem_columns_schema.mp hc).1
  · intro hname
    obtain ⟨type, htype⟩ := Option.isSome_iff_exists.mp (OrderedMap.mem_iff_isSome.mp hname)
    exact ⟨⟨name, type, tb.indexed.contains name⟩, mem_columns_schema.mpr ⟨htype, rfl⟩, rfl⟩

end Table

namespace Store

variable {s : Store} {db : Database} {t : TableName} {columns : List Column}

/-- A view of the schema of a table shows these columns in this order, and changes nothing. -/
def Shows (s : Store) (t : TableName) (columns : List Column) : Prop :=
  ∀ config, ((Command.viewSchema t).run config).exec ⟨s, none⟩ =
    (.ok (.array (columns.map Column.reply)), ⟨s, none⟩)

theorem Holds.shows (hs : s.Holds db.layout) (hdb : db.Valid) (ht : t ∈ db.tables) :
    s.Shows t ((db.table t).schema t).columns := by
  intro config
  have htag := hdb.tagged ht
  have hn : t.Names (db.table t) := ⟨htag.1, fun _ => htag⟩
  have hensure : Reference.ensure t (db.table t) = .ok () :=
    Reference.ensure_eq_ok.mpr (hdb.mem_tables_iff.mp ht)
  have hdescribe : Reference.describe t (db.table t) = .ok ((db.table t).schema t) := by
    rw [Reference.describe, hensure]
    rfl
  have hruns : StoreM.Runs (Catalog.describe t) ((db.table t).image.on t db.layout) _
      ((db.table t).image.on t db.layout) := StoreM.runs_describe hn
  rw [← db.layout_on t, hdescribe] at hruns
  have hreply : StoreM.Runs ((Command.viewSchema t).run config) db.layout
      (.ok (.array (((db.table t).schema t).columns.map Column.reply))) db.layout :=
    hruns.bind (StoreM.Runs.ret _)
  exact hreply.exec_eq hs

theorem afterAll_append (s : Store) (lines more : List (Config × String)) :
    s.afterAll (lines ++ more) = (s.afterAll lines).afterAll more := List.foldl_append ..

theorem log_append (s : Store) (lines more : List (Config × String)) :
    s.log (lines ++ more) = s.log lines ++ (s.afterAll lines).log more := by
  induction lines generalizing s with
  | nil => rfl
  | cons l rest ih =>
      rw [List.cons_append, log, log, ih, List.append_assoc]
      rfl

/-- A view of a table shows the columns that have been defined since the table was created, each
once and in order of their names. Each of them has been defined by one command only, with the type
shown, and is shown with an index if the last command about its index has left it one. As long as
the table is not created anew, every later view shows it with the same type. -/
theorem schema_of_era (lines : List (Config × String))
    (ht : ((∅ : Store).afterAll lines).HasTable t) :
    let s := (∅ : Store).afterAll lines
    let events := era t ((∅ : Store).log lines)
    ∃ columns : List Column, s.Shows t columns ∧
      columns.Pairwise (fun a b => a.name < b.name) ∧
      (∀ name, (∃ c ∈ columns, c.name = name) ↔ ∃ e ∈ events, e.definitions t name ≠ []) ∧
      (∀ c ∈ columns, events.filterMap (Event.type? t c.name) = [c.type]) ∧
      (∀ c ∈ columns, (events.filterMap (Event.mark? t c.name)).getLast? = some c.indexed) ∧
      ∀ more, (∀ e ∈ s.log more, e.creates t = false) → (s.afterAll more).HasTable t →
        ∃ columns' : List Column, (s.afterAll more).Shows t columns' ∧
          ∀ c ∈ columns, ∃ c' ∈ columns', c'.name = c.name ∧ c'.type = c.type := by
  intro s events
  have hchronicle (lines : List (Config × String)) :=
    exists_database_of_era (t := t) Chronicle.create (fun hv he h => h.turn hv he) lines
  obtain ⟨db, hdb, hs, hevents⟩ := hchronicle lines
  have hmem := (hs.hasTable_iff hdb).mp ht
  have h : Chronicle t events (db.table t) := hevents hmem
  refine ⟨_, hs.shows hdb hmem, Table.pairwise_columns_schema _ t, fun name => ?_, fun c hc => ?_,
    fun c hc => ?_, fun more hmore ht' => ?_⟩
  · rw [Table.exists_column_schema, h.mem_iff]
  · rw [h.types, (Table.mem_columns_schema.mp hc).1]
    rfl
  · obtain ⟨htype, hindexed⟩ := Table.mem_columns_schema.mp hc
    rw [h.marks (OrderedMap.mem_of_get? htype), hindexed]
  · obtain ⟨db', hdb', hs', hevents'⟩ := hchronicle (lines ++ more)
    rw [afterAll_append] at hs'
    have hmem' := (hs'.hasTable_iff hdb').mp ht'
    have h' := hevents' hmem'
    rw [log_append, era_append hmore] at h'
    refine ⟨_, hs'.shows hdb' hmem', fun c hc => ?_⟩
    have htype := h'.type_of_append h (Table.mem_columns_schema.mp hc).1
    exact ⟨⟨c.name, c.type, (db'.table t).indexed.contains c.name⟩,
      Table.mem_columns_schema.mpr ⟨htype, rfl⟩, rfl, rfl⟩

/-- A column defined twice at the creation, one that is added later, and an index taken away. -/
theorem sample_schema_of_era :
    let t : TableName := ⟨"app", "users"⟩
    let lines : List (Config × String) :=
      [({}, "NAMESPACE.CREATE app"),
       ({}, "SCHEMA.CREATE app.users name:date:hash name:string age:integer"),
       ({}, "SCHEMA.ALTER app.users ADD COLUMN born:date:hash"),
       ({}, "SCHEMA.ALTER app.users DROP INDEX born")]
    let s := (∅ : Store).afterAll lines
    let events := era t ((∅ : Store).log lines)
    s.HasTable t ∧
      ∃ columns : List Column, s.Shows t columns ∧
        columns.Pairwise (fun a b => a.name < b.name) ∧
        (∀ name, (∃ c ∈ columns, c.name = name) ↔ ∃ e ∈ events, e.definitions t name ≠ []) ∧
        (∀ c ∈ columns, events.filterMap (Event.type? t c.name) = [c.type]) ∧
        (∀ c ∈ columns, (events.filterMap (Event.mark? t c.name)).getLast? = some c.indexed) ∧
        ∀ more, (∀ e ∈ s.log more, e.creates t = false) → (s.afterAll more).HasTable t →
          ∃ columns' : List Column, (s.afterAll more).Shows t columns' ∧
            ∀ c ∈ columns, ∃ c' ∈ columns', c'.name = c.name ∧ c'.type = c.type := by
  intro t lines s events
  have hlines : (∅ : Store).afterAll lines =
      ((((∅ : Store).after {} "NAMESPACE.CREATE app").after {}
        "SCHEMA.CREATE app.users name:date:hash name:string age:integer").after {}
        "SCHEMA.ALTER app.users ADD COLUMN born:date:hash").after {}
        "SCHEMA.ALTER app.users DROP INDEX born" := by
    rw [afterAll_cons, afterAll_cons, afterAll_cons, afterAll_cons, afterAll_nil]
  have ht : ((∅ : Store).afterAll lines).HasTable t := by
    rw [hlines]
    exact of_decide_eq_true (by cbv)
  exact ⟨ht, schema_of_era lines ht⟩

end Store

end Tabular
