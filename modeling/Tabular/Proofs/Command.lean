import Tabular.Proofs.Listing
import Tabular.Proofs.Parse

/-!
Commands. `Database.run` says what each of them makes of a database, and `performs_run` that the
program of a command does just that to the keys. A command that fails leaves the database as it is.
-/

namespace Tabular

/-- The command inserts rows into a table, changes some or deletes some. -/
def Command.ChangesRows (t : TableName) (c : Command) : Prop :=
  (∃ fields, c = .insert t fields) ∨ (∃ w fields, c = .update t w fields) ∨ ∃ w, c = .delete t w

namespace Reference

variable {t : TableName} {tb tb' : Table}

/-- A table that was there still is, and it is valid. -/
structure Keeps (tb tb' : Table) : Prop where
  there : tb.columns.isEmpty = false
  valid : tb'.Valid
  still : tb'.columns.isEmpty = false

theorem addColumn_eq_ok {column : Column} {u : Unit} :
    addColumn t tb column = .ok (u, tb') ↔
      tb.columns.isEmpty = false ∧ column.name ∉ tb.columns ∧ tb' = tb.define column := by
  unfold addColumn
  rw [bind_eq_ok]
  simp only [ensure_eq_ok, exists_const]
  by_cases hnew : column.name ∈ tb.columns
  · rw [if_pos hnew]
    exact iff_of_false (fun h => by cases h.2) fun h => h.2.1 hnew
  · rw [if_neg hnew, and_iff_right (a := column.name ∉ tb.columns) hnew]
    exact and_congr_right fun _ => ⟨fun h => (Prod.mk.inj (Except.ok.inj h)).2.symm,
      fun h => by rw [h]; rfl⟩

theorem columns_create {columns : List Column} (h : columns.isEmpty = false) :
    (Table.create columns).columns.isEmpty = false := by
  have hfold : ∀ (columns : List Column) (tb : Table), tb.columns.isEmpty = false →
      (columns.foldl Table.define tb).columns.isEmpty = false := by
    intro columns
    induction columns with
    | nil => exact fun _ htb => htb
    | cons column rest ih => exact fun tb _ => ih _ (OrderedMap.isEmpty_insert ..)
  cases columns with
  | nil => cases h
  | cons column rest => exact hfold rest _ (OrderedMap.isEmpty_insert ..)

theorem createTable_eq_ok {known : Bool} {columns : List Column} {u : Unit} :
    createTable known t tb columns = .ok (u, tb') ↔ t.check = .ok () ∧ known = true ∧
      tb.columns.isEmpty = true ∧ columns.isEmpty = false ∧ tb' = .create columns := by
  unfold createTable
  cases t.check with
  | error e => exact iff_of_false (fun h => by cases h) fun h => by cases h.1
  | ok _ =>
      cases known with
      | false => exact iff_of_false (fun h => by cases h) fun h => Bool.noConfusion h.2.1
      | true =>
          cases tb.columns.isEmpty with
          | false => exact iff_of_false (fun h => by cases h) fun h => Bool.noConfusion h.2.2.1
          | true =>
              cases columns.isEmpty with
              | true => exact iff_of_false (fun h => by cases h) fun h => Bool.noConfusion h.2.2.2.1
              | false =>
                  exact ⟨fun h => ⟨rfl, rfl, rfl, rfl, (Prod.mk.inj (Except.ok.inj h)).2.symm⟩,
                    fun h => by rw [h.2.2.2.2]; rfl⟩

theorem columnType_eq_ok {column : String} {type : ColumnType} :
    columnType t tb column = .ok type ↔ tb.columns.get? column = some type := by
  unfold columnType
  cases tb.columns.get? column with
  | none => exact iff_of_false (fun h => by cases h) (fun h => by cases h)
  | some type' =>
      exact ⟨fun h => congrArg some (Except.ok.inj h), fun h => congrArg _ (Option.some.inj h)⟩

theorem addIndex_eq_ok {column : String} {n : Nat} (h : addIndex t tb column = .ok (n, tb')) :
    tb.columns.isEmpty = false ∧ (∃ type, tb.columns.get? column = some type) ∧
      tb' = tb.addIndex column := by
  obtain ⟨_, hensure, h⟩ := bind_eq_ok.mp h
  obtain ⟨type, htype, h⟩ := bind_eq_ok.mp h
  obtain ⟨-, rfl⟩ := Prod.mk.inj (Except.ok.inj h)
  exact ⟨ensure_eq_ok.mp hensure, ⟨type, columnType_eq_ok.mp htype⟩, rfl⟩

theorem dropIndex_eq_ok {column : String} {removed : Engine.IndexRemoval × Nat}
    (h : dropIndex t tb column = .ok (removed, tb')) :
    tb.columns.isEmpty = false ∧ (∃ type, tb.columns.get? column = some type) ∧
      tb' = tb.dropIndex column := by
  obtain ⟨_, hensure, h⟩ := bind_eq_ok.mp h
  obtain ⟨type, htype, h⟩ := bind_eq_ok.mp h
  obtain ⟨-, rfl⟩ := Prod.mk.inj (Except.ok.inj h)
  exact ⟨ensure_eq_ok.mp hensure, ⟨type, columnType_eq_ok.mp htype⟩, rfl⟩

/-- A row is inserted with the next number. -/
theorem insert_eq_ok {fields : List (String × String)} {id : RowId}
    (h : insert t tb fields = .ok (id, tb')) :
    tb.columns.isEmpty = false ∧ fields.isEmpty = false ∧ (tb.last : Int) < Text.maxInt64 ∧
      id = tb.last + 1 ∧ ∃ checked, Engine.checkFields t tb.columns fields = .ok checked ∧
        tb' = tb.append checked := by
  obtain ⟨_, hensure, h⟩ := bind_eq_ok.mp h
  dsimp only at h
  split at h
  · cases h
  · next hfields =>
      obtain ⟨checked, hchecked, h⟩ := bind_eq_ok.mp h
      split at h
      · next hlast =>
          obtain ⟨rfl, rfl⟩ := Prod.mk.inj (Except.ok.inj h)
          exact ⟨ensure_eq_ok.mp hensure, Bool.eq_false_iff.mpr hfields, hlast, rfl, checked,
            hchecked, rfl⟩
      · cases h

/-- All rows of a query are given the fields, once these have been checked. -/
theorem update_eq_ok {limit n : Nat} {w : Option WhereClause} {fields : List (String × String)}
    (h : update limit t tb w fields = .ok (n, tb')) :
    tb.columns.isEmpty = false ∧ fields.isEmpty = false ∧ ∃ checked ids,
      Engine.checkFields t tb.columns fields = .ok checked ∧ rows limit t tb w = .ok ids ∧
        n = ids.length ∧ tb' = tb.assign ids checked := by
  obtain ⟨_, hensure, h⟩ := bind_eq_ok.mp h
  dsimp only at h
  split at h
  · cases h
  · next hfields =>
      obtain ⟨checked, hchecked, h⟩ := bind_eq_ok.mp h
      obtain ⟨ids, hids, h⟩ := bind_eq_ok.mp h
      obtain ⟨rfl, rfl⟩ := Prod.mk.inj (Except.ok.inj h)
      exact ⟨ensure_eq_ok.mp hensure, Bool.eq_false_iff.mpr hfields, checked, ids, hchecked, hids,
        rfl, rfl⟩

/-- A query finds rows of a table that is there. -/
theorem there_of_rows {limit : Nat} {w : Option WhereClause} {ids : List RowId}
    (h : rows limit t tb w = .ok ids) : tb.columns.isEmpty = false := by
  obtain ⟨_, hplan, -⟩ := bind_eq_ok.mp h
  obtain ⟨_, hensure, -⟩ := bind_eq_ok.mp hplan
  exact ensure_eq_ok.mp hensure

theorem delete_eq_ok {limit n : Nat} {w : Option WhereClause}
    (h : delete limit t tb w = .ok (n, tb')) :
    ∃ ids, rows limit t tb w = .ok ids ∧ n = ids.length ∧ tb' = tb.delete ids := by
  obtain ⟨ids, hids, h⟩ := bind_eq_ok.mp h
  obtain ⟨rfl, rfl⟩ := Prod.mk.inj (Except.ok.inj h)
  exact ⟨ids, hids, rfl, rfl⟩

/-- What a command that succeeds makes of a table, and what has let it succeed. The commands that are
on no table make nothing of it. -/
inductive Makes (config : Config) (known : Bool) (t : TableName) (tb : Table) :
    Command → Reply → Table → Prop
  | viewSchema (t' : TableName) (reply : Reply) (hthere : tb.columns.isEmpty = false) :
      Makes config known t tb (.viewSchema t') reply tb
  | createTable (t' : TableName) {columns : List Column} (hcheck : t.check = .ok ())
      (hknown : known = true) (hnew : tb.columns.isEmpty = true)
      (hcolumns : columns.isEmpty = false) :
      Makes config known t tb (.createTable t' columns) .ok (.create columns)
  | addColumn (t' : TableName) {column : Column} (hthere : tb.columns.isEmpty = false)
      (hnew : column.name ∉ tb.columns) :
      Makes config known t tb (.addColumn t' column) .ok (tb.define column)
  | addIndex (t' : TableName) {column : String} {type : ColumnType}
      (hthere : tb.columns.isEmpty = false) (htype : tb.columns.get? column = some type) :
      Makes config known t tb (.addIndex t' column) .ok (tb.addIndex column)
  | dropIndex (t' : TableName) {column : String} {type : ColumnType}
      (hthere : tb.columns.isEmpty = false) (htype : tb.columns.get? column = some type) :
      Makes config known t tb (.dropIndex t' column) .ok (tb.dropIndex column)
  | insert (t' : TableName) {fields : List (String × String)} {checked : OrderedMap String String}
      (hthere : tb.columns.isEmpty = false) (hfields : fields.isEmpty = false)
      (hlast : (tb.last : Int) < Text.maxInt64)
      (hchecked : Engine.checkFields t tb.columns fields = .ok checked) :
      Makes config known t tb (.insert t' fields) (.bulk (toString (tb.last + 1)))
        (tb.append checked)
  | select (t' : TableName) (w : Option WhereClause) (reply : Reply)
      (hthere : tb.columns.isEmpty = false) : Makes config known t tb (.select t' w) reply tb
  | update (t' : TableName) {w : Option WhereClause} {fields : List (String × String)}
      {checked : OrderedMap String String} {ids : List RowId}
      (hthere : tb.columns.isEmpty = false)
      (hchecked : Engine.checkFields t tb.columns fields = .ok checked)
      (hids : rows config.maxRowsScan t tb w = .ok ids) :
      Makes config known t tb (.update t' w fields) (.integer ids.length) (tb.assign ids checked)
  | delete (t' : TableName) {w : Option WhereClause} {ids : List RowId}
      (hthere : tb.columns.isEmpty = false)
      (hids : rows config.maxRowsScan t tb w = .ok ids) :
      Makes config known t tb (.delete t' w) (.integer ids.length) (tb.delete ids)
  | dropTable (t' : TableName) (hthere : tb.columns.isEmpty = false) :
      Makes config known t tb (.dropTable t') .ok ∅
  | createNamespace (ns : String) (reply : Reply) :
      Makes config known t tb (.createNamespace ns) reply tb
  | listTables (ns : Option String) (reply : Reply) :
      Makes config known t tb (.listTables ns) reply tb
  | help (reply : Reply) : Makes config known t tb .help reply tb

section
variable {config : Config} {known : Bool} {c : Command} {reply : Reply}

/-- A command that succeeds has changed the table, and its reply says what came of that. -/
theorem exists_of_change {α : Type} {change : Except Error (α × Table)} {answer : α → Reply}
    {finish : α × Table → Except Error (Reply × Table)} (h : change >>= finish = .ok (reply, tb'))
    (hfinish : ∀ a tb, finish (a, tb) = .ok (answer a, tb)) :
    ∃ a, change = .ok (a, tb') ∧ answer a = reply := by
  obtain ⟨⟨a, tb₁⟩, hchange, h⟩ := bind_eq_ok.mp h
  rw [hfinish] at h
  obtain ⟨hreply, rfl⟩ := Prod.mk.inj (Except.ok.inj h)
  exact ⟨a, hchange, hreply⟩

theorem makes_of_run (h : run config known t tb c = .ok (reply, tb')) :
    Makes config known t tb c reply tb' := by
  cases c with
  | viewSchema t' =>
      obtain ⟨_, hschema, h⟩ := bind_eq_ok.mp h
      obtain ⟨_, hensure, -⟩ := bind_eq_ok.mp hschema
      obtain ⟨-, rfl⟩ := Prod.mk.inj (Except.ok.inj h)
      exact .viewSchema t' reply (ensure_eq_ok.mp hensure)
  | createTable t' columns =>
      obtain ⟨_, hout, rfl⟩ := exists_of_change h fun _ _ => rfl
      obtain ⟨hcheck, hknown, hnew, hcolumns, rfl⟩ := createTable_eq_ok.mp hout
      exact .createTable t' hcheck hknown hnew hcolumns
  | addColumn t' column =>
      obtain ⟨_, hout, rfl⟩ := exists_of_change h fun _ _ => rfl
      obtain ⟨hthere, hnew, rfl⟩ := addColumn_eq_ok.mp hout
      exact .addColumn t' hthere hnew
  | addIndex t' column =>
      obtain ⟨_, hout, rfl⟩ := exists_of_change h fun _ _ => rfl
      obtain ⟨hthere, ⟨_, htype⟩, rfl⟩ := addIndex_eq_ok hout
      exact .addIndex t' hthere htype
  | dropIndex t' column =>
      obtain ⟨_, hout, rfl⟩ := exists_of_change h fun _ _ => rfl
      obtain ⟨hthere, ⟨_, htype⟩, rfl⟩ := dropIndex_eq_ok hout
      exact .dropIndex t' hthere htype
  | insert t' fields =>
      obtain ⟨_, hout, rfl⟩ := exists_of_change h fun _ _ => rfl
      obtain ⟨hthere, hfields, hlast, rfl, checked, hchecked, rfl⟩ := insert_eq_ok hout
      exact .insert t' hthere hfields hlast hchecked
  | select t' w =>
      obtain ⟨_, hrows, h⟩ := bind_eq_ok.mp h
      obtain ⟨_, hids, -⟩ := bind_eq_ok.mp hrows
      obtain ⟨-, rfl⟩ := Prod.mk.inj (Except.ok.inj h)
      exact .select t' w reply (there_of_rows hids)
  | update t' w fields =>
      obtain ⟨_, hout, rfl⟩ := exists_of_change h fun _ _ => rfl
      obtain ⟨hthere, -, checked, ids, hchecked, hids, rfl, rfl⟩ := update_eq_ok hout
      exact .update t' hthere hchecked hids
  | delete t' w =>
      obtain ⟨_, hout, rfl⟩ := exists_of_change h fun _ _ => rfl
      obtain ⟨ids, hids, rfl, rfl⟩ := delete_eq_ok hout
      exact .delete t' (there_of_rows hids) hids
  | dropTable t' =>
      obtain ⟨_, hout, rfl⟩ := exists_of_change h fun _ _ => rfl
      obtain ⟨_, hensure, hout⟩ := bind_eq_ok.mp hout
      obtain ⟨-, rfl⟩ := Prod.mk.inj (Except.ok.inj hout)
      exact .dropTable t' (ensure_eq_ok.mp hensure)
  | createNamespace ns =>
      obtain ⟨-, rfl⟩ := Prod.mk.inj (Except.ok.inj h)
      exact .createNamespace ns reply
  | listTables ns =>
      obtain ⟨-, rfl⟩ := Prod.mk.inj (Except.ok.inj h)
      exact .listTables ns reply
  | help =>
      obtain ⟨-, rfl⟩ := Prod.mk.inj (Except.ok.inj h)
      exact .help reply

/-- Whatever a command makes of a valid table is valid. -/
theorem Makes.valid (h : Makes config known t tb c reply tb') (hv : tb.Valid)
    (hcolumns : ∀ {column}, column ∈ c.newColumns → ':' ∉ column.name.toList) : tb'.Valid := by
  cases h with
  | viewSchema | select | createNamespace | listTables | help => exact hv
  | createTable => exact Table.Valid.create fun _ => hcolumns
  | addColumn _ _ hnew =>
      exact hv.define (hcolumns (List.mem_singleton.mpr rfl)) (hv.cell_eq_none hnew)
  | addIndex _ _ htype => exact hv.addIndex (OrderedMap.mem_of_get? htype)
  | dropIndex => exact hv.dropIndex _
  | insert _ _ hfields hlast hchecked =>
      exact hv.append hlast (Engine.isEmpty_checkFields hchecked hfields)
        (Engine.checkFields_admits hchecked)
  | update _ _ hchecked _ => exact hv.assign _ (Engine.checkFields_admits hchecked)
  | delete => exact hv.delete _
  | dropTable => exact Table.Valid.empty

/-- A command on a table drops it, keeps it, or creates it in a namespace that is there. -/
theorem of_run (hv : tb.Valid) (hc : c.Proper) (ht : c.table? = some t)
    (h : run config known t tb c = .ok (reply, tb')) :
    (c = .dropTable t ∧ tb' = ∅) ∨ Keeps tb tb' ∨
      tb'.Valid ∧ tb'.columns.isEmpty = false ∧ t.check = .ok () ∧ known = true := by
  have hmakes := makes_of_run h
  have hvalid := hmakes.valid hv hc.columns
  cases hmakes with
  | createNamespace | listTables | help => cases ht
  | viewSchema _ _ hthere | select _ _ _ hthere => exact Or.inr (Or.inl ⟨hthere, hvalid, hthere⟩)
  | createTable _ hcheck hknown _ hcolumns =>
      exact Or.inr (Or.inr ⟨hvalid, columns_create hcolumns, hcheck, hknown⟩)
  | addColumn _ hthere _ =>
      exact Or.inr (Or.inl ⟨hthere, hvalid, OrderedMap.isEmpty_insert ..⟩)
  | addIndex _ hthere _ | dropIndex _ hthere _ | insert _ hthere _ _ _ | update _ hthere _ _
  | delete _ hthere _ => exact Or.inr (Or.inl ⟨hthere, hvalid, hthere⟩)
  | dropTable => exact Or.inl ⟨congrArg Command.dropTable (Option.some.inj ht), rfl⟩

end

end Reference

namespace Database

/-- A command on one table, with the reply. -/
def onTable (db : Database) (t : TableName) (r : Except Error (Reply × Table)) :
    Except Error (Reply × Database) := r.map fun out => (out.1, db.set t out.2)

/-- The database with one more namespace. -/
def addNamespace (db : Database) (ns : String) : Database :=
  { db with namespaces := OrderedSet.add db.namespaces ns }

def createNamespace (db : Database) (ns : String) : Except Error (Unit × Database) := do
  Catalog.checkNamespace ns
  if ns ∈ db.namespaces then throw (.namespaceExists ns)
  return ((), db.addNamespace ns)

/-- A command: its reply and the database after it. -/
def run (config : Config) (db : Database) (c : Command) : Except Error (Reply × Database) :=
  match c.table? with
  | some t => db.onTable t (Reference.run config (t.ns ∈ db.namespaces) t (db.table t) c)
  | none =>
      match c with
      | .createNamespace ns => do return (.ok, (← db.createNamespace ns).2)
      | .listTables ns =>
          return (.strings ((db.listing ns).map fun t => t.ns ++ ":" ++ t.table), db)
      | _ => return (.strings helpLines, db)

/-- The command of a line. -/
def runLine (config : Config) (db : Database) (line : String) : Except Error (Reply × Database) := do
  db.run config (← Command.parse line)

variable {db : Database} {t : TableName} {ns : String}

theorem dot_notMem_of_checkNamespace {u : Unit} (h : Catalog.checkNamespace ns = .ok u) :
    '.' ∉ ns.toList := (Catalog.checkNamespace_eq_ok_iff.mp h).2.1

theorem layout_addNamespace (db : Database) (ns : String) :
    db.layout.put (.marker ns) (some (.text "1")) = (db.addNamespace ns).layout := by
  funext k
  cases k with
  | marker ns' =>
      by_cases hns : ns' = ns
      · subst hns
        have hmem : ns' ∈ (db.addNamespace ns').namespaces :=
          OrderedSet.mem_add.mpr (Or.inl rfl)
        rw [Layout.put_self]
        exact (if_pos hmem).symm
      · have hmem : ns' ∈ (db.addNamespace ns).namespaces ↔ ns' ∈ db.namespaces :=
          OrderedSet.mem_add.trans (or_iff_right hns)
        rw [Layout.put_ne _ _ (fun heq => hns (Key.marker.inj heq))]
        show (if _ then _ else _) = if _ then _ else _
        simp only [hmem]
  | schema t => exact Layout.put_ne _ _ (by simp)
  | indexed t => exact Layout.put_ne _ _ (by simp)
  | counter t => exact Layout.put_ne _ _ (by simp)
  | rows t => exact Layout.put_ne _ _ (by simp)
  | row t id => exact Layout.put_ne _ _ (by simp)
  | index t column value => exact Layout.put_ne _ _ (by simp)

theorem Valid.addNamespace (h : db.Valid) (hns : Catalog.checkNamespace ns = .ok ()) :
    (db.addNamespace ns).Valid where
  namespace_name hmem := by
    rcases OrderedSet.mem_add.mp hmem with rfl | hmem
    · exact hns
    · exact h.namespace_name hmem
  table_name := h.table_name
  table_namespace ht := OrderedSet.mem_add.mpr (Or.inr (h.table_namespace ht))
  table_columns := h.table_columns
  table_valid := h.table_valid

end Database

namespace StoreM

variable {db : Database} {t : TableName} {config : Config} {orders : Orders}

/-- A program does to the keys of a database what a function does to the database, which stays
valid. If the function fails, the program fails with the same error and changes nothing. -/
inductive Performs {α : Type} (p : StoreM α) (db : Database) :
    Except Error (α × Database) → Prop
  | done {a : α} {db' : Database} (h : Runs p db.layout (.ok a) db'.layout) (hdb : db'.Valid) :
      Performs p db (.ok (a, db'))
  | failed {e : Error} (h : Runs p db.layout (.error e) db.layout) : Performs p db (.error e)

namespace Performs

variable {α β : Type} {x : StoreM α} {f : α → StoreM β}

theorem look {a : α} {r : Except Error (β × Database)} (hf : Performs (f a) db r)
    (hx : Runs x db.layout (.ok a) db.layout) : Performs (x >>= f) db r := by
  cases hf with
  | done h hdb => exact .done (hx.bind h) hdb
  | failed h => exact .failed (hx.bind h)

theorem exec_error {e : Error} {s : Store} (h : Performs x db (.error e)) (hs : s.Holds db.layout) :
    x.exec ⟨s, none⟩ = (.error e, ⟨s, none⟩) := by
  cases h with
  | failed h => exact h.exec_eq hs

theorem exec_ok {a : α} {db' : Database} {s : Store} (h : Performs x db (.ok (a, db')))
    (hs : s.Holds db.layout) :
    db'.Valid ∧ ∃ s' : Store, x.exec ⟨s, none⟩ = (.ok a, ⟨s', none⟩) ∧ s'.Holds db'.layout := by
  cases h with
  | done h hdb => exact ⟨hdb, h s hs⟩

theorem map {r : Except Error (α × Database)} (h : Performs x db r) (g : α → β) :
    Performs (x >>= fun a => pure (g a)) db (r >>= fun out => pure (g out.1, out.2)) := by
  cases h with
  | done h hdb => exact .done (h.bind (Runs.ret (g _))) hdb
  | failed h => exact .failed (Runs.bind_error h)

end Performs

/-- Commands on rows do what the reference says, also where something is left under columns without
an index. -/
theorem refines_run_of_changesRows {left : Leftovers} {l : Layout} {tb : Table} {c : Command}
    (hn : t.Names tb) (hv : tb.Valid) (hc : c.ChangesRows t) (known : Bool) :
    Refines (c.runBy orders config) t left l tb (Reference.run config known t tb c) := by
  rcases hc with ⟨fields, rfl⟩ | ⟨w, fields, rfl⟩ | ⟨w, rfl⟩
  · exact (refines_insert hn hv fields).map fun id => Reply.bulk (toString id)
  · exact (refines_update hn hv _ w fields).map fun count : Nat => Reply.integer count
  · exact (refines_delete hn hv _ w).map fun count : Nat => Reply.integer count

theorem refines_run {l : Layout} {tb : Table} {known : Bool} {c : Command} (hn : t.Names tb)
    (hv : tb.Valid) (htb : tb.columns.isEmpty = true → tb = ∅)
    (hmarker : l (.marker t.ns) = if known then some (.text "1") else none)
    (ht : c.table? = some t) :
    Refines (c.runBy orders config) t (fun _ => ∅) l tb (Reference.run config known t tb c) := by
  cases c with
  | createNamespace ns => cases ht
  | listTables ns => cases ht
  | help => cases ht
  | viewSchema _ =>
      obtain rfl := Option.some.inj ht
      exact Refines.check (runs_describe hn) fun schema _ => .done (Runs.ret _)
  | createTable _ columns =>
      obtain rfl := Option.some.inj ht
      exact (refines_createTable hn.proper htb hmarker columns).map fun _ => Reply.ok
  | addColumn _ column =>
      obtain rfl := Option.some.inj ht
      exact (refines_addColumn hn hv column).map fun _ => Reply.ok
  | addIndex _ column =>
      obtain rfl := Option.some.inj ht
      exact (refines_addIndex hn hv _ column).map fun _ => Reply.ok
  | dropIndex _ column =>
      obtain rfl := Option.some.inj ht
      exact (refines_dropIndex hn hv column config.scanPageSize).map fun _ => Reply.ok
  | insert _ fields =>
      obtain rfl := Option.some.inj ht
      exact refines_run_of_changesRows hn hv (Or.inl ⟨fields, rfl⟩) known
  | select _ w =>
      obtain rfl := Option.some.inj ht
      exact Refines.check (runs_select hn hv _ w) fun rows _ => .done (Runs.ret _)
  | update _ w fields =>
      obtain rfl := Option.some.inj ht
      exact refines_run_of_changesRows hn hv (Or.inr (Or.inl ⟨w, fields, rfl⟩)) known
  | delete _ w =>
      obtain rfl := Option.some.inj ht
      exact refines_run_of_changesRows hn hv (Or.inr (Or.inr ⟨w, rfl⟩)) known
  | dropTable _ =>
      obtain rfl := Option.some.inj ht
      exact (refines_dropTable hn config.scanPageSize).map fun _ => Reply.ok

theorem performs_createNamespace (hdb : db.Valid) (ns : String) :
    Performs (Catalog.createNamespace ns) db (db.createNamespace ns) := by
  unfold Catalog.createNamespace Database.createNamespace
  cases hcheck : Catalog.checkNamespace ns with
  | error e => exact .failed (Runs.bind_error (Runs.of_except (.error e)))
  | ok _ =>
      have hk : (Key.marker ns).Proper := Database.dot_notMem_of_checkNamespace hcheck
      have htype : Runs (keyType (Key.marker ns).text) db.layout
          (.ok (if ns ∈ db.namespaces then .text else .absent)) db.layout := by
        apply runs_keyType hk
        intro s hs
        rw [Store.keyType, hs, db.layout_marker]
        by_cases hns : ns ∈ db.namespaces <;> simp [hns]
      by_cases hns : ns ∈ db.namespaces
      · rw [if_pos hns] at htype
        refine (if_pos hns : _ = _) ▸ .failed ?_
        exact (Runs.of_except (.ok ())).bind (htype.bind (Runs.bind_error (Runs.throw _)))
      · rw [if_neg hns] at htype
        refine (if_neg hns : _ = _) ▸ .done ?_ (hdb.addNamespace hcheck)
        rw [← Database.layout_addNamespace]
        exact (Runs.of_except (.ok ())).bind (htype.bind (runs_set hk "1"))

/-- What a program does to the keys of one table is what it does to the database. -/
theorem Performs.of_refines {p : StoreM Reply} {r : Except Error (Reply × Table)}
    (h : Refines p t (fun _ => ∅) db.layout (db.table t) r)
    (hset : ∀ reply tb, r = .ok (reply, tb) →
      (tb.columns.isEmpty = true → tb = ∅) ∧ (db.set t tb).Valid) :
    Performs p db (db.onTable t r) := by
  have hlayout := db.layout_on t
  cases h with
  | failed h =>
      rw [Table.imageOver_empty, ← hlayout] at h
      exact .failed h
  | done h =>
      obtain ⟨hempty, hvalid⟩ := hset _ _ rfl
      rw [Table.imageOver_empty, Table.imageOver_empty, ← hlayout, Database.on_layout hempty] at h
      exact .done h hvalid

/-- Every command does what the reference says, in whatever order it goes through sets. -/
theorem performs_run (orders : Orders) (config : Config) (hdb : db.Valid) {c : Command}
    (hc : c.Proper) : Performs (c.runBy orders config) db (db.run config c) := by
  unfold Database.run
  cases ht : c.table? with
  | some t =>
      have hproper := hc.table ht
      have hn : t.Names (db.table t) := ⟨hproper, fun h => hdb.tagged (hdb.mem_tables_iff.mpr h)⟩
      have hmarker : db.layout (.marker t.ns) =
          if decide (t.ns ∈ db.namespaces) then some (.text "1") else none := by
        simp [Database.layout_marker]
      refine .of_refines
        (refines_run hn (hdb.table_valid t) hdb.table_empty hmarker ht) fun reply tb hr => ?_
      rcases Reference.of_run (hdb.table_valid t) hc ht hr with ⟨-, rfl⟩ | hkeeps | hcreated
      · exact ⟨fun _ => rfl, hdb.set Table.Valid.empty (fun _ => rfl) Bool.noConfusion⟩
      · have hmem := hdb.mem_tables_iff.mpr hkeeps.there
        have hempty : tb.columns.isEmpty = true → tb = ∅ := by
          rw [hkeeps.still]
          exact Bool.noConfusion
        obtain ⟨hname, hcheck⟩ := hdb.table_name hmem
        exact ⟨hempty, hdb.set hkeeps.valid hempty fun _ =>
          ⟨hname, hcheck, hdb.table_namespace hmem⟩⟩
      · obtain ⟨hvalid, hcolumns, hcheck, hknown⟩ := hcreated
        have hempty : tb.columns.isEmpty = true → tb = ∅ := by
          rw [hcolumns]
          exact Bool.noConfusion
        exact ⟨hempty, hdb.set hvalid hempty fun _ => ⟨hproper, hcheck, of_decide_eq_true hknown⟩⟩
  | none =>
      cases c with
      | createNamespace ns => exact (performs_createNamespace hdb ns).map fun _ => Reply.ok
      | listTables ns =>
          exact .done ((runs_listTables hdb ns config.scanPageSize).bind (Runs.ret _)) hdb
      | help => exact .done (Runs.ret _) hdb
      | viewSchema t | createTable t _ | addColumn t _ | addIndex t _ | dropIndex t _ | insert t _
      | select t _ | update t _ _ | delete t _ | dropTable t => cases ht

/-- Every line does what the reference says, whatever is written in it. -/
theorem performs_runLine (orders : Orders) (config : Config) (hdb : db.Valid) (line : String) :
    Performs (Command.runLineBy orders config line) db (db.runLine config line) := by
  unfold Command.runLineBy Database.runLine
  cases hparse : Command.parse line with
  | error e => exact .failed (Runs.bind_error (Runs.of_except (.error e)))
  | ok c =>
      have hc := Command.proper_of_parse hparse
      exact (performs_run orders config hdb hc).look (Runs.of_except (.ok c))

end StoreM

end Tabular
