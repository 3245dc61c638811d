import Tabular.Proofs.Reachable

/-!
Tables are apart from each other. A line about one table reads that table and whether its namespace
is there, and changes that table only (`exists_effect`). So lines about different tables can change
places (`Reachable.lines_commute`), and a table that is created and dropped again leaves nothing
behind, whatever lines about it come in between (`Reachable.life_undone`).
-/

namespace Tabular

/-- Whatever command a line is, it is one on the table. -/
def Command.Concerns (t : TableName) (line : String) : Prop :=
  ∀ c, Command.parse line = .ok c → c.table? = some t

theorem Command.concerns_of_parse {t : TableName} {line : String} {c : Command}
    (hparse : Command.parse line = .ok c) (ht : c.table? = some t) : Concerns t line := by
  intro c' hc'
  rw [hparse] at hc'
  obtain rfl := Except.ok.inj hc'
  exact ht

namespace Database

variable {db db' : Database} {t t' : TableName} {tb : Table} {config config' : Config}
variable {line line' : String}

/-! ### Changes of one table -/

theorem get?_set (db : Database) (t : TableName) (tb : Table) (t' : TableName) :
    (db.set t tb).tables.get? t' =
      if t' = t then if tb.columns.isEmpty then none else some tb else db.tables.get? t' := by
  unfold set
  cases tb.columns.isEmpty <;> simp

theorem ext_tables (hns : db.namespaces = db'.namespaces)
    (htables : ∀ t, db.tables.get? t = db'.tables.get? t) : db = db' := by
  cases db
  cases db'
  rw [Database.mk.injEq]
  exact ⟨hns, OrderedMap.ext htables⟩

theorem table_set_of_ne (h : t' ≠ t) (tb : Table) : (db.set t tb).table t' = db.table t' := by
  rw [table, get?_set, if_neg h]
  rfl

theorem set_comm (h : t ≠ t') (tb tb' : Table) :
    (db.set t tb).set t' tb' = (db.set t' tb').set t tb := by
  refine ext_tables rfl fun x => ?_
  simp only [get?_set]
  by_cases hx : x = t
  · rw [if_pos hx, if_pos hx, if_neg (hx ▸ h)]
  · rw [if_neg hx, if_neg hx]

theorem set_set (db : Database) (t : TableName) (tb tb' : Table) :
    (db.set t tb).set t tb' = db.set t tb' := by
  refine ext_tables rfl fun x => ?_
  simp only [get?_set]
  by_cases hx : x = t
  · rw [if_pos hx, if_pos hx]
  · rw [if_neg hx, if_neg hx, if_neg hx]

/-- To drop a table that is not there changes nothing. -/
theorem set_empty (h : t ∉ db.tables) : db.set t ∅ = db := by
  refine ext_tables rfl fun x => ?_
  rw [get?_set]
  by_cases hx : x = t
  · rw [if_pos hx, hx, OrderedMap.get?_eq_none_iff.mpr h]
    rfl
  · rw [if_neg hx]

/-- The database after a command on a table, which leaves the table as it is if it fails. -/
def commit (db : Database) (t : TableName) (r : Except Error (Reply × Table)) : Database :=
  match r with
  | .ok out => db.set t out.2
  | .error _ => db

theorem namespaces_commit (r : Except Error (Reply × Table)) :
    (db.commit t r).namespaces = db.namespaces := by
  cases r <;> rfl

theorem table_commit_of_ne (h : t' ≠ t) (r : Except Error (Reply × Table)) :
    (db.commit t r).table t' = db.table t' := by
  cases r with
  | error e => rfl
  | ok out => exact table_set_of_ne h out.2

theorem commit_comm (h : t ≠ t') (r r' : Except Error (Reply × Table)) :
    (db.commit t r).commit t' r' = (db.commit t' r').commit t r := by
  cases r with
  | error e => rfl
  | ok out =>
      cases r' with
      | error e' => rfl
      | ok out' => exact set_comm h out.2 out'.2

/-! ### Lines about one table -/

theorem after_of_onTable {r : Except Error (Reply × Table)}
    (h : db.runLine config line = db.onTable t r) : db.after config line = db.commit t r := by
  rw [after, h]
  cases r <;> rfl

theorem reply_of_onTable {r : Except Error (Reply × Table)}
    (h : db.runLine config line = db.onTable t r) : db.reply config line = r.map (·.1) := by
  rw [reply, h]
  cases r <;> rfl

theorem runLine_of_parse {c : Command} (hparse : Command.parse line = .ok c)
    (ht : c.table? = some t) (config : Config) (db : Database) :
    db.runLine config line =
      db.onTable t (Reference.run config (t.ns ∈ db.namespaces) t (db.table t) c) := by
  rw [runLine, hparse]
  show db.run config c = _
  unfold run
  rw [ht]

/-- What a line makes of a table depends on the table and on whether its namespace is there. -/
theorem exists_effect (hline : Command.Concerns t line) (config : Config) :
    ∃ effect : Bool → Table → Except Error (Reply × Table), ∀ db : Database,
      db.runLine config line = db.onTable t (effect (t.ns ∈ db.namespaces) (db.table t)) := by
  cases hparse : Command.parse line with
  | error e =>
      refine ⟨fun _ _ => .error e, fun db => ?_⟩
      rw [runLine, hparse]
      rfl
  | ok c =>
      exact ⟨fun known tb => Reference.run config known t tb c,
        runLine_of_parse hparse (hline c hparse) config⟩

/-- A line about a table that does not drop it fails, or leaves a table that is there. -/
theorem Valid.after_of_concerns (hdb : db.Valid) (hline : Command.Concerns t line)
    (hdrop : Command.parse line ≠ .ok (.dropTable t)) (config : Config) :
    (∃ e, db.reply config line = .error e ∧ db.after config line = db) ∨
      ∃ tb : Table, tb.columns.isEmpty = false ∧ db.after config line = db.set t tb := by
  cases hparse : Command.parse line with
  | error e =>
      have hrun : db.runLine config line = .error e := by
        rw [runLine, hparse]
        rfl
      refine Or.inl ⟨e, ?_, ?_⟩
      · rw [reply, hrun]
        rfl
      · rw [after, hrun]
  | ok c =>
      have ht := hline c hparse
      have hc : c ≠ .dropTable t := fun heq => hdrop (heq ▸ hparse)
      have hrun := runLine_of_parse hparse ht config db
      rw [reply_of_onTable hrun, after_of_onTable hrun]
      cases hresult : Reference.run config (t.ns ∈ db.namespaces) t (db.table t) c with
      | error e => exact Or.inl ⟨e, rfl, rfl⟩
      | ok out =>
          refine Or.inr ⟨out.2, ?_, rfl⟩
          have hproper := Command.proper_of_parse hparse
          rcases Reference.of_run (hdb.table_valid t) hproper ht hresult with
            ⟨heq, -⟩ | hkeeps | hcreated
          · exact (hc heq).elim
          · exact hkeeps.still
          · exact hcreated.2.1

/-- A table that has been created was not there. -/
theorem Valid.notMem_of_create (hdb : db.Valid) {columns : List Column} {r : Reply}
    (hparse : Command.parse line = .ok (.createTable t columns))
    (hok : db.reply config line = .ok r) : t ∉ db.tables := by
  have hrun := runLine_of_parse hparse rfl config db
  rw [reply_of_onTable hrun] at hok
  intro ht
  have hthere : (db.table t).columns.isEmpty = false := hdb.mem_tables_iff.mp ht
  have hcreate : ∃ e, Reference.createTable (t.ns ∈ db.namespaces) t (db.table t) columns =
      .error e := by
    unfold Reference.createTable
    cases t.check with
    | error e => exact ⟨e, rfl⟩
    | ok _ =>
        rw [hthere]
        cases decide (t.ns ∈ db.namespaces) with
        | false => exact ⟨_, rfl⟩
        | true => exact ⟨_, rfl⟩
  obtain ⟨e, he⟩ := hcreate
  rw [Reference.run, he] at hok
  cases hok

/-- To drop a table that is there succeeds. -/
theorem runLine_drop (hparse : Command.parse line = .ok (.dropTable t))
    (hthere : (db.table t).columns.isEmpty = false) (config : Config) :
    db.runLine config line = .ok (.ok, db.set t ∅) := by
  rw [runLine_of_parse hparse rfl config db, Reference.run, Reference.dropTable, Reference.ensure,
    hthere]
  rfl

section
variable (hne : t ≠ t') (hline : Command.Concerns t line) (hline' : Command.Concerns t' line')
include hne hline hline'

/-- A line about another table gets the same reply as before. -/
theorem reply_after (db : Database) (config config' : Config) :
    (db.after config line).reply config' line' = db.reply config' line' := by
  obtain ⟨effect, heffect⟩ := exists_effect hline config
  obtain ⟨effect', heffect'⟩ := exists_effect hline' config'
  rw [after_of_onTable (heffect db), reply_of_onTable (heffect' db), reply_of_onTable (heffect' _),
    namespaces_commit, table_commit_of_ne hne.symm]

theorem after_comm (db : Database) (config config' : Config) :
    (db.after config line).after config' line' = (db.after config' line').after config line := by
  obtain ⟨effect, heffect⟩ := exists_effect hline config
  obtain ⟨effect', heffect'⟩ := exists_effect hline' config'
  have hafter (db : Database) := after_of_onTable (heffect db)
  have hafter' (db : Database) := after_of_onTable (heffect' db)
  calc (db.after config line).after config' line'
      = (db.commit t (effect (t.ns ∈ db.namespaces) (db.table t))).commit t'
          (effect' (t'.ns ∈ db.namespaces) (db.table t')) := by
        rw [hafter, hafter', namespaces_commit, table_commit_of_ne hne.symm]
    _ = (db.commit t' (effect' (t'.ns ∈ db.namespaces) (db.table t'))).commit t
          (effect (t.ns ∈ db.namespaces) (db.table t)) := commit_comm hne _ _
    _ = (db.after config' line').after config line := by
        rw [hafter', hafter, namespaces_commit, table_commit_of_ne hne]

end

end Database

namespace Store

variable {s : Store} {db : Database} {t t' : TableName}

/-- Lines about different tables can change places: each gets the same reply or the same error
before the other and after it, and both orders lead to the same store. -/
theorem Reachable.lines_commute (h : s.Reachable) (hne : t ≠ t') {line line' : String}
    (hline : Command.Concerns t line) (hline' : Command.Concerns t' line')
    (config config' : Config) :
    (s.after config' line').reply config line = s.reply config line ∧
      (s.after config line).reply config' line' = s.reply config' line' ∧
      (s.after config line).after config' line' = (s.after config' line').after config line := by
  obtain ⟨db, hdb, hs⟩ := h.exists_database
  obtain ⟨hreply, hdb₁, hs₁⟩ := hs.line hdb config line
  obtain ⟨hreply', hdb₂, hs₂⟩ := hs.line hdb config' line'
  obtain ⟨hsecond', -, hs₁₂⟩ := hs₁.line hdb₁ config' line'
  obtain ⟨hsecond, -, hs₂₁⟩ := hs₂.line hdb₂ config line
  refine ⟨?_, ?_, ?_⟩
  · rw [hsecond, hreply, Database.reply_after hne.symm hline' hline]
  · rw [hsecond', hreply', Database.reply_after hne hline hline']
  · rw [Database.after_comm hne hline hline'] at hs₁₂
    exact hs₁₂.unique hs₂₁

theorem sample_lines_commute :
    let t : TableName := ⟨"app", "users"⟩
    let t' : TableName := ⟨"app", "users2"⟩
    sample.Reachable ∧ t ≠ t' ∧ Command.Concerns t "DROP app.users FORCE" ∧
      Command.Concerns t' "SCHEMA.CREATE app.users2 name:string" ∧
      (sample.after {} "SCHEMA.CREATE app.users2 name:string").reply {} "DROP app.users FORCE" =
        sample.reply {} "DROP app.users FORCE" ∧
      (sample.after {} "DROP app.users FORCE").reply {} "SCHEMA.CREATE app.users2 name:string" =
        sample.reply {} "SCHEMA.CREATE app.users2 name:string" ∧
      (sample.after {} "DROP app.users FORCE").after {} "SCHEMA.CREATE app.users2 name:string" =
        (sample.after {} "SCHEMA.CREATE app.users2 name:string").after {}
          "DROP app.users FORCE" := by
  intro t t'
  have hdrop : Command.parse "DROP app.users FORCE" = .ok (.dropTable t) := by cbv
  have hcreate : Command.parse "SCHEMA.CREATE app.users2 name:string" =
      .ok (.createTable t' [⟨"name", .string, false⟩]) := by cbv
  have hne : t ≠ t' := by decide
  have hline := Command.concerns_of_parse hdrop rfl
  have hline' := Command.concerns_of_parse hcreate rfl
  exact ⟨sample_reachable, hne, hline, hline',
    sample_reachable.lines_commute hne hline hline' {} {}⟩

/-! ### The life of a table -/

/-- The store after some lines, each under its configuration. -/
def afterAll (lines : List (Config × String)) (s : Store) : Store :=
  lines.foldl (fun s l => s.after l.1 l.2) s

/-- The store holds a database, but with a table of this name that is there. -/
def HoldsBut (s : Store) (db : Database) (t : TableName) : Prop :=
  ∃ tb : Table, tb.columns.isEmpty = false ∧ (db.set t tb).Valid ∧ s.Holds (db.set t tb).layout

namespace HoldsBut

variable {config : Config} {line : String}

/-- A line about the table that does not drop it changes that table at most. -/
theorem after (h : s.HoldsBut db t) (hline : Command.Concerns t line)
    (hdrop : Command.parse line ≠ .ok (.dropTable t)) (config : Config) :
    (s.after config line).HoldsBut db t := by
  obtain ⟨tb, htb, hdb, hs⟩ := h
  obtain ⟨-, hdb', hs'⟩ := hs.line hdb config line
  rcases hdb.after_of_concerns hline hdrop config with ⟨e, -, heq⟩ | ⟨tb', htb', heq⟩
  · exact ⟨tb, htb, hdb, heq ▸ hs'⟩
  · rw [heq, Database.set_set] at hdb' hs'
    exact ⟨tb', htb', hdb', hs'⟩

theorem afterAll {lines : List (Config × String)} (h : s.HoldsBut db t)
    (hlines : ∀ l ∈ lines, Command.Concerns t l.2 ∧ Command.parse l.2 ≠ .ok (.dropTable t)) :
    (s.afterAll lines).HoldsBut db t := by
  induction lines generalizing s with
  | nil => exact h
  | cons l rest ih =>
      obtain ⟨⟨hline, hdrop⟩, hrest⟩ := List.forall_mem_cons.mp hlines
      exact ih (h.after hline hdrop l.1) hrest

/-- Dropping the table leaves the database without it. -/
theorem drop (h : s.HoldsBut db t) (hparse : Command.parse line = .ok (.dropTable t))
    (config : Config) :
    s.reply config line = .ok .ok ∧ (s.after config line).Holds (db.set t ∅).layout := by
  obtain ⟨tb, htb, hdb, hs⟩ := h
  obtain ⟨hreply, -, hs'⟩ := hs.line hdb config line
  have hthere : ((db.set t tb).table t).columns.isEmpty = false := by
    rw [Database.table_set (fun hempty => by rw [htb] at hempty; cases hempty), if_pos rfl, htb]
  have hrun := Database.runLine_drop hparse hthere config
  rw [Database.reply, hrun] at hreply
  rw [Database.after, hrun] at hs'
  rw [← Database.set_set db t tb ∅]
  exact ⟨hreply, hs'⟩

end HoldsBut

/-- Creating a table succeeds only if it is not there, and then nothing else changes. -/
theorem Holds.create (hs : s.Holds db.layout) (hdb : db.Valid) {config : Config} {line : String}
    {columns : List Column} {r : Reply} (hparse : Command.parse line = .ok (.createTable t columns))
    (hok : s.reply config line = .ok r) : t ∉ db.tables ∧ (s.after config line).HoldsBut db t := by
  obtain ⟨hreply, hdb', hs'⟩ := hs.line hdb config line
  rw [hreply] at hok
  refine ⟨hdb.notMem_of_create hparse hok, ?_⟩
  have hline := Command.concerns_of_parse (t := t) hparse rfl
  have hdrop : Command.parse line ≠ .ok (.dropTable t) := by
    rw [hparse]
    simp
  rcases hdb.after_of_concerns hline hdrop config with ⟨e, he, -⟩ | ⟨tb, htb, heq⟩
  · rw [hok] at he
    cases he
  · rw [heq] at hdb' hs'
    exact ⟨tb, htb, hdb', hs'⟩

/-- Dropping a table undoes its whole life. After a creation that succeeds and any lines about the
table, of which some may fail, the drop succeeds and the store is what it was before the
creation. -/
theorem Reachable.life_undone (h : s.Reachable) {create drop : String} {columns : List Column}
    {first last : Config} {r : Reply} {lines : List (Config × String)}
    (hcreate : Command.parse create = .ok (.createTable t columns))
    (hok : s.reply first create = .ok r)
    (hlines : ∀ l ∈ lines, Command.Concerns t l.2 ∧ Command.parse l.2 ≠ .ok (.dropTable t))
    (hdrop : Command.parse drop = .ok (.dropTable t)) :
    ((s.after first create).afterAll lines).reply last drop = .ok .ok ∧
      ((s.after first create).afterAll lines).after last drop = s := by
  obtain ⟨db, hdb, hs⟩ := h.exists_database
  obtain ⟨hnew, hcreated⟩ := hs.create hdb hcreate hok
  obtain ⟨hreply, hs'⟩ := (hcreated.afterAll hlines).drop hdrop last
  rw [Database.set_empty hnew] at hs'
  exact ⟨hreply, hs'.unique hs⟩

theorem sample_life_undone :
    let t : TableName := ⟨"app", "*"⟩
    let lines : List (Config × String) :=
      [({}, "INSERT app.* a=x"), ({}, "INSERT app.* a="), ({}, "SCHEMA.ALTER app.* ADD INDEX a")]
    sample.Reachable ∧
      Command.parse "SCHEMA.CREATE app.* a:string" = .ok (.createTable t [⟨"a", .string, false⟩]) ∧
      sample.reply {} "SCHEMA.CREATE app.* a:string" = .ok .ok ∧
      (∀ l ∈ lines, Command.Concerns t l.2 ∧ Command.parse l.2 ≠ .ok (.dropTable t)) ∧
      Command.parse "DROP app.* FORCE" = .ok (.dropTable t) ∧
      ((sample.after {} "SCHEMA.CREATE app.* a:string").afterAll lines).reply {}
        "DROP app.* FORCE" = .ok .ok ∧
      ((sample.after {} "SCHEMA.CREATE app.* a:string").afterAll lines).after {}
        "DROP app.* FORCE" = sample := by
  intro t lines
  have hcreate : Command.parse "SCHEMA.CREATE app.* a:string" =
      .ok (.createTable t [⟨"a", .string, false⟩]) := by cbv
  have hok : sample.reply {} "SCHEMA.CREATE app.* a:string" = .ok .ok := by cbv
  have hdrop : Command.parse "DROP app.* FORCE" = .ok (.dropTable t) := by cbv
  have hline {line : String} {c : Command} (hparse : Command.parse line = .ok c)
      (ht : c.table? = some t) (hc : c ≠ .dropTable t) :
      Command.Concerns t line ∧ Command.parse line ≠ .ok (.dropTable t) :=
    ⟨Command.concerns_of_parse hparse ht, fun h => hc (Except.ok.inj (hparse.symm.trans h))⟩
  have hinsert : Command.parse "INSERT app.* a=x" = .ok (.insert t [("a", "x")]) := by cbv
  have hrefused : Command.parse "INSERT app.* a=" = .error (.badSyntax .assignment) := by cbv
  have halter : Command.parse "SCHEMA.ALTER app.* ADD INDEX a" = .ok (.addIndex t "a") := by cbv
  have hlines : ∀ l ∈ lines, Command.Concerns t l.2 ∧ Command.parse l.2 ≠ .ok (.dropTable t) := by
    refine List.forall_mem_cons.mpr ⟨hline hinsert rfl (by simp), ?_⟩
    refine List.forall_mem_cons.mpr ⟨?_, ?_⟩
    · simp [Command.Concerns, hrefused]
    · exact List.forall_mem_cons.mpr ⟨hline halter rfl (by simp), List.forall_mem_nil _⟩
  exact ⟨sample_reachable, hcreate, hok, hlines, hdrop,
    sample_reachable.life_undone hcreate hok hlines hdrop⟩

end Store

end Tabular
