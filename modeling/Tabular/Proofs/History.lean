import Mathlib.Data.List.DropRight
import Tabular.Proofs.Separation

/-!
Runs of lines, and what they have done to a table since it was created. A run has a log of the
commands that succeed, and the `life` of a table is the end of the log after its last creation.
What a creation establishes and each later command keeps holds of every table at the end of every
run (`exists_database_of_life`). So the log accounts for the rows: they are numbered in the order of
the insertions, and there are as many of them as insertions less deletions (`account_of_life`).
-/

namespace Tabular

/-! ### Logs -/

/-- A command that has succeeded, its reply and the store that it left. -/
structure Event where
  command : Command
  reply : Reply
  store : Store

namespace Event

/-- It created the table. -/
def creates (t : TableName) (e : Event) : Bool :=
  match e.command with
  | .createTable t' _ => t' = t
  | _ => false

/-- The reply, if a row was inserted into the table. -/
def insertion? (t : TableName) (e : Event) : Option Reply :=
  match e.command with
  | .insert t' _ => if t' = t then some e.reply else none
  | _ => none

/-- The number that a deletion from the table replied; zero for all other commands. -/
def deleted (t : TableName) (e : Event) : Int :=
  match e.command, e.reply with
  | .delete t' _, .integer n => if t' = t then n else 0
  | _, _ => 0

end Event

/-- What has happened since the last creation of a table. -/
def life (t : TableName) (events : List Event) : List Event :=
  events.rtakeWhile fun e => !e.creates t

/-- The end of a log from the last creation of a table on. -/
def era (t : TableName) (events : List Event) : List Event :=
  (events.rdropWhile fun e => !e.creates t).getLast?.toList ++ life t events

/-- The replies to the insertions into a table. -/
def insertions (t : TableName) (events : List Event) : List Reply :=
  events.filterMap (Event.insertion? t)

/-- The sum of the replies to the deletions from a table. -/
def deletions (t : TableName) (events : List Event) : Int := (events.map (Event.deleted t)).sum

namespace Store

/-- The command of a line, if it succeeds. -/
def event? (s : Store) (config : Config) (line : String) : Option Event :=
  match Command.parse line, s.reply config line with
  | .ok c, .ok r => some ⟨c, r, s.after config line⟩
  | _, _ => none

/-- The commands that succeed when lines are carried out one after another. -/
def log (s : Store) : List (Config × String) → List Event
  | [] => []
  | l :: rest => (s.event? l.1 l.2).toList ++ (s.after l.1 l.2).log rest

variable {s : Store}

theorem afterAll_nil (s : Store) : s.afterAll [] = s := rfl

theorem afterAll_cons (s : Store) (config : Config) (line : String)
    (rest : List (Config × String)) :
    s.afterAll ((config, line) :: rest) = (s.after config line).afterAll rest := rfl

theorem afterAll_concat (lines : List (Config × String)) (l : Config × String) :
    s.afterAll (lines ++ [l]) = (s.afterAll lines).after l.1 l.2 := List.foldl_concat ..

/-- The stores that commands can reach are those after the lines of a session. -/
theorem reachable_iff_exists_lines : s.Reachable ↔ ∃ lines, (∅ : Store).afterAll lines = s := by
  constructor
  · intro h
    induction h with
    | empty => exact ⟨[], afterAll_nil ∅⟩
    | line _ config line ih =>
        obtain ⟨lines, rfl⟩ := ih
        exact ⟨lines ++ [(config, line)], afterAll_concat lines _⟩
  · rintro ⟨lines, rfl⟩
    induction lines using List.reverseRecOn with
    | nil => exact .empty
    | append_singleton lines l ih =>
        rw [afterAll_concat]
        exact ih.line l.1 l.2

theorem log_concat (lines : List (Config × String)) (l : Config × String) :
    s.log (lines ++ [l]) = s.log lines ++ ((s.afterAll lines).event? l.1 l.2).toList := by
  induction lines generalizing s with
  | nil =>
      show (s.event? l.1 l.2).toList ++ [] = _
      rw [List.append_nil]
      rfl
  | cons first rest ih =>
      rw [List.cons_append, log, log, ih, List.append_assoc]
      rfl

end Store

section
variable {t : TableName} {events : List Event} {e : Event}

theorem Event.creates_iff : e.creates t = true ↔ ∃ columns, e.command = .createTable t columns := by
  unfold creates
  cases e.command <;> simp

theorem Event.insertion?_insert (t : TableName) (fields : List (String × String)) (reply : Reply)
    (s : Store) : insertion? t ⟨.insert t fields, reply, s⟩ = some reply := if_pos rfl

theorem Event.deleted_delete (t : TableName) (w : Option WhereClause) (n : Int) (s : Store) :
    deleted t ⟨.delete t w, .integer n, s⟩ = n := if_pos rfl

theorem Event.insertion?_of_ne (h : e.command.table? ≠ some t) : e.insertion? t = none := by
  unfold insertion?
  split
  · next t' fields hc => exact if_neg fun heq => h (by rw [hc, ← heq]; rfl)
  · rfl

theorem Event.deleted_of_ne (h : e.command.table? ≠ some t) : e.deleted t = 0 := by
  unfold deleted
  split
  · next t' w n hc _ => exact if_neg fun heq => h (by rw [hc, ← heq]; rfl)
  · rfl

theorem life_concat_creates (h : e.creates t = true) : life t (events ++ [e]) = [] := by
  rw [life, List.rtakeWhile_concat_neg]
  rw [h]
  exact Bool.noConfusion

theorem life_concat (h : e.creates t = false) : life t (events ++ [e]) = life t events ++ [e] := by
  rw [life, List.rtakeWhile_concat_pos _ _ _ (by rw [h]; rfl)]
  rfl

theorem era_concat_creates (h : e.creates t = true) : era t (events ++ [e]) = [e] := by
  have hdrop : (events ++ [e]).rdropWhile (fun e => !e.creates t) = events ++ [e] := by
    apply List.rdropWhile_concat_neg
    rw [h]
    exact Bool.noConfusion
  rw [era, life_concat_creates h, List.append_nil, hdrop, List.getLast?_concat]
  rfl

theorem era_concat (h : e.creates t = false) : era t (events ++ [e]) = era t events ++ [e] := by
  have hdrop : (events ++ [e]).rdropWhile (fun e => !e.creates t) =
      events.rdropWhile fun e => !e.creates t :=
    List.rdropWhile_concat_pos _ _ _ (by rw [h]; rfl)
  rw [era, life_concat h, hdrop, ← List.append_assoc]
  rfl

theorem era_append {later : List Event} (h : ∀ e ∈ later, e.creates t = false) :
    era t (events ++ later) = era t events ++ later := by
  induction later using List.reverseRecOn with
  | nil => rw [List.append_nil, List.append_nil]
  | append_singleton later e ih =>
      rw [List.forall_mem_append, List.forall_mem_singleton] at h
      rw [← List.append_assoc, era_concat h.2, ih h.1, List.append_assoc]

theorem life_era (t : TableName) (events : List Event) : life t (era t events) = life t events := by
  induction events using List.reverseRecOn with
  | nil => rfl
  | append_singleton events e ih =>
      cases h : e.creates t with
      | true =>
          rw [era_concat_creates h, life_concat_creates h]
          show life t ([] ++ [e]) = []
          exact life_concat_creates h
      | false => rw [era_concat h, life_concat h, life_concat h, ih]

theorem insertions_concat :
    insertions t (events ++ [e]) = insertions t events ++ (e.insertion? t).toList := by
  rw [insertions, List.filterMap_append]
  cases h : e.insertion? t <;> simp [insertions, h]

theorem deletions_concat : deletions t (events ++ [e]) = deletions t events + e.deleted t := by
  simp [deletions]

end

/-! ### What commands do to a table -/

namespace Reference

variable {t : TableName} {tb tb' : Table}

/-- Nothing but a creation succeeds on a table that is not there. -/
theorem create_of_run {config : Config} {known : Bool} {c : Command} {reply : Reply}
    (hempty : tb.columns.isEmpty = true) (ht : c.table? = some t)
    (h : run config known t tb c = .ok (reply, tb')) :
    ∃ columns, c = .createTable t columns ∧ tb' = .create columns := by
  cases makes_of_run h with
  | createTable t' =>
      obtain rfl := Option.some.inj ht
      exact ⟨_, rfl, rfl⟩
  | createNamespace | listTables | help => cases ht
  | viewSchema _ _ hthere | select _ _ _ hthere | addColumn _ hthere _ | addIndex _ hthere _
  | dropIndex _ hthere _ | insert _ hthere _ _ _ | update _ hthere _ _ | delete _ hthere _
  | dropTable _ hthere =>
      rw [hempty] at hthere
      cases hthere

/-- A table that is there is not created. -/
theorem not_creates_of_run {config : Config} {known : Bool} {e : Event}
    (hthere : tb.columns.isEmpty = false)
    (h : run config known t tb e.command = .ok (e.reply, tb')) : e.creates t = false := by
  obtain ⟨c, reply, s⟩ := e
  cases c with
  | createTable t' columns =>
      cases makes_of_run h with
      | createTable _ _ _ hnew _ =>
          rw [hthere] at hnew
          cases hnew
  | _ => rfl

theorem rows_eq_ok {limit : Nat} {w : Option WhereClause} {ids : List RowId}
    (h : rows limit t tb w = .ok ids) : ids = (tb.meaning w).members := by
  obtain ⟨_, -, h⟩ := bind_eq_ok.mp h
  unfold within at h
  split at h
  · exact (Except.ok.inj h).symm
  · cases h

/-- As many rows go as a query has found. -/
theorem size_delete {limit : Nat} {w : Option WhereClause} {ids : List RowId}
    (h : rows limit t tb w = .ok ids) : (tb.delete ids).rows.size + ids.length = tb.rows.size := by
  have hnodup : ids.Nodup := rows_eq_ok h ▸ OrderedMap.nodup_keys _
  exact Table.size_delete hnodup fun _ => Table.mem_rows_of_reference h

/-- A query without a clause finds every row. -/
theorem select_all (limit : Nat) (hthere : tb.columns.isEmpty = false) :
    select limit t tb none = .ok (tb.ids.members.map tb.row) := by
  have hensure : ensure t tb = .ok () := ensure_eq_ok.mpr hthere
  have hrows : rows limit t tb none = .ok tb.ids.members := by
    unfold rows plan
    rw [hensure]
    show within limit [] tb.ids.members = _
    exact if_pos (List.forall_mem_nil _)
  rw [select, hrows]
  rfl

end Reference

/-- A command has succeeded and left a table there that was there: one on the table, which did what
the reference says, or another one, which left the table as it was. -/
structure Event.Turns (t : TableName) (e : Event) (tb tb' : Table) : Prop where
  there : tb.columns.isEmpty = false
  still : tb'.columns.isEmpty = false
  effect : (e.command.table? = some t ∧ ∃ config known,
      Reference.run config known t tb e.command = .ok (e.reply, tb')) ∨
    e.command.table? ≠ some t ∧ tb' = tb
  store : ∃ db : Database, db.Valid ∧ e.store.Holds db.layout ∧ db.table t = tb'

theorem Event.Turns.creates {t : TableName} {e : Event} {tb tb' : Table} (h : e.Turns t tb tb') :
    e.creates t = false := by
  rcases h.effect with ⟨-, config, known, hrun⟩ | ⟨hne, -⟩
  · exact Reference.not_creates_of_run h.there hrun
  · apply Bool.eq_false_iff.mpr
    intro hcreates
    obtain ⟨columns, hc⟩ := Event.creates_iff.mp hcreates
    exact hne (congrArg Command.table? hc)

/-! ### Lives -/

namespace Database

variable {db db' : Database} {t : TableName}

theorem onTable_eq_ok {r : Except Error (Reply × Table)} {reply : Reply} :
    db.onTable t r = .ok (reply, db') ↔ ∃ tb, r = .ok (reply, tb) ∧ db.set t tb = db' := by
  unfold onTable
  cases r with
  | error e => exact iff_of_false (fun h => by cases h) fun ⟨_, h, _⟩ => by cases h
  | ok out =>
      obtain ⟨reply', tb⟩ := out
      constructor
      · intro h
        obtain ⟨rfl, rfl⟩ := Prod.mk.inj (Except.ok.inj h)
        exact ⟨tb, rfl, rfl⟩
      · rintro ⟨tb', h, rfl⟩
        obtain ⟨rfl, rfl⟩ := Prod.mk.inj (Except.ok.inj h)
        rfl

theorem table_of_mem_set {tb : Table} (h : t ∈ (db.set t tb).tables) :
    (db.set t tb).table t = tb := by
  rw [OrderedMap.mem_iff_isSome, get?_set, if_pos rfl] at h
  rw [table, get?_set, if_pos rfl]
  cases htb : tb.columns.isEmpty with
  | true =>
      rw [htb] at h
      cases h
  | false => rfl

theorem run_of_table {c : Command} (ht : c.table? = some t) (config : Config) (db : Database) :
    db.run config c =
      db.onTable t (Reference.run config (t.ns ∈ db.namespaces) t (db.table t) c) := by
  unfold run
  rw [ht]

/-- A command that is not on a table leaves it as it is. -/
theorem table_run_of_ne {config : Config} {c : Command} {reply : Reply} (ht : c.table? ≠ some t)
    (h : db.run config c = .ok (reply, db')) : db'.table t = db.table t := by
  cases hc : c.table? with
  | some t' =>
      have hne : t ≠ t' := fun heq => ht (by rw [hc, heq])
      rw [run_of_table hc] at h
      obtain ⟨tb, -, rfl⟩ := onTable_eq_ok.mp h
      exact table_set_of_ne hne tb
  | none =>
      unfold run at h
      rw [hc] at h
      cases c with
      | createNamespace ns =>
          obtain ⟨out, hout, h⟩ := bind_eq_ok.mp h
          obtain rfl := (Prod.mk.inj (Except.ok.inj h)).2
          obtain ⟨_, -, hout⟩ := bind_eq_ok.mp hout
          split at hout
          · cases hout
          · obtain rfl := Except.ok.inj hout
            rfl
      | listTables ns =>
          obtain rfl := (Prod.mk.inj (Except.ok.inj h)).2
          rfl
      | help =>
          obtain rfl := (Prod.mk.inj (Except.ok.inj h)).2
          rfl
      | _ => cases hc

end Database

namespace Store

variable {s : Store} {db : Database} {t : TableName}

/-- A line has its command in the log if the command does what the reference says with success. -/
theorem Holds.event?_cases (hs : s.Holds db.layout) (hdb : db.Valid) (config : Config)
    (line : String) :
    (s.event? config line = none ∧ db.after config line = db) ∨
      ∃ c reply, db.run config c = .ok (reply, db.after config line) ∧
        s.event? config line = some ⟨c, reply, s.after config line⟩ := by
  have hreply := (hs.line hdb config line).1
  cases hparse : Command.parse line with
  | error e =>
      have hrun : db.runLine config line = .error e := by
        rw [Database.runLine, hparse]
        rfl
      refine Or.inl ⟨?_, ?_⟩
      · rw [event?, hparse]
      · rw [Database.after, hrun]
  | ok c =>
      have hrun : db.runLine config line = db.run config c := by
        rw [Database.runLine, hparse]
        rfl
      cases hresult : db.run config c with
      | error e =>
          rw [hresult] at hrun
          refine Or.inl ⟨?_, ?_⟩
          · rw [event?, hparse, hreply, Database.reply, hrun]
            rfl
          · rw [Database.after, hrun]
      | ok out =>
          rw [hresult] at hrun
          have hafter : db.after config line = out.2 := by rw [Database.after, hrun]
          refine Or.inr ⟨c, out.1, ?_, ?_⟩
          · rw [hresult, hafter]
          · rw [event?, hparse, hreply, Database.reply, hrun]
            rfl

/-- What holds of a table when it is created, and is kept by every command that leaves the table
there, holds of the table at the end of any run, with its creation and all that has happened
since. -/
theorem exists_database_of_era {P : List Event → Table → Prop}
    (hcreate : ∀ {e columns}, e.command = .createTable t columns → P [e] (Table.create columns))
    (hstep : ∀ {events tb tb' e}, tb.Valid → Event.Turns t e tb tb' → P events tb →
      P (events ++ [e]) tb') (lines : List (Config × String)) :
    ∃ db : Database, db.Valid ∧ ((∅ : Store).afterAll lines).Holds db.layout ∧
      (t ∈ db.tables → P (era t ((∅ : Store).log lines)) (db.table t)) := by
  induction lines using List.reverseRecOn with
  | nil =>
      exact ⟨∅, Database.Valid.empty, holds_empty, fun ht => (OrderedMap.notMem_empty t ht).elim⟩
  | append_singleton lines l ih =>
      obtain ⟨db, hdb, hs, hera⟩ := ih
      obtain ⟨-, hdb', hs'⟩ := hs.line hdb l.1 l.2
      rw [← afterAll_concat] at hs'
      refine ⟨db.after l.1 l.2, hdb', hs', fun ht => ?_⟩
      have hstill := hdb'.mem_tables_iff.mp ht
      rw [log_concat]
      rcases hs.event?_cases hdb l.1 l.2 with ⟨hnone, hsame⟩ | ⟨c, reply, hrun, hevent⟩
      · rw [hnone, Option.toList_none, List.append_nil, hsame]
        exact hera (hsame ▸ ht)
      rw [hevent, Option.toList_some, ← afterAll_concat]
      generalize db.after l.1 l.2 = db' at *
      -- a table that was there has turned into what it is now
      have hturn (hthere : (db.table t).columns.isEmpty = false) {e : Event}
          (he : e.Turns t (db.table t) (db'.table t)) :
          P (era t ((∅ : Store).log lines ++ [e])) (db'.table t) := by
        rw [era_concat he.creates]
        exact hstep (hdb.table_valid t) he (hera (hdb.mem_tables_iff.mpr hthere))
      by_cases hc : c.table? = some t
      · rw [Database.run_of_table hc] at hrun
        obtain ⟨tb, hresult, rfl⟩ := Database.onTable_eq_ok.mp hrun
        rw [Database.table_of_mem_set ht] at hstill hturn ⊢
        cases hthere : (db.table t).columns.isEmpty with
        | false =>
            exact hturn hthere ⟨hthere, hstill, Or.inl ⟨hc, _, _, hresult⟩,
              _, hdb', hs', Database.table_of_mem_set ht⟩
        | true =>
            obtain ⟨columns, hcreates, rfl⟩ := Reference.create_of_run hthere hc hresult
            rw [era_concat_creates (Event.creates_iff.mpr ⟨columns, hcreates⟩)]
            exact hcreate hcreates
      · have hsame := Database.table_run_of_ne hc hrun
        have hthere : (db.table t).columns.isEmpty = false := hsame ▸ hstill
        exact hturn hthere ⟨hthere, hstill, Or.inr ⟨hc, hsame⟩, _, hdb', hs', rfl⟩

/-- The same of what does not depend on the columns of the creation, with all that has happened since
then. -/
theorem exists_database_of_life {P : List Event → Table → Prop}
    (hcreate : ∀ columns, P [] (Table.create columns))
    (hstep : ∀ {events tb tb' e}, tb.Valid → Event.Turns t e tb tb' → P events tb →
      P (events ++ [e]) tb') (lines : List (Config × String)) :
    ∃ db : Database, db.Valid ∧ ((∅ : Store).afterAll lines).Holds db.layout ∧
      (t ∈ db.tables → P (life t ((∅ : Store).log lines)) (db.table t)) := by
  obtain ⟨db, hdb, hs, hera⟩ :=
    exists_database_of_era (P := fun events tb => P (life t events) tb) (t := t)
      (fun {e columns} he => by
        have hlife : life t ([] ++ [e]) = [] :=
          life_concat_creates (Event.creates_iff.mpr ⟨columns, he⟩)
        rw [List.nil_append] at hlife
        rw [hlife]
        exact hcreate columns)
      (fun hv he h => by
        rw [life_concat he.creates]
        exact hstep hv he h) lines
  refine ⟨db, hdb, hs, fun ht => ?_⟩
  rw [← life_era]
  exact hera ht

/-! ### What a life accounts for -/

end Store

/-- The insertions have replied the numbers up to that of the last row, and the rows that are no
longer there are those of the deletions. -/
structure Tally (t : TableName) (events : List Event) (tb : Table) : Prop where
  insertions : insertions t events = (List.range tb.last).map fun k => .bulk (toString (k + 1))
  rows : (tb.rows.size : Int) + deletions t events = tb.last

namespace Tally

variable {t : TableName} {events : List Event} {tb tb' : Table} {e : Event}

theorem create (columns : List Column) : Tally t [] (Table.create columns) := by
  have hfold : ∀ (columns : List Column) (tb : Table),
      (columns.foldl Table.define tb).last = tb.last ∧
        (columns.foldl Table.define tb).rows = tb.rows := by
    intro columns
    induction columns with
    | nil => exact fun tb => ⟨rfl, rfl⟩
    | cons column rest ih => exact fun tb => ih (tb.define column)
  obtain ⟨hlast, hrows⟩ := hfold columns ∅
  refine ⟨?_, ?_⟩
  · rw [Table.create, hlast]
    rfl
  · rw [Table.create, hlast, hrows]
    rfl

/-- A command that neither inserts nor deletes leaves the rows that there are and the last one. -/
theorem keep (h : Tally t events tb) (hinsertion : e.insertion? t = none)
    (hdeleted : e.deleted t = 0) (hlast : tb'.last = tb.last) (hsize : tb'.rows.size = tb.rows.size) :
    Tally t (events ++ [e]) tb' := by
  refine ⟨?_, ?_⟩
  · rw [insertions_concat, hinsertion, Option.toList_none, List.append_nil, hlast, h.insertions]
  · rw [deletions_concat, hdeleted, hlast, hsize, Int.add_zero, h.rows]

theorem insert (h : Tally t events tb) (hv : tb.Valid) (new : OrderedMap String String)
    (fields : List (String × String)) (s : Store) :
    Tally t (events ++ [⟨.insert t fields, .bulk (toString (tb.last + 1)), s⟩]) (tb.append new) := by
  have hsize : (tb.append new).rows.size = tb.rows.size + 1 :=
    OrderedMap.size_insert_of_notMem hv.succ_last_notMem new
  have hlast : (tb.append new).last = tb.last + 1 := rfl
  refine ⟨?_, ?_⟩
  · rw [insertions_concat, h.insertions, Event.insertion?_insert, hlast, List.range_succ,
      List.map_append]
    rfl
  · have hdeleted : Event.deleted t ⟨.insert t fields, .bulk (toString (tb.last + 1)), s⟩ = 0 := rfl
    have hrows := h.rows
    rw [deletions_concat, hdeleted, hsize, hlast]
    omega

theorem delete (h : Tally t events tb) {n : Nat} (w : Option WhereClause) (s : Store)
    (hsize : tb'.rows.size + n = tb.rows.size) (hlast : tb'.last = tb.last) :
    Tally t (events ++ [⟨.delete t w, .integer n, s⟩]) tb' := by
  refine ⟨?_, ?_⟩
  · rw [insertions_concat, h.insertions, hlast]
    exact List.append_nil _
  · have hrows := h.rows
    rw [deletions_concat, Event.deleted_delete, hlast]
    omega

theorem turn (h : Tally t events tb) (hv : tb.Valid) (he : e.Turns t tb tb') :
    Tally t (events ++ [e]) tb' := by
  have hstill := he.still
  have hcreates := he.creates
  rcases he.effect with ⟨ht, config, known, hrun⟩ | ⟨hne, rfl⟩
  · have hmakes := Reference.makes_of_run hrun
    obtain ⟨c, reply, s⟩ := e
    dsimp only at ht hmakes
    cases hmakes with
    | createTable t' =>
        obtain rfl := Option.some.inj ht
        rw [Event.creates_iff.mpr ⟨_, rfl⟩] at hcreates
        cases hcreates
    | insert t' =>
        obtain rfl := Option.some.inj ht
        exact h.insert hv _ _ s
    | delete t' _ hids =>
        obtain rfl := Option.some.inj ht
        exact h.delete _ s (Reference.size_delete hids) rfl
    | dropTable => cases hstill
    | update => exact h.keep rfl rfl rfl (List.length_map ..)
    | viewSchema | select | addColumn | addIndex | dropIndex | createNamespace | listTables | help =>
        exact h.keep rfl rfl rfl rfl
  · exact h.keep (Event.insertion?_of_ne hne) (Event.deleted_of_ne hne) rfl rfl

end Tally

namespace Store

variable {t : TableName}

/-- The insertions into a table since its creation have replied 1, 2, 3 and so on, and the table
has as many rows as there were insertions less what the deletions have replied. -/
theorem account_of_life (lines : List (Config × String))
    (ht : ((∅ : Store).afterAll lines).HasTable t) :
    (∀ (k : Nat) (reply : Reply),
      (insertions t (life t ((∅ : Store).log lines)))[k]? = some reply →
        reply = .bulk (toString (k + 1))) ∧
    ∀ config line, Command.parse line = .ok (.select t none) →
      ∃ items, ((∅ : Store).afterAll lines).reply config line = .ok (.array items) ∧
        (items.length : Int) = (insertions t (life t ((∅ : Store).log lines))).length -
          deletions t (life t ((∅ : Store).log lines)) := by
  obtain ⟨db, hdb, hs, htally⟩ :=
    exists_database_of_life Tally.create (fun hv he h => h.turn hv he) lines
  have hmem := (hs.hasTable_iff hdb).mp ht
  have htb := htally hmem
  generalize life t ((∅ : Store).log lines) = events at *
  refine ⟨fun k reply hreply => ?_, fun config line hparse => ?_⟩
  · rw [htb.insertions, List.getElem?_map, Option.map_eq_some_iff] at hreply
    obtain ⟨k', hk', rfl⟩ := hreply
    obtain ⟨-, rfl⟩ := List.getElem?_eq_some_iff.mp hk'
    rw [List.getElem_range]
  · have hrun := Database.runLine_of_parse hparse rfl config db
    have hselect := Reference.select_all (t := t) config.maxRowsScan (hdb.mem_tables_iff.mp hmem)
    let rows := (db.table t).ids.members.map (db.table t).row
    refine ⟨rows.map fun row => .strings row.flatten, ?_, ?_⟩
    · rw [(hs.line hdb config line).1, Database.reply_of_onTable hrun, Reference.run, hselect]
      rfl
    · have hlen : (db.table t).ids.members.length = (db.table t).rows.size :=
        (OrderedMap.length_keys _).trans (List.length_map ..)
      have hrows := htb.rows
      rw [List.length_map, List.length_map, hlen, htb.insertions, List.length_map, List.length_range]
      omega

theorem sample_account_of_life :
    let t : TableName := ⟨"app", "users"⟩
    let lines : List (Config × String) :=
      [({}, "NAMESPACE.CREATE app"), ({}, "SCHEMA.CREATE app.users name:string:hash age:integer"),
       ({}, "INSERT app.users name=ann age=7"), ({}, "DELETE app.users WHERE name=ann"),
       ({}, "INSERT app.users age=8")]
    ((∅ : Store).afterAll lines).HasTable t ∧
      (∀ (k : Nat) (reply : Reply),
        (insertions t (life t ((∅ : Store).log lines)))[k]? = some reply →
          reply = .bulk (toString (k + 1))) ∧
      ∃ items, ((∅ : Store).afterAll lines).reply {} "SELECT app.users" = .ok (.array items) ∧
        (items.length : Int) = (insertions t (life t ((∅ : Store).log lines))).length -
          deletions t (life t ((∅ : Store).log lines)) := by
  intro t lines
  have hstore : (∅ : Store).afterAll lines =
      (sample.after {} "DELETE app.users WHERE name=ann").after {} "INSERT app.users age=8" := by
    rw [sample_eq, afterAll_cons, afterAll_cons, afterAll_cons, afterAll_cons, afterAll_cons,
      afterAll_nil]
  have ht : ((∅ : Store).afterAll lines).HasTable t := by
    rw [hstore]
    exact of_decide_eq_true (by cbv)
  have hselect : Command.parse "SELECT app.users" = .ok (.select t none) := by cbv
  obtain ⟨hreplies, hrows⟩ := account_of_life lines ht
  exact ⟨ht, hreplies, hrows {} "SELECT app.users" hselect⟩

end Store

end Tabular
