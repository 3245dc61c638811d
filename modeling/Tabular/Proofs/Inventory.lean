import Tabular.Proofs.SchemaHistory

/-!
Which tables there are. A log says of each table whether it has been created and not dropped since,
and those are the tables of the database at the end of the run (`exists_database_of_log`). So a
listing names them, each once and in alphabetical order, whatever the page size of its walk; and the
listing of a namespace is the part with that namespace, whatever characters stand in its name
(`listing_of_log`).
-/

namespace Tabular

/-! ### What a log says of a table -/

/-- It dropped the table. -/
def Event.drops (t : TableName) (e : Event) : Bool :=
  match e.command with
  | .dropTable t' => t' = t
  | _ => false

/-- A table has been created, and it has not been dropped since. -/
def Standing (t : TableName) (events : List Event) : Prop :=
  (∃ e ∈ events, e.creates t = true) ∧ ∀ e ∈ life t events, e.drops t = false

instance (t : TableName) (events : List Event) : Decidable (Standing t events) :=
  inferInstanceAs (Decidable (_ ∧ _))

section
variable {t : TableName} {events : List Event} {e : Event}

theorem Event.drops_iff : e.drops t = true ↔ e.command = .dropTable t := by
  unfold drops
  cases e.command <;> simp

theorem not_standing_nil : ¬Standing t [] := fun h => (List.not_mem_nil h.1.choose_spec.1).elim

/-- One more command creates the table, or leaves it standing unless it drops the table. -/
theorem standing_concat :
    Standing t (events ++ [e]) ↔ e.creates t = true ∨ Standing t events ∧ e.drops t = false := by
  cases hcreates : e.creates t with
  | true =>
      refine iff_of_true ⟨⟨e, List.mem_concat_self, hcreates⟩, ?_⟩ (Or.inl rfl)
      rw [life_concat_creates hcreates]
      exact List.forall_mem_nil _
  | false =>
      have hexists : (∃ e' ∈ events ++ [e], e'.creates t = true) ↔
          ∃ e' ∈ events, e'.creates t = true := by
        simp [or_and_right, exists_or, hcreates]
      rw [Standing, hexists, life_concat hcreates, List.forall_mem_append,
        List.forall_mem_singleton, ← and_assoc]
      exact (or_iff_right Bool.noConfusion).symm

end

/-! ### What a run makes of it -/

/-- A command on a table has left it there if it is the creation, or if the table was there and the
command does not drop it. -/
theorem Reference.there_of_run {t : TableName} {tb tb' : Table} {config : Config} {known : Bool}
    {c : Command} {reply : Reply} (ht : c.table? = some t)
    (h : run config known t tb c = .ok (reply, tb')) :
    tb'.columns.isEmpty = false ↔
      (∃ columns, c = .createTable t columns) ∨ tb.columns.isEmpty = false ∧ c ≠ .dropTable t := by
  cases makes_of_run h with
  | @createTable t' columns _ _ _ hcolumns =>
      obtain rfl := Option.some.inj ht
      exact iff_of_true (columns_create hcolumns) (Or.inl ⟨columns, rfl⟩)
  | addColumn _ hthere _ =>
      exact iff_of_true (OrderedMap.isEmpty_insert ..) (Or.inr ⟨hthere, Command.noConfusion⟩)
  | dropTable =>
      obtain rfl := Option.some.inj ht
      refine iff_of_false Bool.noConfusion ?_
      rintro (⟨columns, hc⟩ | ⟨-, hne⟩)
      · cases hc
      · exact hne rfl
  | addIndex | dropIndex => simp [Table.addIndex, Table.dropIndex]
  | viewSchema | select | createNamespace | listTables | help => simp
  | insert | update | delete => simp [Table.append, Table.assign, Table.delete]

/-- A command leaves a table there that it has created, and those that were there but for the one
that it drops. -/
theorem Database.mem_tables_of_run {db db' : Database} {config : Config} {e : Event}
    (hdb : db.Valid) (hdb' : db'.Valid) (h : db.run config e.command = .ok (e.reply, db'))
    (t : TableName) :
    t ∈ db'.tables ↔ e.creates t = true ∨ t ∈ db.tables ∧ e.drops t = false := by
  have hdrops : e.drops t = false ↔ e.command ≠ .dropTable t := by
    rw [Bool.eq_false_iff, ne_eq, Event.drops_iff]
  rw [Event.creates_iff, hdrops, hdb.mem_tables_iff, hdb'.mem_tables_iff]
  by_cases hc : e.command.table? = some t
  · rw [run_of_table hc] at h
    obtain ⟨tb, hrun, rfl⟩ := onTable_eq_ok.mp h
    rw [← Reference.there_of_run hc hrun, ← hdb'.mem_tables_iff, OrderedMap.mem_iff_isSome, get?_set,
      if_pos rfl]
    cases tb.columns.isEmpty <;> simp
  · -- a command on another table neither creates this one nor drops it
    have hcreate : ¬∃ columns, e.command = .createTable t columns :=
      fun ⟨_, heq⟩ => hc (by rw [heq]; rfl)
    have hdrop : e.command ≠ .dropTable t := fun heq => hc (by rw [heq]; rfl)
    rw [table_run_of_ne hc h, or_iff_right hcreate, and_iff_left hdrop]

namespace Store

/-- The tables at the end of a run are those that its log leaves standing. -/
theorem exists_database_of_log (lines : List (Config × String)) :
    ∃ db : Database, db.Valid ∧ ((∅ : Store).afterAll lines).Holds db.layout ∧
      ∀ t, t ∈ db.tables ↔ Standing t ((∅ : Store).log lines) := by
  induction lines using List.reverseRecOn with
  | nil =>
      exact ⟨∅, Database.Valid.empty, holds_empty, fun t =>
        iff_of_false (OrderedMap.notMem_empty t) not_standing_nil⟩
  | append_singleton lines l ih =>
      obtain ⟨db, hdb, hs, htables⟩ := ih
      obtain ⟨-, hdb', hs'⟩ := hs.line hdb l.1 l.2
      rw [← afterAll_concat] at hs'
      refine ⟨db.after l.1 l.2, hdb', hs', fun t => ?_⟩
      rw [log_concat]
      rcases hs.event?_cases hdb l.1 l.2 with ⟨hnone, hsame⟩ | ⟨c, reply, hrun, hevent⟩
      · rw [hnone, Option.toList_none, List.append_nil, hsame, htables]
      · rw [hevent, Option.toList_some, standing_concat, ← htables]
        exact Database.mem_tables_of_run (e := ⟨c, reply, _⟩) hdb hdb' hrun t

/-- A listing names the tables that have been created and not dropped since, each once and sorted by
namespace and then by name, and the listing of a namespace those of them that are in it. Neither
depends on the page size of the walk, and neither changes the store. -/
theorem listing_of_log (lines : List (Config × String)) :
    ∃ tables : List TableName,
      (∀ pageSize, (Catalog.listTables none pageSize).exec ⟨(∅ : Store).afterAll lines, none⟩ =
        (.ok tables, ⟨(∅ : Store).afterAll lines, none⟩)) ∧
      (∀ t, t ∈ tables ↔ Standing t ((∅ : Store).log lines)) ∧
      tables.Nodup ∧
      tables.Pairwise (fun a b => a.ns < b.ns ∨ a.ns = b.ns ∧ a.table < b.table) ∧
      ∀ ns pageSize,
        (Catalog.listTables (some ns) pageSize).exec ⟨(∅ : Store).afterAll lines, none⟩ =
          (.ok (tables.filter fun t => t.ns = ns), ⟨(∅ : Store).afterAll lines, none⟩) := by
  obtain ⟨db, hdb, hs, htables⟩ := exists_database_of_log lines
  have hall : db.listing none = db.tables.keys := List.filter_eq_self.mpr fun _ _ => rfl
  refine ⟨db.tables.keys, fun pageSize => ?_, fun t => ?_, db.tables.nodup_keys,
    db.tables.keys_pairwise, fun ns pageSize => ?_⟩
  · rw [← hall]
    exact (StoreM.runs_listTables hdb none pageSize).exec_eq hs
  · rw [OrderedMap.mem_keys, htables]
  · exact (StoreM.runs_listTables hdb (some ns) pageSize).exec_eq hs

end Store

end Tabular
