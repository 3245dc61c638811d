import Tabular.Proofs.Keyspace
import Tabular.Proofs.Resumption

/-!
What programs write. Whatever a store holds, a program on a table changes keys of that table only,
and what it puts there goes with the role of the key (`writes_insert`, `writes_update` and the
others). Nothing is said of the results: the program may fail anywhere.
-/

namespace Tabular

/-- A key of the table other than its counter. -/
def Key.BesideCounter (t : TableName) (k : Key) : Prop := k.table? = some t ∧ k.role ≠ .counter

namespace Entry

variable {e : Entry}

theorem type_of_ofHash {h : OrderedMap String String} (he : ofHash h = some e) :
    e.type = .hash := by
  unfold ofHash at he
  split at he
  · cases he
  · rw [← Option.some.inj he]
    rfl

theorem type_of_ofSet {m : OrderedSet String} (he : ofSet m = some e) : e.type = .set := by
  unfold ofSet at he
  split at he
  · cases he
  · rw [← Option.some.inj he]
    rfl

end Entry

namespace Store

/-- Two stores differ at most under keys of a family, and there the second one holds what goes with
the role of the key. -/
def WrittenAt (K : Key → Prop) (s s' : Store) : Prop :=
  ∀ x, s'.get? x = s.get? x ∨ ∃ k, K k ∧ k.text = x ∧ ∀ e, s'.get? x = some e → e.type = k.role.type

namespace WrittenAt

variable {K K' : Key → Prop} {s s' s'' : Store}

theorem refl (K : Key → Prop) (s : Store) : WrittenAt K s s := fun _ => Or.inl rfl

theorem trans (h : WrittenAt K s s') (h' : WrittenAt K s' s'') : WrittenAt K s s'' := by
  intro x
  rcases h' x with heq | hwritten
  · rw [heq]
    exact h x
  · exact Or.inr hwritten

theorem mono (h : WrittenAt K s s') (hK : ∀ k, K k → K' k) : WrittenAt K' s s' :=
  fun x => (h x).imp_right fun ⟨k, hk, hwritten⟩ => ⟨k, hK k hk, hwritten⟩

/-- A key that is none of the family is left alone. -/
theorem get?_eq (h : WrittenAt K s s') {key : String} (hne : ∀ k, K k → k.text ≠ key) :
    s'.get? key = s.get? key := by
  rcases h key with heq | ⟨k, hk, htext, -⟩
  · exact heq
  · exact (hne k hk htext).elim

end WrittenAt

end Store

namespace StoreM

variable {α β : Type} {p x : StoreM α} {f : α → StoreM β} {K K' : Key → Prop} {k : Key}

/-- Whatever the store holds, the program writes at most keys of a family. -/
def Writes (p : StoreM α) (K : Key → Prop) : Prop :=
  ∀ s : Store, ∃ r s', p.exec ⟨s, none⟩ = (r, ⟨s', none⟩) ∧ s.WrittenAt K s'

namespace Writes

theorem of_reads (hp : Reads p) : Writes p K := by
  intro s
  obtain ⟨r, s', hexec⟩ := hp.steady.calm s
  have hstore := hp.store ⟨s, none⟩
  rw [hexec] at hstore
  obtain rfl : s' = s := hstore
  exact ⟨r, s', hexec, Store.WrittenAt.refl K s'⟩

theorem ret (a : α) : Writes (pure a) K := of_reads (Reads.ret a)

theorem throw (e : Error) : Writes (throwThe Error e : StoreM α) K := of_reads (Reads.throw e)

theorem mono (hp : Writes p K) (hK : ∀ k, K k → K' k) : Writes p K' := by
  intro s
  obtain ⟨r, s', hexec, hwritten⟩ := hp s
  exact ⟨r, s', hexec, hwritten.mono hK⟩

theorem bind (hx : Writes x K) (hf : ∀ a, Writes (f a) K) : Writes (x >>= f) K := by
  intro s
  obtain ⟨r, s', hexec, hwritten⟩ := hx s
  cases r with
  | error e => exact ⟨_, s', exec_bind_error hexec, hwritten⟩
  | ok a =>
      obtain ⟨r, s'', hexec', hwritten'⟩ := hf a s'
      exact ⟨r, s'', (exec_bind_ok hexec).trans hexec', hwritten.trans hwritten'⟩

/-- What comes after a look at the store does the writing. -/
theorem look (hx : Reads x) (hf : ∀ a, Writes (f a) K) : Writes (x >>= f) K :=
  (of_reads hx).bind hf

/-- What comes after a failure does not matter. -/
theorem fail (e : Error) : Writes (throwThe Error e >>= f) K :=
  fun s => ⟨_, s, exec_bind_error rfl, Store.WrittenAt.refl K s⟩

theorem forM {items : List β} {g : β → StoreM Unit} (hg : ∀ b, Writes (g b) K) :
    Writes (items.forM g) K := by
  induction items with
  | nil => exact ret ()
  | cons b rest ih => exact (hg b).bind fun _ => ih

/-- A primitive that puts an entry under one key, or removes the key. -/
theorem call (hk : K k) {q : Primitive} {act : Store → Except StoreError (α × Store)}
    (h : ∀ {s a s'}, act s = .ok (a, s') → ∃ o : Option Entry,
      (∀ x, s'.get? x = if x = k.text then o else s.get? x) ∧
        ∀ e, o = some e → e.type = k.role.type) :
    Writes (StoreM.call q act) K := by
  intro s
  cases hact : act s with
  | error cause => exact ⟨_, s, by rw [exec_call, hact], Store.WrittenAt.refl K s⟩
  | ok out =>
      refine ⟨_, out.2, by rw [exec_call, hact], fun x => ?_⟩
      obtain ⟨o, hget, htype⟩ := h hact
      rw [hget x]
      split
      · exact Or.inr ⟨k, hk, by simp [*], htype⟩
      · exact Or.inl rfl

end Writes

/-! ### The primitives -/

theorem writes_set (hk : K k) (htype : k.role.type = .text) (value : String) :
    Writes (set k.text value) K :=
  Writes.call hk fun {s _ s'} h => by
    obtain rfl := (Prod.mk.inj (Except.ok.inj h)).2
    refine ⟨some (.text value), fun x => OrderedMap.get?_insert .., fun e he => ?_⟩
    rw [← Option.some.inj he, htype]
    rfl

theorem writes_incr (hk : K k) (htype : k.role.type = .text) : Writes (incr k.text) K :=
  Writes.call hk fun {s n s'} h => by
    rw [Store.incr_eq_ok h]
    refine ⟨some (.text (toString n)), fun x => OrderedMap.get?_insert .., fun e he => ?_⟩
    rw [← Option.some.inj he, htype]
    rfl

theorem writes_del (hk : K k) : Writes (del k.text) K :=
  Writes.call hk fun {s _ s'} h => by
    obtain rfl := (Prod.mk.inj (Except.ok.inj h)).2
    exact ⟨none, fun x => OrderedMap.get?_erase .., fun e he => by cases he⟩

theorem writes_hset (hk : K k) (htype : k.role.type = .hash) (field value : String) :
    Writes (hset k.text field value) K :=
  Writes.call hk fun h => by
    obtain ⟨_, -, h⟩ := bind_eq_ok.mp h
    obtain rfl := (Prod.mk.inj (Except.ok.inj h)).2
    exact ⟨_, Store.get?_putHash _, fun e he => (Entry.type_of_ofHash he).trans htype.symm⟩

theorem writes_sadd (hk : K k) (htype : k.role.type = .set) (member : String) :
    Writes (sadd k.text member) K :=
  Writes.call hk fun h => by
    obtain ⟨_, -, h⟩ := bind_eq_ok.mp h
    obtain rfl := (Prod.mk.inj (Except.ok.inj h)).2
    exact ⟨_, Store.get?_putSet _, fun e he => (Entry.type_of_ofSet he).trans htype.symm⟩

theorem writes_srem (hk : K k) (htype : k.role.type = .set) (member : String) :
    Writes (srem k.text member) K :=
  Writes.call hk fun h => by
    obtain ⟨_, -, h⟩ := bind_eq_ok.mp h
    obtain rfl := (Prod.mk.inj (Except.ok.inj h)).2
    exact ⟨_, Store.get?_putSet _, fun e he => (Entry.type_of_ofSet he).trans htype.symm⟩

/-- What the pattern of a column matches is an index key of the column, whatever its name is. -/
theorem writes_delMatching {t : TableName} {column : String}
    (hK : ∀ value, K (.index t column value)) (pageSize : Nat) :
    Writes (delMatching (t.indexPattern column) pageSize) K := by
  intro s
  refine ⟨_, _, exec_delMatching (t.indexPattern column) pageSize s, fun x => ?_⟩
  rw [OrderedMap.get?_filter]
  cases hmatch : Glob.matchesKey (t.indexPattern column) x with
  | false => exact Or.inl rfl
  | true =>
      obtain ⟨rest, hrest⟩ := (TableName.matchesKey_indexPattern t column x).mp hmatch
      refine Or.inr ⟨.index t column (String.ofList rest), hK _, ?_, fun e he => by cases he⟩
      rw [← String.toList_inj, ← hrest]
      simp [Key.text, TableName.indexStem]

/-! ### Queries look -/

theorem reads_columnTypes (t : TableName) : Reads (Catalog.columnTypes t) :=
  (Reads.look _ _ rfl).bind fun _ => Reads.ret _

theorem reads_indexedColumns (t : TableName) : Reads (Catalog.indexedColumns t) := by
  unfold Catalog.indexedColumns
  exact Reads.look _ _ rfl

theorem reads_ofQuery (t : TableName) (w : Option WhereClause) : Reads (Plan.ofQuery t w) := by
  cases w with
  | none => exact (reads_ensureTable t).bind fun _ => Reads.ret _
  | some w =>
      refine (reads_ensureTable t).bind fun _ => ?_
      refine (reads_columnTypes t).bind fun types => ?_
      exact (reads_indexedColumns t).bind fun indexed => Reads.of_except _

theorem reads_satisfying (limit : Nat) (t : TableName) (c : Condition) (type : ColumnType)
    (budget : Nat) (ids : List RowId) : Reads (Query.satisfying limit t c type budget ids) := by
  induction ids generalizing budget with
  | nil =>
      rw [Query.satisfying]
      exact Reads.ret _
  | cons id rest ih =>
      cases budget with
      | zero => exact Reads.throw _
      | succ budget =>
          rw [Query.satisfying]
          exact (Reads.look _ _ rfl).bind fun _ => (ih budget).bind fun _ => Reads.ret _

theorem reads_filterRows (order : Enumeration RowId) (limit : Nat) (t : TableName) (c : Condition)
    (type : ColumnType) (rows : RowSet) : Reads (Query.filterRowsBy order limit t c type rows) :=
  (reads_satisfying limit t c type _ _).bind fun _ => Reads.ret _

theorem reads_access (order : Enumeration RowId) (limit : Nat) (t : TableName) (a : Access) :
    Reads (Query.accessBy order limit t a) := by
  cases a with
  | all => exact reads_allRows t
  | lookup column value => exact (Reads.look _ _ rfl).bind fun _ => Reads.ret _
  | scan c type => exact (reads_allRows t).bind fun _ => reads_filterRows order limit t c type _

theorem reads_step (order : Enumeration RowId) (limit : Nat) (t : TableName) (rows : RowSet)
    (step : Step) : Reads (Query.stepBy order limit t rows step) := by
  cases step with
  | seed a => exact reads_access order limit t a
  | narrow c type => exact reads_filterRows order limit t c type rows
  | union a => exact (reads_access order limit t a).bind fun _ => Reads.ret _

theorem reads_steps (order : Enumeration RowId) (limit : Nat) (t : TableName) (plan : Plan)
    (rows : RowSet) : Reads (plan.foldlM (Query.stepBy order limit t) rows) := by
  induction plan generalizing rows with
  | nil => exact Reads.ret rows
  | cons step rest ih =>
      rw [List.foldlM_cons]
      exact (reads_step order limit t rows step).bind ih

theorem reads_rows (order : Enumeration RowId) (limit : Nat) (t : TableName)
    (w : Option WhereClause) : Reads (Query.rowsBy order limit t w) := by
  refine (reads_ofQuery t w).bind fun plan => ?_
  exact (reads_steps order limit t plan ∅).bind fun _ => Reads.ret _

theorem reads_fetchAll (t : TableName) (ids : List RowId) : Reads (Engine.fetchAll t ids) := by
  induction ids with
  | nil => exact Reads.ret []
  | cons id rest ih =>
      refine Reads.bind ((Reads.look _ _ rfl).bind fun _ => Reads.ret _) fun row => ?_
      exact ih.bind fun _ => Reads.ret _

/-! ### The programs of the engine -/

theorem writes_createNamespace (ns : String) :
    Writes (Catalog.createNamespace ns) (· = .marker ns) := by
  refine Writes.look (Reads.of_except _) fun _ => ?_
  refine Writes.look (Reads.look _ _ rfl) fun type => ?_
  dsimp only
  split
  · exact Writes.fail _
  · exact writes_set (K := (· = .marker ns)) rfl rfl _

section
variable (t : TableName)

theorem writes_defineColumn (column : Column) :
    Writes (Catalog.defineColumn t column) (Key.BesideCounter t) := by
  refine (writes_hset (k := .schema t) ⟨rfl, Role.noConfusion⟩ rfl _ _).bind fun _ => ?_
  split
  · exact (writes_sadd (k := .indexed t) ⟨rfl, Role.noConfusion⟩ rfl _).bind fun _ => Writes.ret _
  · exact Writes.ret _

theorem writes_createTable (columns : List Column) :
    Writes (Catalog.createTable t columns) (Key.BesideCounter t) := by
  refine Writes.look (Reads.of_except _) fun _ => ?_
  refine Writes.look ((Reads.look _ _ rfl).bind fun _ => Reads.ret _) fun known => ?_
  cases known with
  | false => exact Writes.fail _
  | true =>
      refine Writes.look (Reads.look _ _ rfl) fun type => ?_
      dsimp only
      split
      · exact Writes.fail _
      · split
        · exact Writes.fail _
        · exact Writes.forM fun column => writes_defineColumn t column

theorem writes_addColumn (column : Column) :
    Writes (Catalog.addColumn t column) (Key.BesideCounter t) := by
  refine Writes.look (reads_ensureTable t) fun _ => ?_
  refine Writes.look (Reads.look _ _ rfl) fun found => ?_
  dsimp only
  split
  · exact Writes.fail _
  · exact writes_defineColumn t column

theorem writes_indexRows (column : String) (ids : List RowId) :
    Writes (Engine.indexRows t column ids) (Key.BesideCounter t) := by
  induction ids with
  | nil => exact Writes.ret 0
  | cons id rest ih =>
      rw [Engine.indexRows]
      refine Writes.look (Reads.look _ _ rfl) fun value => ?_
      cases value with
      | none => exact ih
      | some value =>
          have henter : Writes (sadd (Key.index t column value).text (toString id))
              (Key.BesideCounter t) := writes_sadd ⟨rfl, Role.noConfusion⟩ rfl _
          exact henter.bind fun _ => ih.bind fun _ => Writes.ret _

theorem writes_addIndex (order : Enumeration RowId) (column : String) :
    Writes (Engine.addIndexBy order t column) (Key.BesideCounter t) := by
  refine Writes.look (reads_ensureTable t) fun _ => ?_
  refine Writes.look (reads_columnType t column) fun _ => ?_
  refine (writes_sadd (k := .indexed t) ⟨rfl, Role.noConfusion⟩ rfl column).bind fun _ => ?_
  exact Writes.look (reads_allRows t) fun _ => writes_indexRows t column _

theorem writes_dropIndex (column : String) (pageSize : Nat) :
    Writes (Engine.dropIndex t column pageSize) (Key.BesideCounter t) := by
  refine Writes.look (reads_ensureTable t) fun _ => ?_
  refine Writes.look (reads_columnType t column) fun _ => ?_
  refine (writes_srem (k := .indexed t) ⟨rfl, Role.noConfusion⟩ rfl column).bind fun _ => ?_
  exact (writes_delMatching (fun _ => ⟨rfl, Role.noConfusion⟩) pageSize).bind fun _ => Writes.ret _

/-- What an insertion writes after it has counted. -/
theorem writes_row (indexed : OrderedSet String) (id : RowId) (fields : List (String × String)) :
    Writes (do
        fields.forM fun field => do
          let _ ← hset (Key.row t id).text field.1 field.2
        let _ ← sadd (Key.rows t).text (toString id)
        fields.forM fun field => do
          if indexed.contains field.1 then
            let _ ← sadd (Key.index t field.1 field.2).text (toString id)
        return id) (Key.BesideCounter t) := by
  have hfields : Writes (fields.forM fun field => do
      let _ ← hset (Key.row t id).text field.1 field.2) (Key.BesideCounter t) :=
    Writes.forM fun field =>
      (writes_hset (k := .row t id) ⟨rfl, Role.noConfusion⟩ rfl _ _).bind fun _ => Writes.ret ()
  refine hfields.bind fun _ => ?_
  refine (writes_sadd (k := .rows t) ⟨rfl, Role.noConfusion⟩ rfl _).bind fun _ => ?_
  refine Writes.bind (Writes.forM fun field => ?_) fun _ => Writes.ret id
  split
  · refine (writes_sadd (k := .index t field.1 field.2) ⟨rfl, Role.noConfusion⟩ rfl _).bind ?_
    exact fun _ => Writes.ret _
  · exact Writes.ret _

theorem writes_insert (fields : List (String × String)) :
    Writes (Engine.insert t fields) (·.table? = some t) := by
  refine Writes.look (reads_ensureTable t) fun _ => ?_
  dsimp only
  split
  · exact Writes.fail _
  · refine Writes.look (reads_columnTypes t) fun types => ?_
    refine Writes.look (Reads.of_except _) fun checked => ?_
    refine Writes.look (reads_indexedColumns t) fun indexed => ?_
    refine Writes.bind ?_ fun id =>
      (writes_row t indexed id checked.toList).mono fun _ hk => hk.1
    have hcount : Writes (incr (Key.counter t).text) (·.table? = some t) :=
      writes_incr (k := .counter t) rfl rfl
    refine hcount.bind fun n => ?_
    cases n with
    | ofNat n => exact Writes.ret _
    | negSucc n => exact Writes.throw _

theorem writes_moveIndexed (column : String) (old : Option String) (new : String) (id : RowId) :
    Writes (Engine.moveIndexed t column old new id) (Key.BesideCounter t) := by
  have hadd : Writes (do let _ ← sadd (Key.index t column new).text (toString id))
      (Key.BesideCounter t) :=
    (writes_sadd (k := .index t column new) ⟨rfl, Role.noConfusion⟩ rfl _).bind fun _ =>
      Writes.ret _
  unfold Engine.moveIndexed
  split
  · exact Writes.ret _
  · cases old with
    | none => exact hadd
    | some old =>
        have hremove : Writes (srem (Key.index t column old).text (toString id))
            (Key.BesideCounter t) := writes_srem ⟨rfl, Role.noConfusion⟩ rfl _
        exact hremove.bind fun _ => hadd

theorem writes_assign (indexed : OrderedSet String) (id : RowId) (field : String × String) :
    Writes (Engine.assign t indexed id field) (Key.BesideCounter t) := by
  refine Writes.look (Reads.look _ _ rfl) fun old => ?_
  refine (writes_hset (k := .row t id) ⟨rfl, Role.noConfusion⟩ rfl _ _).bind fun _ => ?_
  split
  · exact writes_moveIndexed t _ _ _ _
  · exact Writes.ret _

theorem writes_assignAll (indexed : OrderedSet String) (fields : List (String × String))
    (ids : List RowId) :
    Writes (Engine.assignAll t indexed fields ids) (Key.BesideCounter t) := by
  induction ids with
  | nil => exact Writes.ret 0
  | cons id rest ih =>
      refine Writes.look (Reads.look _ _ rfl) fun type => ?_
      split
      · exact ih
      · refine (Writes.forM fun field => writes_assign t indexed id field).bind fun _ => ?_
        exact ih.bind fun _ => Writes.ret _

theorem writes_update (order : Enumeration RowId) (limit : Nat) (w : Option WhereClause)
    (fields : List (String × String)) :
    Writes (Engine.updateBy order limit t w fields) (Key.BesideCounter t) := by
  refine Writes.look (reads_ensureTable t) fun _ => ?_
  dsimp only
  split
  · exact Writes.fail _
  · refine Writes.look (reads_columnTypes t) fun types => ?_
    refine Writes.look (Reads.of_except _) fun checked => ?_
    refine Writes.look (reads_indexedColumns t) fun indexed => ?_
    refine Writes.look (reads_rows order limit t w) fun ids => ?_
    exact writes_assignAll t indexed checked.toList _

theorem writes_deleteRow (order : Enumeration String) (id : RowId) :
    Writes (Engine.deleteRowBy order t id) (Key.BesideCounter t) := by
  refine Writes.look (reads_indexedColumns t) fun indexed => ?_
  refine Writes.bind (Writes.forM fun column => ?_) fun _ => ?_
  · refine Writes.look (Reads.look _ _ rfl) fun value => ?_
    cases value with
    | none => exact Writes.ret _
    | some value =>
        have hremove : Writes (srem (Key.index t column value).text (toString id))
            (Key.BesideCounter t) := writes_srem ⟨rfl, Role.noConfusion⟩ rfl _
        exact hremove.bind fun _ => Writes.ret _
  · refine (writes_del (k := .row t id) ⟨rfl, Role.noConfusion⟩).bind fun _ => ?_
    exact (writes_srem (k := .rows t) ⟨rfl, Role.noConfusion⟩ rfl _).bind fun _ => Writes.ret _

theorem writes_delete (orders : Orders) (limit : Nat) (w : Option WhereClause) :
    Writes (Engine.deleteBy orders limit t w) (Key.BesideCounter t) := by
  refine Writes.look (reads_rows orders.rows limit t w) fun ids => ?_
  exact (Writes.forM fun id => writes_deleteRow t (orders.columns id) id).bind fun _ =>
    Writes.ret _

end

end StoreM

end Tabular
