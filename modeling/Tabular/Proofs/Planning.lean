import Tabular.Proofs.Naming
import Tabular.Proofs.SchemaHistory

/-!
Which queries have a plan. Each condition of a clause is held against the schema as a view shows
it, and the fault of the leftmost one that has any is the error of the query
(`Plan.ofClause_eq_error_iff`). A plan is read off two keys, so that rows and the sets of an index
have no say in it (`Store.Reachable.plan_exact`).
-/

namespace Tabular

/-! ### The leftmost fault -/

/-- A fault, with none at the places before it. -/
def Leftmost {ε : Type} (fault? : Nat → Option ε) (e : ε) : Prop :=
  ∃ i, fault? i = some e ∧ ∀ j < i, fault? j = none

section
variable {ε α β : Type} {fault? : Nat → Option ε} {e : ε}

/-- The leftmost fault is at the first place, or there is none there and it is the leftmost of what
comes after. -/
theorem leftmost_iff : Leftmost fault? e ↔
    fault? 0 = some e ∨ fault? 0 = none ∧ Leftmost (fun i => fault? (i + 1)) e := by
  constructor
  · rintro ⟨i, hi, hbefore⟩
    cases i with
    | zero => exact Or.inl hi
    | succ i =>
        refine Or.inr ⟨hbefore 0 i.succ_pos, i, hi, fun j hj => ?_⟩
        exact hbefore (j + 1) (Nat.succ_lt_succ hj)
  · rintro (h | ⟨hnone, i, hi, hbefore⟩)
    · exact ⟨0, h, fun j hj => absurd hj j.not_lt_zero⟩
    · refine ⟨i + 1, hi, fun j hj => ?_⟩
      cases j with
      | zero => exact hnone
      | succ j => exact hbefore j (Nat.lt_of_succ_lt_succ hj)

/-- If there is a fault at all, one of them is the leftmost. -/
theorem forall_not_leftmost_iff : (∀ e, ¬ Leftmost fault? e) ↔ ∀ i, fault? i = none := by
  constructor
  · intro h i
    induction i using Nat.strongRecOn with
    | ind i ih =>
        cases hi : fault? i with
        | none => rfl
        | some e => exact (h e ⟨i, hi, ih⟩).elim
  · rintro h e ⟨i, hi, -⟩
    rw [h i] at hi
    cases hi

theorem exists_eq_ok_iff {r : Except ε α} : (∃ a, r = .ok a) ↔ ∀ e, r ≠ .error e := by
  cases r <;> simp

/-- Checks on the elements of a list fail with the leftmost fault among them. -/
theorem mapM_eq_error_iff {f : α → Except ε β} {fault : α → Option ε}
    (hf : ∀ a e, f a = .error e ↔ fault a = some e) (l : List α) :
    l.mapM f = .error e ↔ Leftmost (fun i => l[i]?.bind fault) e := by
  induction l with
  | nil =>
      refine iff_of_false (fun h => by cases h) ?_
      rintro ⟨i, hi, -⟩
      cases hi
  | cons a rest ih =>
      have hok : (∃ b, f a = .ok b) ↔ fault a = none := by
        rw [exists_eq_ok_iff, Option.eq_none_iff_forall_ne_some]
        exact forall_congr' fun e => not_congr (hf a e)
      rw [List.mapM_cons, bind_eq_error, leftmost_iff]
      simp only [bind_pure_eq_error, List.getElem?_cons_zero, List.getElem?_cons_succ,
        Option.bind_some]
      rw [exists_and_right, hok, hf, ih]

end

/-! ### Conditions against a schema -/

namespace Schema

/-- What is wrong with a condition, the column before the value and the value before the lack of an
index. Only the condition that seeds the candidates needs one. -/
def fault? (schema : Schema) (seeds : Bool) (c : Condition) : Option Error :=
  match schema.column? c.column with
  | none => some (.columnNotFound c.column schema.table)
  | some column =>
      if column.type.accepts c.value = false then
        some (.typeMismatch c.column column.type c.value)
      else if seeds = true ∧ c.op = .eq ∧ column.indexed = false then
        some (.nonIndexedEquality c.column)
      else none

/-- What is wrong with one of the conditions of a clause. The first of them seeds. -/
def faultAt? (schema : Schema) (conditions : List Condition) (i : Nat) : Option Error :=
  conditions[i]?.bind (schema.fault? (i = 0))

/-- All conditions are about declared columns and have values of their types, and the first is no
equality on a column without an index. -/
structure Admits (schema : Schema) (conditions : List Condition) : Prop where
  declared : ∀ c ∈ conditions, ∃ column ∈ schema.columns,
    column.name = c.column ∧ column.type.accepts c.value = true
  seeded : ∀ c, conditions.head? = some c → c.op = .eq →
    ∀ column ∈ schema.columns, column.name = c.column → column.indexed = true

end Schema

namespace Table

variable {tb : Table} {t : TableName} {c : Condition} {e : Error}

/-- A view shows the columns of a table, each once. -/
theorem column?_schema (tb : Table) (t : TableName) (name : String) :
    (tb.schema t).column? name =
      (tb.columns.get? name).map fun type => ⟨name, type, tb.indexed.contains name⟩ := by
  unfold Schema.column?
  cases hfind : (tb.schema t).columns.find? fun c => c.name = name with
  | none =>
      have hname : name ∉ tb.columns := by
        intro hname
        obtain ⟨c, hc, hcname⟩ := exists_column_schema (t := t).mpr hname
        exact List.find?_eq_none.mp hfind c hc (decide_eq_true hcname)
      rw [OrderedMap.get?_eq_none_iff.mpr hname]
      rfl
  | some c =>
      obtain ⟨htype, hindexed⟩ := mem_columns_schema.mp (List.mem_of_find?_eq_some hfind)
      have hname := List.find?_some hfind
      obtain rfl : c.name = name := of_decide_eq_true hname
      rw [htype, hindexed]
      rfl

/-- A condition is refused for what is wrong with it apart from the index. -/
theorem resolve_eq_error_iff : c.resolve t tb.columns = .error e ↔
    (tb.schema t).fault? false c = some e := by
  unfold Condition.resolve ColumnType.check Schema.fault?
  rw [column?_schema]
  cases tb.columns.get? c.column with
  | none => simp [throw, throwThe, MonadExceptOf.throw, schema, Schema.ofColumns]
  | some type => cases ha : type.accepts c.value <;> simp [ha, bind, Except.bind, pure, Except.pure]

/-- A later condition is refused if it does not resolve, however it is joined. -/
theorem stepOf_eq_error_iff (c : Connective × Condition) :
    Plan.stepOf t tb.columns tb.indexed c = .error e ↔
      (tb.schema t).fault? false c.2 = some e := by
  rw [← resolve_eq_error_iff]
  obtain ⟨connective, c⟩ := c
  cases connective <;> exact bind_pure_eq_error

/-- The condition that seeds must resolve, and then must not be an equality without an index. -/
theorem fault?_seed_eq_some_iff : (tb.schema t).fault? true c = some e ↔
    c.resolve t tb.columns = .error e ∨ ∃ type, c.resolve t tb.columns = .ok type ∧
      (c.op = .eq ∧ (!tb.indexed.contains c.column) = true) ∧ .nonIndexedEquality c.column = e := by
  simp only [resolve_eq_error_iff, Condition.resolve_eq_ok]
  unfold Schema.fault?
  rw [column?_schema]
  cases tb.columns.get? c.column with
  | none => simp
  | some type => cases ha : type.accepts c.value <;> simp [ha]

/-- A condition is in order if its value is of the type that the view shows for its column, and if,
should it seed, it is no equality on a column shown without an index. -/
theorem fault?_eq_none_iff {seeds : Bool} : (tb.schema t).fault? seeds c = none ↔
    (∃ column ∈ (tb.schema t).columns, column.name = c.column ∧
      column.type.accepts c.value = true) ∧
    (seeds = true → c.op = .eq →
      ∀ column ∈ (tb.schema t).columns, column.name = c.column → column.indexed = true) := by
  unfold Schema.fault?
  rw [column?_schema]
  cases htype : tb.columns.get? c.column with
  | none =>
      refine iff_of_false (fun h => by cases h) ?_
      rintro ⟨⟨column, hcolumn, hname, -⟩, -⟩
      rw [← hname, (mem_columns_schema.mp hcolumn).1] at htype
      cases htype
  | some type =>
      have hcolumn (column : Column) : column ∈ (tb.schema t).columns ∧ column.name = c.column ↔
          column = ⟨c.column, type, tb.indexed.contains c.column⟩ := by
        rw [mem_columns_schema]
        constructor
        · rintro ⟨⟨hget, hindexed⟩, hname⟩
          rw [hname] at hget hindexed
          rw [htype] at hget
          rw [hindexed, Option.some.inj hget, ← hname]
        · rintro rfl
          exact ⟨⟨htype, rfl⟩, rfl⟩
      simp only [← and_assoc, ← and_imp, hcolumn, exists_eq_left, forall_eq]
      cases ha : type.accepts c.value <;> simp [ha]

end Table

/-- The error of a clause is the leftmost fault among its conditions. -/
theorem Plan.ofClause_eq_error_iff {t : TableName} {tb : Table} {w : WhereClause} {e : Error} :
    Plan.ofClause t tb.columns tb.indexed w = .error e ↔
      Leftmost ((tb.schema t).faultAt? w.conditions) e := by
  have hrest : w.rest.mapM (stepOf t tb.columns tb.indexed) = .error e ↔
      Leftmost (fun i => (tb.schema t).faultAt? w.conditions (i + 1)) e := by
    rw [mapM_eq_error_iff fun c e => Table.stepOf_eq_error_iff c]
    have hfault (i : Nat) : (tb.schema t).faultAt? w.conditions (i + 1) =
        w.rest[i]?.bind fun c => (tb.schema t).fault? false c.2 := by
      simp [Schema.faultAt?, WhereClause.conditions, Option.bind_map]
    simp only [hfault]
  have hfirst : (tb.schema t).faultAt? w.conditions 0 = (tb.schema t).fault? true w.first := rfl
  have hclause {type : ColumnType} (hresolve : w.first.resolve t tb.columns = .ok type) :
      ofClause t tb.columns tb.indexed w =
        if w.first.op = .eq ∧ (!tb.indexed.contains w.first.column) = true then
          .error (.nonIndexedEquality w.first.column)
        else w.rest.mapM (stepOf t tb.columns tb.indexed) >>= fun rest =>
          pure (.seed (.ofCondition tb.indexed w.first type) :: rest) := by
    rw [ofClause, hresolve]
    rfl
  rw [leftmost_iff, ← hrest, hfirst]
  cases hfault : (tb.schema t).fault? true w.first with
  | some e' =>
      obtain hresolve | ⟨type, hresolve, hguard, rfl⟩ := Table.fault?_seed_eq_some_iff.mp hfault
      · simp [ofClause, hresolve, bind, Except.bind]
      · rw [hclause hresolve, if_pos hguard]
        simp
  | none =>
      have hsound := Option.eq_none_iff_forall_ne_some.mp hfault
      cases hresolve : w.first.resolve t tb.columns with
      | error e' => exact (hsound e' (Table.fault?_seed_eq_some_iff.mpr (.inl hresolve))).elim
      | ok type =>
          have hguard : ¬ (w.first.op = .eq ∧ (!tb.indexed.contains w.first.column) = true) :=
            fun h => hsound _ (Table.fault?_seed_eq_some_iff.mpr (.inr ⟨type, hresolve, h, rfl⟩))
          rw [hclause hresolve, if_neg hguard, bind_pure_eq_error]
          simp

/-- A schema admits the conditions that have no fault. -/
theorem Table.admits_schema_iff {tb : Table} {t : TableName} {conditions : List Condition} :
    (tb.schema t).Admits conditions ↔ ∀ i, (tb.schema t).faultAt? conditions i = none := by
  constructor
  · intro h i
    rw [Schema.faultAt?, Option.bind_eq_none_iff]
    intro c hc
    obtain ⟨column, hcolumn, hname, haccepts⟩ := h.declared c (List.mem_of_getElem? hc)
    rw [fault?_eq_none_iff]
    refine ⟨⟨column, hcolumn, hname, haccepts⟩, fun hseeds => ?_⟩
    obtain rfl : i = 0 := of_decide_eq_true hseeds
    exact h.seeded c (by rw [← hc, List.head?_eq_getElem?])
  · intro h
    have hsound {i : Nat} {c : Condition} (hc : conditions[i]? = some c) :=
      fault?_eq_none_iff.mp (Option.bind_eq_none_iff.mp (h i) c hc)
    refine ⟨fun c hc => ?_, fun c hc => ?_⟩
    · obtain ⟨i, hi⟩ := List.getElem?_of_mem hc
      exact (hsound hi).1
    · exact (hsound (List.head?_eq_getElem? ▸ hc)).2 rfl

/-! ### Plans read off a store -/

namespace StoreM

variable {α β : Type} {σ : Session}

/-- A sequence of programs that only look is a sequence of checks. -/
theorem exec_bind_of_exec {x : StoreM α} {f : α → StoreM β} {r : Except Error α}
    {g : α → Except Error β} (hx : x.exec σ = (r, σ)) (hf : ∀ a, (f a).exec σ = (g a, σ)) :
    (x >>= f).exec σ = (r >>= g, σ) := by
  cases r with
  | error e => exact exec_bind_error hx
  | ok a => rw [exec_bind_ok hx, hf]; rfl

end StoreM

namespace Store

open StoreM

variable {s : Store} {t : TableName}

/-- Whether a table is there, which is asked of its schema only. -/
def ensure (s : Store) (t : TableName) : Except Error Unit :=
  if s.keyType (Key.schema t).text = .hash then .ok () else .error (.tableNotFound t)

/-- The types of the columns of a table, as its schema gives them. -/
def columnTypes (s : Store) (t : TableName) : Except Error (OrderedMap String ColumnType) :=
  return (← (s.hgetall (Key.schema t).text).mapError .store).mapValues ColumnType.ofStored

/-- The names of the indexed columns of a table. -/
def indexedColumns (s : Store) (t : TableName) : Except Error (OrderedSet String) :=
  (s.smembers (Key.indexed t).text).mapError .store

/-- The plan of a query, read off the schema of the table and the names of its indexed columns. -/
def plan (s : Store) (t : TableName) (w : Option WhereClause) : Except Error Plan := do
  s.ensure t
  match w with
  | none => return [.seed .all]
  | some w => Plan.ofClause t (← s.columnTypes t) (← s.indexedColumns t) w

theorem exec_ensureTable_eq (s : Store) (t : TableName) :
    (Catalog.ensureTable t).exec ⟨s, none⟩ = (s.ensure t, ⟨s, none⟩) := by
  have hexists : (Catalog.tableExists t).exec ⟨s, none⟩ =
      (.ok (decide (s.keyType (Key.schema t).text = .hash)), ⟨s, none⟩) := rfl
  unfold Catalog.ensureTable ensure
  rw [exec_bind_ok hexists]
  by_cases h : s.keyType (Key.schema t).text = .hash
  · simp only [h, decide_true, if_true]
    rfl
  · simp only [h, decide_false, if_false]
    rfl

theorem exec_columnTypes (s : Store) (t : TableName) :
    (Catalog.columnTypes t).exec ⟨s, none⟩ = (s.columnTypes t, ⟨s, none⟩) :=
  exec_bind_of_exec (exec_look .hgetall _ s) fun _ => rfl

theorem exec_indexedColumns (s : Store) (t : TableName) :
    (Catalog.indexedColumns t).exec ⟨s, none⟩ = (s.indexedColumns t, ⟨s, none⟩) :=
  exec_look .smembers (·.smembers (Key.indexed t).text) s

theorem exec_ofQuery (s : Store) (t : TableName) (w : Option WhereClause) :
    (Plan.ofQuery t w).exec ⟨s, none⟩ = (s.plan t w, ⟨s, none⟩) := by
  cases w with
  | none => exact exec_bind_of_exec (exec_ensureTable_eq s t) fun _ => rfl
  | some w =>
      refine exec_bind_of_exec (exec_ensureTable_eq s t) fun _ => ?_
      refine exec_bind_of_exec (exec_columnTypes s t) fun types => ?_
      exact exec_bind_of_exec (exec_indexedColumns s t) fun indexed => exec_ofExcept _ _

theorem exec_describe (s : Store) (t : TableName) :
    (Catalog.describe t).exec ⟨s, none⟩ = (do
      s.ensure t
      let indexed ← s.indexedColumns t
      let types ← s.columnTypes t
      return Schema.ofColumns t <|
        types.toList.map fun b => ⟨b.1, b.2, indexed.contains b.1⟩, ⟨s, none⟩) := by
  refine exec_bind_of_exec (exec_ensureTable_eq s t) fun _ => ?_
  refine exec_bind_of_exec (exec_indexedColumns s t) fun indexed => ?_
  exact exec_bind_of_exec (exec_columnTypes s t) fun types => rfl

/-- A plan depends on two keys. -/
theorem plan_congr {s' : Store}
    (hschema : s.get? (Key.schema t).text = s'.get? (Key.schema t).text)
    (hindexed : s.get? (Key.indexed t).text = s'.get? (Key.indexed t).text)
    (w : Option WhereClause) : s.plan t w = s'.plan t w := by
  have hensure : s.ensure t = s'.ensure t := by rw [ensure, ensure, keyType, keyType, hschema]
  have htypes : s.columnTypes t = s'.columnTypes t := by
    rw [columnTypes, columnTypes, hgetall, hgetall, hschema]
  have hnames : s.indexedColumns t = s'.indexedColumns t := by
    rw [indexedColumns, indexedColumns, smembers, smembers, hindexed]
  unfold plan
  rw [hensure, htypes, hnames]

/-- A schema that a reachable store holds is that of a table, under the name at hand or a namesake
of it. -/
theorem Reachable.exists_columns (h : s.Reachable)
    (htable : s.keyType (Key.schema t).text = .hash) :
    ∃ tb : Table, s.columnTypes t = .ok tb.columns ∧ s.indexedColumns t = .ok tb.indexed := by
  obtain ⟨db, hdb, hs⟩ := h.exists_database
  obtain ⟨t', hfull, ht'⟩ := hs.exists_namesake hdb htable
  have htag := hdb.tagged ((hs.hasTable_iff hdb).mp ht')
  have hschema : s.hgetall (Key.schema t').text = .ok (db.table t').image.types :=
    hgetall_eq (hs.get?_of_table (k := .schema t') htag.1 rfl)
  have hindexed : s.smembers (Key.indexed t').text = .ok (db.table t').indexed :=
    smembers_eq (hs.get?_of_table (k := .indexed t') htag rfl)
  have hkeys : (Key.schema t).text = (Key.schema t').text ∧
      (Key.indexed t).text = (Key.indexed t').text := by
    simp only [Key.text, hfull, and_self]
  refine ⟨db.table t', ?_, ?_⟩
  · rw [columnTypes, hkeys.1, hschema, ← Table.ofStored_types]
    rfl
  · rw [indexedColumns, hkeys.2, hindexed]
    rfl

/-- The planner accepts a clause on a table if every condition is about a column of the schema that
a view shows, with a value of its type, and the first is no equality on a column shown without an
index. Otherwise the table is missing, or the error is the fault of the leftmost condition that has
any. Two stores with the same schema and the same indexed columns plan alike. -/
theorem Reachable.plan_exact (h : s.Reachable) (t : TableName) (w : Option WhereClause) :
    let conditions := w.elim [] WhereClause.conditions
    (∃ outcome, (Plan.ofQuery t w).exec ⟨s, none⟩ = (outcome, ⟨s, none⟩) ∧
      (s.keyType (Key.schema t).text ≠ .hash → outcome = .error (.tableNotFound t)) ∧
      (s.keyType (Key.schema t).text = .hash → ∃ schema,
        (Catalog.describe t).exec ⟨s, none⟩ = (.ok schema, ⟨s, none⟩) ∧
        s.Shows t schema.columns ∧
        ((∃ plan, outcome = .ok plan) ↔ schema.Admits conditions) ∧
        ∀ e, outcome = .error e ↔ Leftmost (schema.faultAt? conditions) e)) ∧
    ∀ s₁ s₂ : Store, s₁.get? (Key.schema t).text = s₂.get? (Key.schema t).text →
      s₁.get? (Key.indexed t).text = s₂.get? (Key.indexed t).text →
      ((Plan.ofQuery t w).exec ⟨s₁, none⟩).1 = ((Plan.ofQuery t w).exec ⟨s₂, none⟩).1 := by
  intro conditions
  refine ⟨⟨s.plan t w, exec_ofQuery s t w, fun hnone => ?_, fun htable => ?_⟩, ?_⟩
  · unfold plan
    rw [ensure, if_neg hnone]
    rfl
  · obtain ⟨tb, htypes, hindexed⟩ := h.exists_columns htable
    have hensure : s.ensure t = .ok () := if_pos htable
    have herror (e : Error) : s.plan t w = .error e ↔
        Leftmost ((tb.schema t).faultAt? conditions) e := by
      unfold plan
      rw [hensure]
      cases w with
      | none =>
          refine iff_of_false (fun h => by cases h) ?_
          rintro ⟨i, hi, -⟩
          cases hi
      | some w =>
          rw [htypes, hindexed]
          exact Plan.ofClause_eq_error_iff
    have hdescribe : (Catalog.describe t).exec ⟨s, none⟩ = (.ok (tb.schema t), ⟨s, none⟩) := by
      rw [exec_describe, hensure, htypes, hindexed]
      rfl
    refine ⟨tb.schema t, hdescribe, fun config => exec_bind_ok hdescribe, ?_, herror⟩
    rw [exists_eq_ok_iff, Table.admits_schema_iff, ← forall_not_leftmost_iff]
    exact forall_congr' fun e => not_congr (herror e)
  · intro s₁ s₂ hschema hindexed
    rw [exec_ofQuery, exec_ofQuery, plan_congr hschema hindexed]

/-- Of a value of the wrong type and a column that is not declared, the value comes first. -/
theorem sample_plan_exact :
    let t : TableName := ⟨"app", "users"⟩
    let w : WhereClause :=
      ⟨⟨"name", .eq, "ann"⟩, [(.and, ⟨"age", .gt, "x"⟩), (.or, ⟨"height", .eq, "1"⟩)]⟩
    sample.Reachable ∧ (Plan.ofQuery t (some w)).exec ⟨sample, none⟩ =
      (.error (.typeMismatch "age" .integer "x"), ⟨sample, none⟩) := by
  intro t w
  obtain ⟨⟨outcome, hexec, -, hplan⟩, -⟩ := sample_reachable.plan_exact t (some w)
  obtain ⟨schema, hdescribe, -, -, herror⟩ := hplan (of_decide_eq_true (by cbv))
  have hschema : (Catalog.describe t).exec ⟨sample, none⟩ =
      (.ok ⟨t, [⟨"age", .integer, false⟩, ⟨"name", .string, true⟩]⟩, ⟨sample, none⟩) := by
    cbv
  obtain rfl := Except.ok.inj (Prod.mk.inj (hdescribe.symm.trans hschema)).1
  refine ⟨sample_reachable, ?_⟩
  rw [hexec, (herror (.typeMismatch "age" .integer "x")).mpr ⟨1, by decide +kernel, fun j hj => ?_⟩]
  obtain rfl := Nat.lt_one_iff.mp hj
  decide +kernel

end Store

end Tabular
