import Tabular.Proofs.Catalog

/-!
Queries at work on the keys of a table. A filter keeps the rows that satisfy its condition if it
meets no more than the limit, in whatever order it looks at them, an index gives the rows that hold
the value, and so the plan of a clause finds what the clause means (`runs_rows`).
-/

namespace Tabular

namespace Table

variable {tb : Table} {c : Condition} {type : ColumnType}

theorem satisfies_eq (htype : tb.columns.get? c.column = some type) (id : RowId) :
    tb.satisfies c id = (tb.cell id c.column).any (c.accepts type) := by
  rw [satisfies, htype]
  cases tb.cell id c.column <;> rfl

/-- A filter looks at the members of a set one by one, in any order. -/
theorem ofMembers_filter (p : RowId → Bool) {ids : List RowId} {found : RowSet}
    (hids : ids.Perm found.members) :
    OrderedSet.ofMembers (ids.filter p) = OrderedMap.filter p found := by
  apply OrderedSet.ext_mem
  intro id
  rw [OrderedSet.mem_ofMembers, List.mem_filter, OrderedMap.mem_filter, hids.mem_iff,
    OrderedSet.mem_members]

end Table

/-- Whether a row of an image has a value that a condition accepts. -/
def Image.accepts (img : Image) (c : Condition) (type : ColumnType) (id : RowId) : Bool :=
  ((img.row id).get? c.column).any (c.accepts type)

/-- A condition resolves to the type of its column if its value is of that type. -/
theorem Condition.resolve_eq_ok {t : TableName} {types : OrderedMap String ColumnType}
    {c : Condition} {type : ColumnType} :
    c.resolve t types = .ok type ↔
      types.get? c.column = some type ∧ type.accepts c.value = true := by
  unfold resolve ColumnType.check
  cases types.get? c.column with
  | none => exact iff_of_false (fun h => by cases h) (fun h => by cases h.1)
  | some type' =>
      rw [bind_eq_ok]
      by_cases ha : type'.accepts c.value
      · constructor
        · rintro ⟨_, -, h⟩
          obtain rfl : type' = type := Except.ok.inj h
          exact ⟨rfl, ha⟩
        · rintro ⟨h, -⟩
          obtain rfl := Option.some.inj h
          exact ⟨(), if_pos ha, rfl⟩
      · refine iff_of_false ?_ ?_
        · rintro ⟨_, h, -⟩
          rw [if_neg ha] at h
          cases h
        · rintro ⟨h, ha'⟩
          obtain rfl := Option.some.inj h
          exact ha ha'

/-- A clause has a plan if all its conditions resolve and the first is no equality without an
index. -/
theorem Plan.ofClause_eq_ok {t : TableName} {types : OrderedMap String ColumnType}
    {indexed : OrderedSet String} {w : WhereClause} {plan : Plan} :
    Plan.ofClause t types indexed w = .ok plan ↔
      ∃ type steps, w.first.resolve t types = .ok type ∧
        (w.first.op = .eq → w.first.column ∈ indexed) ∧
        w.rest.mapM (Plan.stepOf t types indexed) = .ok steps ∧
        .seed (.ofCondition indexed w.first type) :: steps = plan := by
  have hguard : ¬ (w.first.op = .eq ∧ (!indexed.contains w.first.column) = true) ↔
      (w.first.op = .eq → w.first.column ∈ indexed) := by
    rw [OrderedMap.contains_eq_decide, not_and]
    simp
  unfold ofClause
  rw [bind_eq_ok]
  constructor
  · rintro ⟨type, hresolve, h⟩
    split at h
    · cases h
    · next hindexed =>
        obtain ⟨steps, hsteps, h⟩ := bind_eq_ok.mp h
        exact ⟨type, steps, hresolve, hguard.mp hindexed, hsteps, Except.ok.inj h⟩
  · rintro ⟨type, steps, hresolve, hindexed, hsteps, rfl⟩
    refine ⟨type, hresolve, ?_⟩
    rw [if_neg (hguard.mpr hindexed)]
    exact bind_eq_ok.mpr ⟨steps, hsteps, rfl⟩

namespace StoreM

open Reference (within)

variable {t : TableName} {left : Leftovers} {l : Layout} {tb : Table} {limit : Nat}
variable {order : Enumeration RowId}
variable (ht : t.Tagged) (hv : tb.Valid)

omit ht hv in
/-- Filters one after another meet what each of them meets. -/
theorem Runs.bind_within {α β : Type} {x : StoreM α} {f : α → StoreM β} {passes passes' : List Nat}
    {a : α} {b : β} (hx : Runs x l (within limit passes a) l)
    (hf : Runs (f a) l (within limit passes' b) l) :
    Runs (x >>= f) l (within limit (passes ++ passes') b) l := by
  unfold within at *
  by_cases h : ∀ n ∈ passes, n ≤ limit
  · rw [if_pos h] at hx
    have hiff : (∀ n ∈ passes ++ passes', n ≤ limit) ↔ ∀ n ∈ passes', n ≤ limit := by
      simp only [List.forall_mem_append, and_iff_right h]
    simp only [hiff]
    exact hx.bind hf
  · rw [if_neg h] at hx
    rw [if_neg fun h' => h (List.forall_mem_append.mp h').1]
    exact hx.bind_error

omit ht hv in
/-- What comes after the filters meets no more. -/
theorem Runs.map_within {α β : Type} {x : StoreM α} {passes : List Nat} {a : α}
    (hx : Runs x l (within limit passes a) l) (f : α → β) :
    Runs (x >>= fun a => pure (f a)) l (within limit passes (f a)) l := by
  unfold within at *
  by_cases h : ∀ n ∈ passes, n ≤ limit
  · rw [if_pos h] at hx ⊢
    exact hx.bind (Runs.ret (f a))
  · rw [if_neg h] at hx ⊢
    exact hx.bind_error

section
include ht

theorem runs_satisfying (img : Image) (limit : Nat) (c : Condition) (type : ColumnType)
    (budget : Nat) (ids : List RowId) :
    Runs (Query.satisfying limit t c type budget ids) (img.on t l)
      (if ids.length ≤ budget then .ok (ids.filter (img.accepts c type))
        else .error (.scanLimitExceeded limit))
      (img.on t l) := by
  induction ids generalizing budget with
  | nil =>
      have hlen : ([] : List RowId).length ≤ budget := Nat.zero_le budget
      rw [if_pos hlen, Query.satisfying]
      exact Runs.ret []
  | cons id rest ih =>
      cases budget with
      | zero =>
          have hlen : ¬ (id :: rest).length ≤ 0 := Nat.not_succ_le_zero _
          rw [if_neg hlen]
          exact Runs.throw _
      | succ budget =>
          have hget := runs_hget_row img (l := l) ht id c.column
          have hrest := ih budget
          simp only [List.length_cons, Nat.add_le_add_iff_right]
          refine hget.bind ?_
          by_cases hlen : rest.length ≤ budget
          · rw [if_pos hlen] at hrest ⊢
            refine hrest.bind ?_
            rw [List.filter_cons]
            exact Runs.ret _
          · rw [if_neg hlen] at hrest ⊢
            exact hrest.bind_error

/-- A filter keeps the rows with a value that the condition accepts, of whatever image. -/
theorem runs_filterRows_on (img : Image) (c : Condition) (type : ColumnType) (found : RowSet) :
    Runs (Query.filterRowsBy order limit t c type found) (img.on t l)
      (within limit [found.size] (OrderedMap.filter (img.accepts c type) found))
      (img.on t l) := by
  have hids := order.perm found
  have hpass : Runs _ (img.on t l) _ _ :=
    runs_satisfying ht img limit c type limit (order.list found)
  have hlen : (order.list found).length = found.size :=
    hids.length_eq.trans (OrderedMap.length_keys found)
  rw [hlen] at hpass
  unfold within
  simp only [List.mem_singleton, forall_eq]
  by_cases hsize : found.size ≤ limit
  · rw [if_pos hsize] at hpass ⊢
    refine hpass.bind ?_
    rw [Table.ofMembers_filter _ hids]
    exact Runs.ret _
  · rw [if_neg hsize] at hpass ⊢
    exact hpass.bind_error

theorem runs_filterRows {c : Condition} {type : ColumnType}
    (htype : tb.columns.get? c.column = some type) (found : RowSet) :
    Runs (Query.filterRowsBy order limit t c type found) ((tb.imageOver left).on t l)
      (within limit [found.size] (OrderedMap.filter (tb.satisfies c) found))
      ((tb.imageOver left).on t l) := by
  have hsatisfies : tb.satisfies c = (tb.imageOver left).accepts c type :=
    funext fun id => Table.satisfies_eq htype id
  rw [hsatisfies]
  exact runs_filterRows_on ht _ c type found

end

section
include ht hv

/-- All rows are read off one key, whatever the others hold. -/
theorem runs_allRows {img : Image} (himg : img.members = tb.ids.texts) :
    Runs (Query.allRows t) (img.on t l) (.ok tb.ids) (img.on t l) := by
  refine (runs_smembers_rows _ ht).bind ?_
  rw [himg, RowSet.ofStored_texts fun _ hid => hv.id_le hid]
  exact Runs.ret _

/-- The index of a column gives the rows that hold the value. -/
theorem runs_lookupRows {column : String} (hcolumn : column ∈ tb.indexed) (value : String) :
    Runs (Query.lookupRows t column value) ((tb.imageOver left).on t l)
      (.ok (tb.holding column value)) ((tb.imageOver left).on t l) := by
  have hname := hv.indexed_name hcolumn
  refine (runs_smembers_index _ ht hname value).bind ?_
  have hindex : (tb.imageOver left).index (column, value) = (tb.holding column value).texts :=
    if_pos hcolumn
  have hread : RowSet.ofStored (tb.holding column value).texts = tb.holding column value :=
    RowSet.ofStored_texts fun id hid =>
      hv.id_le (Table.mem_ids.mpr (Table.mem_rows_of_cell (Table.mem_holding.mp hid)))
  rw [hindex, hread]
  exact Runs.ret _

/-- What a condition finds on its own does not depend on how it is accessed, but for the limit. -/
theorem runs_access (limit : Nat) {c : Condition} {type : ColumnType}
    (htype : tb.columns.get? c.column = some type) :
    Runs (Query.accessBy order limit t (.ofCondition tb.indexed c type)) ((tb.imageOver left).on t l)
      (within limit (tb.ownPasses c) (tb.fullMatch c)) ((tb.imageOver left).on t l) := by
  have hserves : (c.op = .eq ∧ tb.indexed.contains c.column = true) ↔ tb.Serves c := by
    rw [OrderedMap.contains_iff]
    rfl
  unfold Access.ofCondition Table.fullMatch Table.ownPasses within
  by_cases h : tb.Serves c
  · simp only [if_pos (hserves.mpr h), if_pos h]
    exact runs_lookupRows ht hv h.2 c.value
  · simp only [if_neg (fun h' => h (hserves.mp h')), if_neg h]
    exact (runs_allRows ht hv rfl).bind (runs_filterRows ht htype tb.ids)

/-- One more condition of a clause, once it is resolved. -/
theorem runs_step {c : Connective × Condition} {step : Step} (found : RowSet)
    (hstep : Plan.stepOf t tb.columns tb.indexed c = .ok step) :
    Runs (Query.stepBy order limit t found step) ((tb.imageOver left).on t l)
      (within limit (tb.stepPasses found c) (tb.advance found c)) ((tb.imageOver left).on t l) := by
  obtain ⟨connective, c⟩ := c
  cases connective with
  | and =>
      obtain ⟨type, hresolve, hstep⟩ := bind_eq_ok.mp hstep
      obtain rfl : Step.narrow c type = step := Except.ok.inj hstep
      obtain ⟨htype, -⟩ := Condition.resolve_eq_ok.mp hresolve
      exact runs_filterRows ht htype found
  | or =>
      obtain ⟨type, hresolve, hstep⟩ := bind_eq_ok.mp hstep
      obtain rfl : Step.union (.ofCondition tb.indexed c type) = step := Except.ok.inj hstep
      obtain ⟨htype, -⟩ := Condition.resolve_eq_ok.mp hresolve
      exact (runs_access ht hv limit htype).map_within (OrderedSet.union found)

theorem runs_steps {rest : List (Connective × Condition)} {steps : Plan} (found : RowSet)
    (hsteps : rest.mapM (Plan.stepOf t tb.columns tb.indexed) = .ok steps) :
    Runs (steps.foldlM (Query.stepBy order limit t) found) ((tb.imageOver left).on t l)
      (within limit (tb.restPasses found rest) (rest.foldl tb.advance found))
      ((tb.imageOver left).on t l) := by
  induction rest generalizing found steps with
  | nil =>
      obtain rfl : [] = steps := Except.ok.inj hsteps
      exact Runs.ret _
  | cons c rest ih =>
      rw [List.mapM_cons] at hsteps
      obtain ⟨step, hstep, hsteps⟩ := bind_eq_ok.mp hsteps
      obtain ⟨more, hmore, hsteps⟩ := bind_eq_ok.mp hsteps
      obtain rfl : step :: more = steps := Except.ok.inj hsteps
      rw [List.foldlM_cons]
      exact (runs_step ht hv found hstep).bind_within (ih _ hmore)

/-- The plan of a clause finds the rows that the clause means. -/
theorem runs_plan (limit : Nat) {w : WhereClause} {plan : Plan}
    (hplan : Plan.ofClause t tb.columns tb.indexed w = .ok plan) :
    Runs (Query.runBy order limit t plan) ((tb.imageOver left).on t l)
      (within limit (tb.passes (some w)) (tb.meaning (some w))) ((tb.imageOver left).on t l) := by
  obtain ⟨type, steps, hresolve, -, hsteps, rfl⟩ := Plan.ofClause_eq_ok.mp hplan
  obtain ⟨htype, -⟩ := Condition.resolve_eq_ok.mp hresolve
  rw [Query.runBy, List.foldlM_cons]
  exact (runs_access ht hv limit htype).bind_within (runs_steps ht hv _ hsteps)

end

theorem runs_ofQuery (hn : t.Names tb) (w : Option WhereClause) :
    Runs (Plan.ofQuery t w) ((tb.imageOver left).on t l) (Reference.plan t tb w)
      ((tb.imageOver left).on t l) := by
  cases w with
  | none => exact Runs.check (runs_ensureTable hn.proper) fun _ _ => Runs.ret _
  | some w =>
      refine Runs.check (runs_ensureTable hn.proper) fun _ hensure => ?_
      have ht := hn.of_ensure hensure
      refine (runs_columnTypes ht).bind ?_
      exact (runs_indexedColumns ht).bind (Runs.of_except _)

/-- A query finds what its clause means, if the clause is accepted and no filter meets too many
candidates. -/
theorem runs_rows (hn : t.Names tb) (hv : tb.Valid) (w : Option WhereClause) :
    Runs (Query.rowsBy order limit t w) ((tb.imageOver left).on t l) (Reference.rows limit t tb w)
      ((tb.imageOver left).on t l) := by
  refine Runs.check (runs_ofQuery hn w) fun plan hplan => ?_
  obtain ⟨_, hensure, hplan⟩ := bind_eq_ok.mp hplan
  have ht := hn.of_ensure hensure
  cases w with
  | none =>
      obtain rfl : [.seed .all] = plan := Except.ok.inj hplan
      exact ((runs_allRows ht hv rfl).bind (Runs.ret _)).bind (Runs.ret _)
  | some w =>
      exact (runs_plan ht hv limit hplan).map_within OrderedSet.members

end StoreM

end Tabular
