import Tabular.Proofs.Parse
import Tabular.Proofs.Query

/-!
Queries on keys that have lost something. What a query finds is said here of any image, whether it
is of a table or not (`runs_rows_on`). An image below another one, which has lost rows, fields of
rows and members of index sets, gives a query no more candidates at any step. So a query that
succeeds on the one succeeds on the other, it finds no row more there, and the rows that have lost
nothing it finds in both (`Image.Below.rows`).
-/

namespace Tabular

/-! ### What queries find on an image -/

/-- An access by index names its column without a colon. -/
def Access.Plain : Access → Prop
  | .lookup column _ => ':' ∉ column.toList
  | .all | .scan _ _ => True

def Step.Plain : Step → Prop
  | .seed a | .union a => a.Plain
  | .narrow _ _ => True

namespace Image

open Reference (within)

/-- All rows. -/
def live (img : Image) : RowSet := RowSet.ofStored img.members

/-- The rows under a column and a value. -/
def under (img : Image) (column value : String) : RowSet :=
  RowSet.ofStored (img.index (column, value))

def access (img : Image) (limit : Nat) : Access → Except Error RowSet
  | .all => .ok img.live
  | .lookup column value => .ok (img.under column value)
  | .scan c type => within limit [img.live.size] (OrderedMap.filter (img.accepts c type) img.live)

def step (img : Image) (limit : Nat) (found : RowSet) : Step → Except Error RowSet
  | .seed a => img.access limit a
  | .narrow c type => within limit [found.size] (OrderedMap.filter (img.accepts c type) found)
  | .union a => return OrderedSet.union found (← img.access limit a)

/-- The rows that a query finds, in ascending order. Its plan goes by the columns of a table. -/
def rows (img : Image) (limit : Nat) (t : TableName) (tb : Table) (w : Option WhereClause) :
    Except Error (List RowId) := do
  let plan ← Reference.plan t tb w
  let found ← plan.foldlM (img.step limit) ∅
  return found.members

/-- Without a clause a query finds all rows that are there, whatever they hold. -/
theorem mem_rows_none {img : Image} {limit : Nat} {t : TableName} {tb : Table} {ids : List RowId}
    (h : img.rows limit t tb none = .ok ids) {id : RowId} (hid : id ≤ Text.maxNat64)
    (hlive : toString id ∈ img.members) : id ∈ ids := by
  obtain ⟨plan, hplan, h⟩ := bind_eq_ok.mp h
  obtain ⟨_, -, hplan⟩ := bind_eq_ok.mp hplan
  obtain rfl := Except.ok.inj hplan
  obtain rfl : img.live.members = ids := Except.ok.inj h
  rw [OrderedSet.mem_members, live, RowSet.ofStored, OrderedSet.mem_ofMembers, List.mem_filterMap]
  exact ⟨toString id, OrderedSet.mem_members.mpr hlive, Text.nat64?_toString hid⟩

end Image

namespace StoreM

variable {t : TableName} {l : Layout} {img : Image} {limit : Nat} {order : Enumeration RowId}

section
variable (ht : t.Tagged)
include ht

theorem runs_access_on {a : Access} (ha : a.Plain) :
    Runs (Query.accessBy order limit t a) (img.on t l) (img.access limit a) (img.on t l) := by
  have hall : Runs (Query.allRows t) (img.on t l) (.ok img.live) (img.on t l) :=
    (runs_smembers_rows _ ht).bind (Runs.ret _)
  cases a with
  | all => exact hall
  | lookup column value => exact (runs_smembers_index _ ht ha value).bind (Runs.ret _)
  | scan c type => exact hall.bind (runs_filterRows_on ht img c type _)

theorem runs_step_on {step : Step} (hstep : step.Plain) (found : RowSet) :
    Runs (Query.stepBy order limit t found step) (img.on t l) (img.step limit found step)
      (img.on t l) := by
  cases step with
  | seed a => exact runs_access_on ht hstep
  | narrow c type => exact runs_filterRows_on ht img c type found
  | union a => exact Runs.check (runs_access_on ht hstep) fun _ _ => Runs.ret _

theorem runs_steps_on {plan : Plan} (hplan : ∀ step ∈ plan, step.Plain) (found : RowSet) :
    Runs (plan.foldlM (Query.stepBy order limit t) found) (img.on t l)
      (plan.foldlM (img.step limit) found) (img.on t l) := by
  induction plan generalizing found with
  | nil => exact Runs.ret found
  | cons step rest ih =>
      obtain ⟨hstep, hrest⟩ := List.forall_mem_cons.mp hplan
      rw [List.foldlM_cons, List.foldlM_cons]
      exact Runs.check (runs_step_on ht hstep found) fun found' _ => ih hrest found'

end

/-- A plan looks values up in indexed columns only. -/
theorem plain_of_plan {tb : Table} (hv : tb.Valid) {w : Option WhereClause} {plan : Plan}
    (h : Reference.plan t tb w = .ok plan) : ∀ step ∈ plan, step.Plain := by
  have haccess (c : Condition) (type : ColumnType) : (Access.ofCondition tb.indexed c type).Plain := by
    unfold Access.ofCondition
    split
    · next hserves => exact hv.indexed_name (OrderedMap.contains_iff.mp hserves.2)
    · trivial
  obtain ⟨_, -, h⟩ := bind_eq_ok.mp h
  cases w with
  | none =>
      obtain rfl := Except.ok.inj h
      exact List.forall_mem_singleton.mpr trivial
  | some w =>
      obtain ⟨type, steps, -, -, hsteps, rfl⟩ := Plan.ofClause_eq_ok.mp h
      refine List.forall_mem_cons.mpr ⟨haccess _ _, fun step hstep => ?_⟩
      obtain ⟨⟨connective, c⟩, hstep⟩ := Command.exists_of_mem_mapM hsteps hstep
      cases connective with
      | and =>
          obtain ⟨type, -, hstep⟩ := bind_eq_ok.mp hstep
          rw [← Except.ok.inj hstep]
          trivial
      | or =>
          obtain ⟨type, -, hstep⟩ := bind_eq_ok.mp hstep
          rw [← Except.ok.inj hstep]
          exact haccess c type

/-- A query on an image with the schema of a table. -/
theorem runs_rows_on {tb : Table} (hn : t.Names tb) (hv : tb.Valid)
    (htypes : img.types = tb.image.types) (hindexed : img.indexed = tb.indexed)
    (w : Option WhereClause) :
    Runs (Query.rowsBy order limit t w) (img.on t l) (img.rows limit t tb w) (img.on t l) := by
  have hensure := runs_ensureTable_of (l := l) htypes hn.proper
  have hplan : Runs (Plan.ofQuery t w) (img.on t l) (Reference.plan t tb w) (img.on t l) := by
    cases w with
    | none => exact Runs.check hensure fun _ _ => Runs.ret _
    | some w =>
        refine Runs.check hensure fun _ hthere => ?_
        have ht := hn.of_ensure hthere
        refine (runs_columnTypes_of htypes ht).bind ?_
        refine (runs_smembers_indexed _ ht).bind ?_
        rw [hindexed]
        exact Runs.of_except _
  refine Runs.check hplan fun plan h => ?_
  obtain ⟨_, hthere, -⟩ := bind_eq_ok.mp h
  have hsteps : Runs (Query.runBy order limit t plan) (img.on t l)
      (plan.foldlM (img.step limit) ∅) (img.on t l) :=
    runs_steps_on (hn.of_ensure hthere) (plain_of_plan hv h) ∅
  exact Runs.check hsteps fun found _ => Runs.ret _

end StoreM

/-! ### Images that have lost something -/

namespace Image

/-- An image that has no more than another one under any key of rows, and the same of the rows of a
family. -/
structure Below (img' img : Image) (kept : RowId → Prop) : Prop where
  members : ∀ {x}, x ∈ img'.members → x ∈ img.members
  index : ∀ {at_ x}, x ∈ img'.index at_ → x ∈ img.index at_
  row : ∀ id, img'.row id = img.row id ∨ img'.row id = ∅
  kept_members : ∀ {id x}, kept id → Text.nat64? x = some id → x ∈ img.members → x ∈ img'.members
  kept_index : ∀ {id x at_}, kept id → Text.nat64? x = some id →
    x ∈ img.index at_ → x ∈ img'.index at_
  kept_row : ∀ {id}, kept id → img'.row id = img.row id

/-- A set has no more rows than another one, and the same of the rows of a family. -/
def Fewer (kept : RowId → Prop) (found' found : RowSet) : Prop :=
  (∀ id ∈ found', id ∈ found) ∧ ∀ id ∈ found, kept id → id ∈ found'

open Reference (within)

theorem within_eq_ok {α : Type} {limit n : Nat} {a b : α} :
    within limit [n] a = .ok b ↔ n ≤ limit ∧ a = b := by
  unfold within
  simp only [List.mem_singleton, forall_eq]
  split
  · next h => simp [h]
  · next h => simp [h]

namespace Below

variable {img' img : Image} {kept : RowId → Prop} {found' found : RowSet} {limit : Nat}
variable (h : img'.Below img kept)
include h

omit h in
theorem stored {stored' stored : OrderedSet String} (hsub : ∀ x ∈ stored', x ∈ stored)
    (hkept : ∀ {id x}, kept id → Text.nat64? x = some id → x ∈ stored → x ∈ stored') :
    Fewer kept (RowSet.ofStored stored') (RowSet.ofStored stored) := by
  have hmem (set : OrderedSet String) (id : RowId) :
      id ∈ RowSet.ofStored set ↔ ∃ x ∈ set, Text.nat64? x = some id := by
    rw [RowSet.ofStored, OrderedSet.mem_ofMembers, List.mem_filterMap]
    simp only [OrderedSet.mem_members]
  refine ⟨fun id hid => ?_, fun id hid hk => ?_⟩
  · obtain ⟨x, hx, hread⟩ := (hmem stored' id).mp hid
    exact (hmem stored id).mpr ⟨x, hsub x hx, hread⟩
  · obtain ⟨x, hx, hread⟩ := (hmem stored id).mp hid
    exact (hmem stored' id).mpr ⟨x, hkept hk hread hx, hread⟩

theorem live : Fewer kept img'.live img.live := stored (fun _ => h.members) h.kept_members

theorem accepts {c : Condition} {type : ColumnType} {id : RowId}
    (hid : img'.accepts c type id = true) : img.accepts c type id = true := by
  unfold Image.accepts at *
  rcases h.row id with heq | hempty
  · rwa [heq] at hid
  · rw [hempty, OrderedMap.get?_empty] at hid
    cases hid

theorem filter (hfound : Fewer kept found' found) (c : Condition) (type : ColumnType) :
    Fewer kept (OrderedMap.filter (img'.accepts c type) found')
      (OrderedMap.filter (img.accepts c type) found) := by
  refine ⟨fun id hid => ?_, fun id hid hk => ?_⟩
  · obtain ⟨hid, haccepts⟩ := OrderedMap.mem_filter.mp hid
    exact OrderedMap.mem_filter.mpr ⟨hfound.1 id hid, h.accepts haccepts⟩
  · obtain ⟨hid, haccepts⟩ := OrderedMap.mem_filter.mp hid
    refine OrderedMap.mem_filter.mpr ⟨hfound.2 id hid hk, ?_⟩
    rwa [Image.accepts, h.kept_row hk]

theorem pass (hfound : Fewer kept found' found) {c : Condition} {type : ColumnType} {rest : RowSet}
    (hrest : within limit [found.size] (OrderedMap.filter (img.accepts c type) found) = .ok rest) :
    ∃ rest', within limit [found'.size] (OrderedMap.filter (img'.accepts c type) found') =
      .ok rest' ∧ Fewer kept rest' rest := by
  obtain ⟨hsize, rfl⟩ := within_eq_ok.mp hrest
  have hsize' : found'.size ≤ limit :=
    Nat.le_trans (OrderedMap.size_le_of_subset hfound.1) hsize
  exact ⟨_, within_eq_ok.mpr ⟨hsize', rfl⟩, h.filter hfound c type⟩

theorem access {a : Access} (hfound : img.access limit a = .ok found) :
    ∃ found', img'.access limit a = .ok found' ∧ Fewer kept found' found := by
  cases a with
  | all =>
      obtain rfl := Except.ok.inj hfound
      exact ⟨_, rfl, h.live⟩
  | lookup column value =>
      obtain rfl := Except.ok.inj hfound
      exact ⟨_, rfl, stored (fun _ => h.index) h.kept_index⟩
  | scan c type => exact h.pass h.live hfound

theorem step {before' before : RowSet} (hbefore : Fewer kept before' before) {step : Step}
    (hfound : img.step limit before step = .ok found) :
    ∃ found', img'.step limit before' step = .ok found' ∧ Fewer kept found' found := by
  cases step with
  | seed a => exact h.access hfound
  | narrow c type => exact h.pass hbefore hfound
  | union a =>
      obtain ⟨more, hmore, hfound⟩ := bind_eq_ok.mp hfound
      obtain rfl := Except.ok.inj hfound
      obtain ⟨more', hmore', hfewer⟩ := h.access hmore
      refine ⟨_, bind_eq_ok.mpr ⟨more', hmore', rfl⟩, fun id hid => ?_, fun id hid hk => ?_⟩
      · exact OrderedSet.mem_union.mpr
          ((OrderedSet.mem_union.mp hid).imp (hbefore.1 id) (hfewer.1 id))
      · exact OrderedSet.mem_union.mpr
          ((OrderedSet.mem_union.mp hid).imp (hbefore.2 id · hk) (hfewer.2 id · hk))

theorem steps {before' before : RowSet} (hbefore : Fewer kept before' before) {plan : Plan}
    (hfound : plan.foldlM (img.step limit) before = .ok found) :
    ∃ found', plan.foldlM (img'.step limit) before' = .ok found' ∧ Fewer kept found' found := by
  induction plan generalizing before' before with
  | nil =>
      obtain rfl := Except.ok.inj hfound
      exact ⟨before', rfl, hbefore⟩
  | cons step rest ih =>
      rw [List.foldlM_cons] at hfound
      obtain ⟨next, hnext, hfound⟩ := bind_eq_ok.mp hfound
      obtain ⟨next', hnext', hfewer⟩ := h.step hbefore hnext
      obtain ⟨found', hfound', hend⟩ := ih hfewer hfound
      refine ⟨found', ?_, hend⟩
      rw [List.foldlM_cons]
      exact bind_eq_ok.mpr ⟨next', hnext', hfound'⟩

/-- A query that succeeds on an image succeeds on one below it. It finds no row more there, and the
rows that have lost nothing again. -/
theorem rows {t : TableName} {tb : Table} {w : Option WhereClause} {ids : List RowId}
    (hids : img.rows limit t tb w = .ok ids) :
    ∃ ids', img'.rows limit t tb w = .ok ids' ∧ (∀ id ∈ ids', id ∈ ids) ∧
      ∀ id ∈ ids, kept id → id ∈ ids' := by
  obtain ⟨plan, hplan, hids⟩ := bind_eq_ok.mp hids
  obtain ⟨found, hfound, hids⟩ := bind_eq_ok.mp hids
  obtain rfl := Except.ok.inj hids
  have hnone : Fewer kept (∅ : RowSet) ∅ := ⟨fun _ => id, fun _ hid _ => hid⟩
  obtain ⟨found', hfound', hfewer⟩ := h.steps hnone hfound
  refine ⟨found'.members, ?_, hfewer⟩
  exact bind_eq_ok.mpr ⟨plan, hplan, bind_eq_ok.mpr ⟨found', hfound', rfl⟩⟩

end Below

end Image

end Tabular
