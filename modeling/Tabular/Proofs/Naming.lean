import Tabular.Proofs.Insertion
import Tabular.Proofs.Keyspace

/-!
Names that write out alike. The keys of a table tell its full name, and not where the namespace
ends in it. Programs that are given one name or another with the same full name do the same, and
they fail together, each with the name it was given in its error (`agree_insert`,
`agree_select`). So a schema in a store that commands can reach is that of a table even if the name
at hand is not as commands read it (`Holds.exists_namesake`).
-/

namespace Tabular

/-! ### Programs that differ in their errors -/

namespace StoreM

variable {α β : Type} {p p' : StoreM α} {f f' : α → StoreM β}

/-- Two programs do the same, except that they may fail with different errors. -/
def Agree (p p' : StoreM α) : Prop :=
  ∀ σ, (∃ a σ', p.exec σ = (.ok a, σ') ∧ p'.exec σ = (.ok a, σ')) ∨
    ∃ e e' σ', p.exec σ = (.error e, σ') ∧ p'.exec σ = (.error e', σ')

namespace Agree

theorem refl (p : StoreM α) : Agree p p := by
  intro σ
  rcases hp : p.exec σ with ⟨e | a, σ'⟩
  · exact Or.inr ⟨e, e, σ', rfl, rfl⟩
  · exact Or.inl ⟨a, σ', rfl, rfl⟩

theorem throw (e e' : Error) : Agree (throw e : StoreM α) (throw e') :=
  fun σ => Or.inr ⟨e, e', σ, rfl, rfl⟩

theorem of_except {r r' : Except Error α} (h : ∀ a, r = .ok a ↔ r' = .ok a) :
    Agree (ofExcept r) (ofExcept r') := by
  intro σ
  rw [exec_ofExcept, exec_ofExcept]
  cases r with
  | ok a => exact Or.inl ⟨a, σ, rfl, by rw [(h a).mp rfl]⟩
  | error e =>
      cases r' with
      | ok a => cases (h a).mpr rfl
      | error e' => exact Or.inr ⟨e, e', σ, rfl, rfl⟩

theorem bind (h : Agree p p') (hf : ∀ a, Agree (f a) (f' a)) : Agree (p >>= f) (p' >>= f') := by
  intro σ
  obtain ⟨a, σ', hp, hp'⟩ | ⟨e, e', σ', hp, hp'⟩ := h σ
  · rw [exec_bind_ok hp, exec_bind_ok hp']
    exact hf a σ'
  · rw [exec_bind_error hp, exec_bind_error hp']
    exact Or.inr ⟨e, e', σ', rfl, rfl⟩

/-- Two programs that agree return the same values and leave the same sessions. -/
theorem exec_eq_ok_iff (h : Agree p p') {σ σ' : Session} {a : α} :
    p.exec σ = (.ok a, σ') ↔ p'.exec σ = (.ok a, σ') := by
  obtain ⟨_, _, hp, hp'⟩ | ⟨_, _, _, hp, hp'⟩ := h σ
  · rw [hp, hp']
  · rw [hp, hp']
    exact iff_of_false (fun heq => by cases heq) (fun heq => by cases heq)

end Agree

end StoreM

/-! ### Checks -/

section
variable {t t' : TableName} {types : OrderedMap String ColumnType} {indexed : OrderedSet String}

theorem Plan.stepOf_eq_ok_iff {c : Connective × Condition} {step : Step} :
    stepOf t types indexed c = .ok step ↔ stepOf t' types indexed c = .ok step := by
  obtain ⟨connective, c⟩ := c
  cases connective <;> simp only [stepOf, bind_eq_ok, Condition.resolve_eq_ok]

theorem Plan.mapM_stepOf_eq_ok_iff {cs : List (Connective × Condition)} {steps : Plan} :
    cs.mapM (stepOf t types indexed) = .ok steps ↔
      cs.mapM (stepOf t' types indexed) = .ok steps := by
  induction cs generalizing steps with
  | nil => rfl
  | cons c cs ih =>
      simp only [List.mapM_cons, bind_eq_ok, ih, @stepOf_eq_ok_iff t t']

theorem Plan.ofClause_eq_ok_iff {w : WhereClause} {plan : Plan} :
    ofClause t types indexed w = .ok plan ↔ ofClause t' types indexed w = .ok plan := by
  simp only [ofClause_eq_ok, Condition.resolve_eq_ok, @mapM_stepOf_eq_ok_iff t t']

end

/-! ### Namesakes -/

namespace StoreM

variable {t t' : TableName} (h : t.full = t'.full)
include h

theorem agree_ensureTable : Agree (Catalog.ensureTable t) (Catalog.ensureTable t') := by
  have hexists : Catalog.tableExists t = Catalog.tableExists t' := by
    simp only [Catalog.tableExists, Key.text, h]
  unfold Catalog.ensureTable
  rw [hexists]
  refine .bind (.refl _) fun found => ?_
  cases found
  · exact .throw _ _
  · exact .refl _

theorem agree_nextRowId : Agree (Engine.nextRowId t) (Engine.nextRowId t') := by
  simp only [Engine.nextRowId, Key.text, h]
  refine .bind (.refl _) fun n => ?_
  cases n with
  | ofNat n => exact .refl _
  | negSucc n => exact .throw _ _

theorem agree_insert (fields : List (String × String)) :
    Agree (Engine.insert t fields) (Engine.insert t' fields) := by
  have htypes : Catalog.columnTypes t = Catalog.columnTypes t' := by
    simp only [Catalog.columnTypes, Key.text, h]
  have hindexed : Catalog.indexedColumns t = Catalog.indexedColumns t' := by
    simp only [Catalog.indexedColumns, Key.text, h]
  unfold Engine.insert
  refine .bind (agree_ensureTable h) fun _ => ?_
  cases fields.isEmpty with
  | true => exact .throw _ _
  | false =>
      rw [htypes, hindexed]
      refine .bind (.refl _) fun types => ?_
      refine .bind (.of_except fun checked => ?_) fun checked => ?_
      · simp only [Engine.checkFields_eq_ok]
      refine .bind (.refl _) fun indexed => .bind (agree_nextRowId h) fun id => ?_
      simp only [Key.text, h]
      exact .refl _

theorem satisfying_eq (limit : Nat) (c : Condition) (type : ColumnType) (budget : Nat)
    (ids : List RowId) : Query.satisfying limit t c type budget ids =
      Query.satisfying limit t' c type budget ids := by
  induction ids generalizing budget with
  | nil => cases budget <;> rfl
  | cons id ids ih =>
      cases budget with
      | zero => rfl
      | succ budget => simp only [Query.satisfying, Key.text, h, ih]

theorem runBy_eq (order : Enumeration RowId) (limit : Nat) :
    Query.runBy order limit t = Query.runBy order limit t' := by
  have hall : Query.allRows t = Query.allRows t' := by simp only [Query.allRows, Key.text, h]
  have hlookup : Query.lookupRows t = Query.lookupRows t' := by
    funext column value
    simp only [Query.lookupRows, Key.text, h]
  have hfilter : Query.filterRowsBy order limit t = Query.filterRowsBy order limit t' := by
    funext c type ids
    simp only [Query.filterRowsBy, satisfying_eq h]
  have haccess : Query.accessBy order limit t = Query.accessBy order limit t' := by
    funext a
    cases a <;> simp only [Query.accessBy, hall, hlookup, hfilter]
  have hstep : Query.stepBy order limit t = Query.stepBy order limit t' := by
    funext ids step
    cases step <;> simp only [Query.stepBy, haccess, hfilter]
  funext plan
  simp only [Query.runBy, hstep]

theorem fetchAll_eq (ids : List RowId) : Engine.fetchAll t ids = Engine.fetchAll t' ids := by
  induction ids with
  | nil => rfl
  | cons id ids ih => simp only [Engine.fetchAll, Engine.fetch, Key.text, h, ih]

theorem agree_ofQuery (w : Option WhereClause) : Agree (Plan.ofQuery t w) (Plan.ofQuery t' w) := by
  cases w with
  | none => exact .bind (agree_ensureTable h) fun _ => .refl _
  | some w =>
      have htypes : Catalog.columnTypes t = Catalog.columnTypes t' := by
        simp only [Catalog.columnTypes, Key.text, h]
      have hindexed : Catalog.indexedColumns t = Catalog.indexedColumns t' := by
        simp only [Catalog.indexedColumns, Key.text, h]
      refine .bind (agree_ensureTable h) fun _ => ?_
      rw [htypes, hindexed]
      refine .bind (.refl _) fun types => .bind (.refl _) fun indexed => ?_
      exact .of_except fun plan => Plan.ofClause_eq_ok_iff

theorem agree_select (order : Enumeration RowId) (limit : Nat) (w : Option WhereClause) :
    Agree (Engine.selectBy order limit t w) (Engine.selectBy order limit t' w) := by
  have hrows : Agree (Query.rowsBy order limit t w) (Query.rowsBy order limit t' w) := by
    unfold Query.rowsBy
    rw [runBy_eq h]
    exact .bind (agree_ofQuery h w) fun _ => .refl _
  exact .bind hrows fun ids => fetchAll_eq h ids ▸ .refl _

theorem agree_columnType (column : String) :
    Agree (Catalog.columnType t column) (Catalog.columnType t' column) := by
  simp only [Catalog.columnType, Key.text, h]
  refine .bind (.refl _) fun type => ?_
  cases type with
  | none => exact .throw _ _
  | some type => exact .refl _

theorem agree_addIndex (order : Enumeration RowId) (column : String) :
    Agree (Engine.addIndexBy order t column) (Engine.addIndexBy order t' column) := by
  have hindex : Engine.indexRows t column = Engine.indexRows t' column := by
    funext ids
    induction ids with
    | nil => rfl
    | cons id ids ih => simp only [Engine.indexRows, Key.text, h, ih]
  refine .bind (agree_ensureTable h) fun _ => .bind (agree_columnType h column) fun _ => ?_
  simp only [Query.allRows, Key.text, h, hindex]
  exact .refl _

theorem agree_dropIndex (column : String) (pageSize : Nat) :
    Agree (Engine.dropIndex t column pageSize) (Engine.dropIndex t' column pageSize) := by
  refine .bind (agree_ensureTable h) fun _ => .bind (agree_columnType h column) fun _ => ?_
  simp only [TableName.indexPattern, Key.text, h]
  exact .refl _

end StoreM

namespace Store

variable {s : Store} {db : Database} {t : TableName}

/-- A schema is that of a table, if not under the name at hand, then under one with the same full
name. -/
theorem Holds.exists_namesake (hs : s.Holds db.layout) (hdb : db.Valid)
    (h : s.keyType (Key.schema t).text = .hash) : ∃ t', t.full = t'.full ∧ s.HasTable t' := by
  have hin : (Key.schema t).text ∈ s := by
    rw [OrderedMap.mem_iff_isSome]
    unfold Store.keyType at h
    split at h
    · cases h
    all_goals simp [*]
  obtain ⟨e, he⟩ := exists_of_mem hin
  have htype : e.type = .hash := (keyType_eq he).symm.trans h
  obtain ⟨k, hk, htext, hlayout⟩ := hs.exists_of_get? he
  rw [Database.type_of_layout hlayout] at htype
  cases htag : k.tag? with
  | some t' => exact (Key.text_ne_of_tag htag (show (Key.schema t).tag? = none from rfl) htext).elim
  | none =>
      cases k with
      | schema t' =>
          refine ⟨t', (Key.schemaText_inj.mp htext).symm, (hs.hasTable_iff hdb).mpr ?_⟩
          exact Database.mem_tables_of_layout rfl hlayout
      | marker ns => cases htype
      | _ => cases htag

end Store

end Tabular
