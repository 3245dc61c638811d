import Tabular.Proofs.Reachable

/-!
What a query answers on a store that commands can reach. The plan, its access paths and the limit
on filters come to one evaluation of the clause from left to right (`select_exact`).
-/

namespace Tabular

/-- A clause that is accepted is evaluated within the limit. -/
theorem Reference.select_of_plan {t : TableName} {tb : Table} {w : Option WhereClause} {plan : Plan}
    (hplan : Reference.plan t tb w = .ok plan) (limit : Nat) :
    select limit t tb w = within limit (tb.passes w) ((tb.meaning w).members.map tb.row) := by
  unfold select rows
  rw [hplan]
  show (within _ _ _ >>= fun ids => _) = _
  unfold within
  split <;> rfl

namespace Store

variable {s : Store} {db : Database} {t : TableName}

/-! ### Queries on a reachable store -/

theorem Holds.exec_ofQuery (hs : s.Holds db.layout) (ht : t.Tagged) (w : Option WhereClause) :
    (Plan.ofQuery t w).exec ⟨s, none⟩ = (Reference.plan t (db.table t) w, ⟨s, none⟩) := by
  have hn : t.Names (db.table t) := ⟨ht.1, fun _ => ht⟩
  have hruns : StoreM.Runs _ ((db.table t).image.on t db.layout) _
      ((db.table t).image.on t db.layout) := StoreM.runs_ofQuery hn w
  rw [← db.layout_on t] at hruns
  exact hruns.exec_eq hs

theorem Holds.exec_select_on {l : Layout} {tb : Table} (hs : s.Holds (tb.image.on t l))
    (ht : t.Tagged) (hv : tb.Valid) (limit : Nat) (w : Option WhereClause) :
    (Engine.select limit t w).exec ⟨s, none⟩ = (Reference.select limit t tb w, ⟨s, none⟩) := by
  have hruns : StoreM.Runs (Engine.select limit t w) (tb.image.on t l) _ (tb.image.on t l) :=
    StoreM.runs_select ⟨ht.1, fun _ => ht⟩ hv .ascending w
  exact hruns.exec_eq hs

theorem Holds.exec_select (hs : s.Holds db.layout) (ht : t.Tagged) (hv : (db.table t).Valid)
    (limit : Nat) (w : Option WhereClause) :
    (Engine.select limit t w).exec ⟨s, none⟩ =
      (Reference.select limit t (db.table t) w, ⟨s, none⟩) := by
  rw [db.layout_on t] at hs
  exact hs.exec_select_on ht hv limit w

/-- A query whose clause is accepted answers with the rows that the clause means, each once and in
ascending order with all its fields, unless a filter meets more candidates than the limit. -/
theorem Reachable.select_exact (h : s.Reachable) (ht : s.HasTable t) {w : Option WhereClause}
    {plan : Plan} (hplan : ((Plan.ofQuery t w).exec ⟨s, none⟩).1 = .ok plan) (limit : Nat) :
    ∃ rows : List Row,
      (Engine.select limit t w).exec ⟨s, none⟩ =
        (if ∀ n ∈ (s.tableAt t).passes w, n ≤ limit then .ok rows
          else .error (.scanLimitExceeded limit), ⟨s, none⟩) ∧
      rows.Pairwise (fun a b => a.id < b.id) ∧
      (∀ row, row ∈ rows ↔ row.id ∈ (s.tableAt t).meaning w ∧
        row.fields = (s.fieldsAt (Key.row t row.id).text).toList) ∧
      ∀ row ∈ rows, row.fields.Pairwise fun a b => a.1 < b.1 := by
  obtain ⟨db, hdb, hs⟩ := h.exists_database
  have htag := hdb.tagged ((hs.hasTable_iff hdb).mp ht)
  have hplan : Reference.plan t (db.table t) w = .ok plan := by
    rwa [hs.exec_ofQuery htag] at hplan
  rw [hs.tableAt hdb htag]
  have hfields (row : Row) : (db.table t).row row.id = row ↔
      row.fields = (s.fieldsAt (Key.row t row.id).text).toList := by
    have hrow := hs.fieldsAt_eq (k := .row t row.id) (t := t) htag rfl rfl
    obtain ⟨id, fields⟩ := row
    rw [hrow]
    exact Row.mk.injEq .. ▸ (and_iff_right rfl).trans eq_comm
  have hmem (row : Row) : row ∈ ((db.table t).meaning w).members.map (db.table t).row ↔
      row.id ∈ (db.table t).meaning w ∧
        row.fields = (s.fieldsAt (Key.row t row.id).text).toList := by
    rw [List.mem_map, ← hfields]
    constructor
    · rintro ⟨id, hid, rfl⟩
      exact ⟨hid, rfl⟩
    · exact fun hrow => ⟨row.id, hrow⟩
  refine ⟨((db.table t).meaning w).members.map (db.table t).row, ?_, ?_, hmem, ?_⟩
  · rw [hs.exec_select htag (hdb.table_valid t), Reference.select_of_plan hplan]
    rfl
  · exact List.pairwise_map.mpr ((db.table t).meaning w).keys_pairwise
  · intro row hrow
    rw [((hmem row).mp hrow).2]
    exact OrderedMap.ascending _

theorem sample_select_exact :
    let t : TableName := ⟨"app", "users"⟩
    let w : WhereClause := ⟨⟨"name", .eq, "ann"⟩, [(.and, ⟨"age", .gt, "6"⟩)]⟩
    sample.HasTable t ∧ ((Plan.ofQuery t w).exec ⟨sample, none⟩).1 =
        .ok [.seed (.lookup "name" "ann"), .narrow ⟨"age", .gt, "6"⟩ .integer] ∧
      ∃ rows : List Row,
        (Engine.select 1 t w).exec ⟨sample, none⟩ =
          (if ∀ n ∈ (sample.tableAt t).passes w, n ≤ 1 then .ok rows
            else .error (.scanLimitExceeded 1), ⟨sample, none⟩) ∧
        rows.Pairwise (fun a b => a.id < b.id) ∧
        (∀ row, row ∈ rows ↔ row.id ∈ (sample.tableAt t).meaning w ∧
          row.fields = (sample.fieldsAt (Key.row t row.id).text).toList) ∧
        ∀ row ∈ rows, row.fields.Pairwise fun a b => a.1 < b.1 := by
  intro t w
  have ht : sample.HasTable t := of_decide_eq_true (by cbv)
  have hplan : ((Plan.ofQuery t w).exec ⟨sample, none⟩).1 =
      .ok [.seed (.lookup "name" "ann"), .narrow ⟨"age", .gt, "6"⟩ .integer] := by cbv
  exact ⟨ht, hplan, sample_reachable.select_exact ht hplan 1⟩

end Store

end Tabular
