import Tabular.Proofs.Addition
import Tabular.Proofs.Inverse

/-!
Sets gone through in any order. A filter, the building of an index and the deletion of a row each go
through one set, and the programs go through it in ascending order. Here the order is free
(`Enumeration`): it makes no difference to what they return, to the error of a filter that meets too
many candidates, or to the store (`Store.Reachable.order_free`).
-/

namespace Tabular

/-! ### In ascending order -/

theorem Query.filterRowsBy_ascending : filterRowsBy .ascending = filterRows := rfl

theorem Engine.addIndexBy_ascending : addIndexBy .ascending = addIndex := rfl

theorem Engine.deleteRowBy_ascending : deleteRowBy .ascending = deleteRow := rfl

/-! ### What the programs do to a table -/

open StoreM

namespace Store

variable {s : Store} {t : TableName} {l : Layout} {tb : Table} {img : Image}

/-- A filter that meets no more candidates than the limit keeps those whose rows have a value that
the condition accepts. -/
theorem Holds.exec_filterRowsBy (hs : s.Holds (img.on t l)) (ht : t.Tagged)
    (order : Enumeration RowId) (limit : Nat) (c : Condition) (type : ColumnType) (found : RowSet) :
    (Query.filterRowsBy order limit t c type found).exec ⟨s, none⟩ =
      (if found.size ≤ limit then .ok (OrderedMap.filter (fun id =>
          ((s.fieldsAt (Key.row t id).text).get? c.column).any (c.accepts type)) found)
        else .error (.scanLimitExceeded limit), ⟨s, none⟩) := by
  have hruns : Runs (Query.filterRowsBy order limit t c type found) (img.on t l) _ (img.on t l) :=
    runs_filterRows_on ht img c type found
  have haccepts : img.accepts c type = fun id =>
      ((s.fieldsAt (Key.row t id).text).get? c.column).any (c.accepts type) := by
    funext id
    rw [Image.accepts, hs.row_on ht]
  rw [hruns.exec_eq hs, haccepts, Reference.within]
  simp only [List.mem_singleton, forall_eq]

section
variable (hs : s.Holds (tb.image.on t l)) (ht : t.Tagged) (hv : tb.Valid)
include hs ht hv

theorem Holds.exec_addIndexBy (order : Enumeration RowId) (column : String) :
    (Engine.addIndexBy order t column).exec ⟨s, none⟩ =
      (Engine.addIndex t column).exec ⟨s, none⟩ := by
  have hn : t.Names tb := ⟨ht.1, fun _ => ht⟩
  have hby (order : Enumeration RowId) :
      Refines (Engine.addIndexBy order t column) t (fun _ => ∅) l tb _ :=
    refines_addIndex hn hv order column
  rw [← Engine.addIndexBy_ascending]
  exact (hby order).exec_congr (hby .ascending) hs

/-- A row is deleted, there or not. -/
theorem Holds.exec_deleteRowBy (order : Enumeration String) (id : RowId) :
    ∃ s', s'.Holds ((tb.image.deleteRow id).on t l) ∧
      (Engine.deleteRowBy order t id).exec ⟨s, none⟩ = (.ok (), ⟨s', none⟩) := by
  have hruns : Runs (Engine.deleteRowBy order t id) (tb.image.on t l) _ _ :=
    runs_deleteRow_on ht order tb.image (fun _ => hv.indexed_name) id
  obtain ⟨s', hexec, hs'⟩ := hruns s hs
  exact ⟨s', hs', hexec⟩

end

/-- On a table of a reachable store the order makes no difference to a filter, to the building of an
index and to the deletion of a row. A filter fails if the candidates are more than the limit and
keeps those with a value that the condition accepts otherwise. -/
theorem Reachable.order_free (h : s.Reachable) (ht : s.HasTable t) :
    (∀ (limit : Nat) (c : Condition) (type : ColumnType) (found : RowSet)
        (order : Enumeration RowId),
      (Query.filterRowsBy order limit t c type found).exec ⟨s, none⟩ =
        (Query.filterRows limit t c type found).exec ⟨s, none⟩ ∧
      (Query.filterRows limit t c type found).exec ⟨s, none⟩ =
        (if found.size ≤ limit then .ok (OrderedMap.filter (fun id =>
            ((s.fieldsAt (Key.row t id).text).get? c.column).any (c.accepts type)) found)
          else .error (.scanLimitExceeded limit), ⟨s, none⟩)) ∧
    (∀ column : String,
      (∀ order, (Engine.addIndexBy order t column).exec ⟨s, none⟩ =
        (Engine.addIndex t column).exec ⟨s, none⟩) ∧
      (column ∈ s.fieldsAt (Key.schema t).text → ∃ s', (Engine.addIndex t column).exec ⟨s, none⟩ =
        (.ok (s.held t column).length, ⟨s', none⟩))) ∧
    ∀ id : RowId, ∃ s', (Engine.deleteRow t id).exec ⟨s, none⟩ = (.ok (), ⟨s', none⟩) ∧
      ∀ order, (Engine.deleteRowBy order t id).exec ⟨s, none⟩ = (.ok (), ⟨s', none⟩) := by
  obtain ⟨db, hdb, hs⟩ := h.exists_database
  have hmem := (hs.hasTable_iff hdb).mp ht
  have htag := hdb.tagged hmem
  have hv := hdb.table_valid t
  have hon := hs
  rw [db.layout_on t] at hon
  refine ⟨fun limit c type found order => ?_, fun column => ⟨fun order => ?_, fun hcolumn => ?_⟩,
    fun id => ?_⟩
  · have hfilter (order : Enumeration RowId) := hon.exec_filterRowsBy htag order limit c type found
    have hascending := hfilter .ascending
    rw [Query.filterRowsBy_ascending] at hascending
    exact ⟨(hfilter order).trans hascending.symm, hascending⟩
  · exact hon.exec_addIndexBy htag hv order column
  · rw [hs.fieldsAt_schema htag] at hcolumn
    have hdeclared : column ∈ (db.table t).columns := OrderedMap.mem_mapValues.mp hcolumn
    obtain ⟨s', -, hexec⟩ := hon.exec_addIndex htag hv hdeclared
    rw [hs.held hdb htag]
    exact ⟨s', hexec⟩
  · obtain ⟨s', hs', hascending⟩ := hon.exec_deleteRowBy htag hv .ascending id
    rw [Engine.deleteRowBy_ascending] at hascending
    refine ⟨s', hascending, fun order => ?_⟩
    obtain ⟨s₁, hs₁, hexec⟩ := hon.exec_deleteRowBy htag hv order id
    rw [hexec, hs₁.unique hs']

/-- The rows and the columns are gone through from the end. Of the candidates one is no row. -/
theorem sample_order_free :
    let t : TableName := ⟨"app", "users"⟩
    let s := sampleIndexed
    let c : Condition := ⟨"age", .gt, "7"⟩
    let found : RowSet := OrderedSet.ofMembers [1, 2, 3]
    s.Reachable ∧ s.HasTable t ∧ "name" ∈ s.fieldsAt (Key.schema t).text ∧
      (Query.filterRowsBy .descending 2 t c .integer found).exec ⟨s, none⟩ =
        (.error (.scanLimitExceeded 2), ⟨s, none⟩) ∧
      (Query.filterRowsBy .descending 3 t c .integer found).exec ⟨s, none⟩ =
        (.ok (OrderedSet.ofMembers [2]), ⟨s, none⟩) ∧
      (∃ s', (Engine.addIndexBy .descending t "name").exec ⟨s, none⟩ = (.ok 2, ⟨s', none⟩)) ∧
      ∃ s', (Engine.deleteRow t 1).exec ⟨s, none⟩ = (.ok (), ⟨s', none⟩) ∧
        (Engine.deleteRowBy .descending t 1).exec ⟨s, none⟩ = (.ok (), ⟨s', none⟩) := by
  intro t s c found
  have ht : s.HasTable t := of_decide_eq_true (by cbv)
  have hname : "name" ∈ s.fieldsAt (Key.schema t).text := of_decide_eq_true (by cbv)
  have hheld : s.held t "name" = ["ann", "cid"] := by cbv
  have hkept : OrderedMap.filter (fun id =>
      ((s.fieldsAt (Key.row t id).text).get? c.column).any (c.accepts .integer)) found =
      OrderedSet.ofMembers [2] := by cbv
  obtain ⟨hfilter, hadd, hdelete⟩ := sampleIndexed_reachable.order_free ht
  refine ⟨sampleIndexed_reachable, ht, hname, ?_, ?_, ?_, ?_⟩
  · obtain ⟨hby, hrows⟩ := hfilter 2 c .integer found .descending
    rw [hby, hrows, if_neg (by decide)]
  · obtain ⟨hby, hrows⟩ := hfilter 3 c .integer found .descending
    rw [hby, hrows, if_pos (by decide), hkept]
  · obtain ⟨hby, hdone⟩ := hadd "name"
    obtain ⟨s', hexec⟩ := hdone hname
    rw [hheld] at hexec
    exact ⟨s', (hby .descending).trans hexec⟩
  · obtain ⟨s', hrow, hby⟩ := hdelete 1
    exact ⟨s', hrow, hby .descending⟩

end Store

end Tabular
