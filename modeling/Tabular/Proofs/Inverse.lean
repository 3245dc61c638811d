import Tabular.Proofs.Naming
import Tabular.Proofs.Transparency

/-!
Adding an index and dropping it. An index is a view of the rows, so a table with the same rows and
the same indexed columns has the same keys, and a store that holds these is the same store
(`Holds.exec_addIndex`, `Holds.exec_dropIndex`). Either command undoes the other and counts what it
has entered or deleted (`Reachable.index_inverse`).
-/

namespace Tabular

/-- A set of the elements of a list has each of them once. -/
theorem OrderedSet.size_ofMembers (xs : List String) :
    (OrderedSet.ofMembers xs).size = xs.dedup.length := by
  have hnodup : (OrderedSet.ofMembers xs).members.Nodup := OrderedMap.nodup_keys _
  have hperm : (OrderedSet.ofMembers xs).members.Perm xs.dedup := by
    refine (List.perm_ext_iff_of_nodup hnodup xs.nodup_dedup).mpr fun x => ?_
    rw [OrderedSet.mem_members, OrderedSet.mem_ofMembers, List.mem_dedup]
  rw [← OrderedMap.length_keys]
  exact hperm.length_eq

namespace Table

variable {tb : Table} {column : String}

/-- The values that rows hold in a column, row by row. -/
def held (tb : Table) (column : String) : List String :=
  tb.ids.members.filterMap fun id => tb.cell id column

/-- An index that is added may be dropped again. -/
theorem dropIndex_addIndex (h : column ∉ tb.indexed) :
    (tb.addIndex column).dropIndex column = tb := by
  have hindexed : OrderedMap.erase (OrderedSet.add tb.indexed column) column = tb.indexed := by
    apply OrderedSet.ext_mem
    intro x
    rw [OrderedMap.mem_erase, OrderedSet.mem_add]
    constructor
    · rintro ⟨hne, rfl | hx⟩
      · exact (hne rfl).elim
      · exact hx
    · intro hx
      exact ⟨fun heq => h (heq ▸ hx), Or.inr hx⟩
  unfold addIndex dropIndex
  dsimp only
  rw [hindexed]

end Table

namespace Reference

variable {t : TableName} {tb : Table} {column : String} (hcolumn : column ∈ tb.columns)
include hcolumn

theorem ensure_of_mem : ensure t tb = .ok () :=
  ensure_eq_ok.mpr (OrderedMap.isEmpty_eq_false_iff.mpr ⟨column, hcolumn⟩)

theorem columnType_of_mem : ∃ type, columnType t tb column = .ok type := by
  obtain ⟨type, htype⟩ := Option.isSome_iff_exists.mp (OrderedMap.mem_iff_isSome.mp hcolumn)
  exact ⟨type, columnType_eq_ok.mpr htype⟩

theorem addIndex_eq :
    addIndex t tb column = .ok ((tb.held column).length, tb.addIndex column) := by
  obtain ⟨type, htype⟩ := columnType_of_mem (t := t) hcolumn
  refine bind_eq_ok.mpr ⟨(), ensure_of_mem hcolumn, bind_eq_ok.mpr ⟨type, htype, ?_⟩⟩
  rw [Table.held, List.length_filterMap_eq_countP, List.countP_eq_length_filter]
  rfl

theorem dropIndex_eq : dropIndex t tb column =
    .ok ((.removed, if column ∈ tb.indexed then (tb.held column).dedup.length else 0),
      tb.dropIndex column) := by
  obtain ⟨type, htype⟩ := columnType_of_mem (t := t) hcolumn
  refine bind_eq_ok.mpr ⟨(), ensure_of_mem hcolumn, bind_eq_ok.mpr ⟨type, htype, ?_⟩⟩
  rw [← OrderedSet.size_ofMembers]
  rfl

end Reference

namespace Store

variable {s s' : Store} {db : Database} {t : TableName} {l : Layout} {tb : Table} {column : String}

/-- The values that the rows of a table hold in a column. -/
def held (s : Store) (t : TableName) (column : String) : List String :=
  (s.rowsOf t).members.filterMap fun id => (s.fieldsAt (Key.row t id).text).get? column

theorem held_namesake {t' : TableName} (h : t.full = t'.full) :
    s.held t column = s.held t' column := by
  simp only [held, rowsOf, Key.text, h]

section
variable (hs : s.Holds (tb.image.on t l)) (ht : t.Tagged) (hv : tb.Valid)
  (hcolumn : column ∈ tb.columns)
include hs ht hv hcolumn

theorem Holds.exec_addIndex : ∃ s', s'.Holds ((tb.addIndex column).image.on t l) ∧
    (Engine.addIndex t column).exec ⟨s, none⟩ = (.ok (tb.held column).length, ⟨s', none⟩) := by
  have hrefines : StoreM.Refines (Engine.addIndex t column) t (fun _ => ∅) l tb _ :=
    StoreM.refines_addIndex ⟨ht.1, fun _ => ht⟩ hv .ascending column
  rw [Reference.addIndex_eq hcolumn] at hrefines
  obtain ⟨s', hexec, hs'⟩ := hrefines.exists_exec hs
  exact ⟨s', hs', hexec⟩

theorem Holds.exec_dropIndex (pageSize : Nat) :
    ∃ s', s'.Holds ((tb.dropIndex column).image.on t l) ∧
      (Engine.dropIndex t column pageSize).exec ⟨s, none⟩ =
        (.ok (.removed, if column ∈ tb.indexed then (tb.held column).dedup.length else 0),
          ⟨s', none⟩) := by
  have hrefines : StoreM.Refines (Engine.dropIndex t column pageSize) t (fun _ => ∅) l tb _ :=
    StoreM.refines_dropIndex ⟨ht.1, fun _ => ht⟩ hv column pageSize
  rw [Reference.dropIndex_eq hcolumn] at hrefines
  obtain ⟨s', hexec, hs'⟩ := hrefines.exists_exec hs
  exact ⟨s', hs', hexec⟩

/-- To add an index and to drop it again leaves the store as it was. -/
theorem Holds.drop_added (hnew : column ∉ tb.indexed) : ∃ s',
    (Engine.addIndex t column).exec ⟨s, none⟩ = (.ok (tb.held column).length, ⟨s', none⟩) ∧
    ∀ pageSize, (Engine.dropIndex t column pageSize).exec ⟨s', none⟩ =
        (.ok (.removed, (tb.held column).dedup.length), ⟨s, none⟩) ∧
      (Engine.dropIndex t column pageSize).exec ⟨s, none⟩ = (.ok (.removed, 0), ⟨s, none⟩) := by
  obtain ⟨s', hs', hadd⟩ := hs.exec_addIndex ht hv hcolumn
  refine ⟨s', hadd, fun pageSize => ⟨?_, ?_⟩⟩
  · obtain ⟨s₁, hs₁, hdrop⟩ := hs'.exec_dropIndex ht (hv.addIndex hcolumn) hcolumn pageSize
    have hindexed : column ∈ (tb.addIndex column).indexed := OrderedSet.mem_add.mpr (Or.inl rfl)
    rw [Table.dropIndex_addIndex hnew] at hs₁
    rw [hdrop, hs₁.unique hs, if_pos hindexed]
    rfl
  · obtain ⟨s₁, hs₁, hdrop⟩ := hs.exec_dropIndex ht hv hcolumn pageSize
    rw [Table.dropIndex_of_notMem hnew] at hs₁
    rw [hdrop, hs₁.unique hs, if_neg hnew]

/-- To drop an index and to add it again leaves the store as it was, and so does adding it twice. -/
theorem Holds.add_dropped (hold : column ∈ tb.indexed) :
    (Engine.addIndex t column).exec ⟨s, none⟩ = (.ok (tb.held column).length, ⟨s, none⟩) ∧
    ∃ s', (∀ pageSize, (Engine.dropIndex t column pageSize).exec ⟨s, none⟩ =
        (.ok (.removed, (tb.held column).dedup.length), ⟨s', none⟩)) ∧
      (Engine.addIndex t column).exec ⟨s', none⟩ =
        (.ok (tb.held column).length, ⟨s, none⟩) := by
  constructor
  · obtain ⟨s₁, hs₁, hadd⟩ := hs.exec_addIndex ht hv hcolumn
    rw [Table.addIndex_of_mem hold] at hs₁
    rw [hadd, hs₁.unique hs]
  · obtain ⟨s', hs', -⟩ := hs.exec_dropIndex ht hv hcolumn 1
    refine ⟨s', fun pageSize => ?_, ?_⟩
    · obtain ⟨s₁, hs₁, hdrop⟩ := hs.exec_dropIndex ht hv hcolumn pageSize
      rw [hdrop, hs₁.unique hs', if_pos hold]
    · obtain ⟨s₁, hs₁, hadd⟩ := hs'.exec_addIndex ht (hv.dropIndex column) hcolumn
      rw [Table.addIndex_dropIndex hold] at hs₁
      rw [hadd, hs₁.unique hs]
      rfl

end

theorem Holds.held (hs : s.Holds db.layout) (hdb : db.Valid) (ht : t.Tagged) :
    s.held t column = (db.table t).held column := by
  unfold Store.held Table.held
  rw [hs.rowsOf hdb ht]
  simp only [hs.fieldsAt_row ht]
  rfl

/-- Where a column is declared there is a table. -/
theorem keyType_schema_of_mem (h : column ∈ s.fieldsAt (Key.schema t).text) :
    s.keyType (Key.schema t).text = .hash := by
  unfold fieldsAt at h
  unfold keyType
  split at h
  · next heq => rw [heq]
  · exact (OrderedMap.notMem_empty _ h).elim

/-- Adding an index and dropping it undo each other, to the last key of the store. An index is added
with as many rows as have the column, and dropped with as many keys as they hold values there, or
none if there was no index. An index that is there can be added to no effect. -/
theorem Reachable.index_inverse (h : s.Reachable)
    (hcolumn : column ∈ s.fieldsAt (Key.schema t).text) :
    let add := Engine.addIndex t column
    let drop := Engine.dropIndex t column
    let held := s.held t column
    (column ∉ s.membersAt (Key.indexed t).text →
      ∃ s', add.exec ⟨s, none⟩ = (.ok held.length, ⟨s', none⟩) ∧
        ∀ pageSize,
          (drop pageSize).exec ⟨s', none⟩ = (.ok (.removed, held.dedup.length), ⟨s, none⟩) ∧
          (drop pageSize).exec ⟨s, none⟩ = (.ok (.removed, 0), ⟨s, none⟩)) ∧
    (column ∈ s.membersAt (Key.indexed t).text →
      add.exec ⟨s, none⟩ = (.ok held.length, ⟨s, none⟩) ∧
      ∃ s', (∀ pageSize,
          (drop pageSize).exec ⟨s, none⟩ = (.ok (.removed, held.dedup.length), ⟨s', none⟩)) ∧
        add.exec ⟨s', none⟩ = (.ok held.length, ⟨s, none⟩)) := by
  obtain ⟨db, hdb, hs⟩ := h.exists_database
  obtain ⟨t', hname, ht'⟩ := hs.exists_namesake hdb (keyType_schema_of_mem hcolumn)
  have htag := hdb.tagged ((hs.hasTable_iff hdb).mp ht')
  have hv := hdb.table_valid t'
  have hadd : StoreM.Agree (Engine.addIndex t column) (Engine.addIndex t' column) :=
    StoreM.agree_addIndex hname .ascending column
  have hdrop := StoreM.agree_dropIndex hname column
  have hschema : (Key.schema t).text = (Key.schema t').text := by simp only [Key.text, hname]
  have hindexed : (Key.indexed t).text = (Key.indexed t').text := by simp only [Key.text, hname]
  rw [hschema, hs.fieldsAt_schema htag] at hcolumn
  rw [hindexed, hs.membersAt_indexed htag, held_namesake hname, hs.held hdb htag]
  simp only [hadd.exec_eq_ok_iff, (hdrop _).exec_eq_ok_iff]
  have hdeclared : column ∈ (db.table t').columns := OrderedMap.mem_mapValues.mp hcolumn
  rw [db.layout_on t'] at hs
  exact ⟨hs.drop_added htag hv hdeclared, hs.add_dropped htag hv hdeclared⟩

/-- One of the two columns has an index, the other one has none. -/
theorem sample_index_inverse :
    let t : TableName := ⟨"app", "users"⟩
    sample.Reachable ∧
      "age" ∈ sample.fieldsAt (Key.schema t).text ∧
      "age" ∉ sample.membersAt (Key.indexed t).text ∧
      (∃ s', (Engine.addIndex t "age").exec ⟨sample, none⟩ = (.ok 1, ⟨s', none⟩) ∧
        ∀ pageSize,
          (Engine.dropIndex t "age" pageSize).exec ⟨s', none⟩ =
            (.ok (.removed, 1), ⟨sample, none⟩) ∧
          (Engine.dropIndex t "age" pageSize).exec ⟨sample, none⟩ =
            (.ok (.removed, 0), ⟨sample, none⟩)) ∧
      "name" ∈ sample.fieldsAt (Key.schema t).text ∧
      "name" ∈ sample.membersAt (Key.indexed t).text ∧
      (Engine.addIndex t "name").exec ⟨sample, none⟩ = (.ok 1, ⟨sample, none⟩) ∧
      ∃ s', (∀ pageSize, (Engine.dropIndex t "name" pageSize).exec ⟨sample, none⟩ =
          (.ok (.removed, 1), ⟨s', none⟩)) ∧
        (Engine.addIndex t "name").exec ⟨s', none⟩ = (.ok 1, ⟨sample, none⟩) := by
  intro t
  have hage : sample.held t "age" = ["7"] := by cbv
  have hname : sample.held t "name" = ["ann"] := by cbv
  have hage' : "age" ∈ sample.fieldsAt (Key.schema t).text := of_decide_eq_true (by cbv)
  have hname' : "name" ∈ sample.fieldsAt (Key.schema t).text := of_decide_eq_true (by cbv)
  have hnew : "age" ∉ sample.membersAt (Key.indexed t).text := of_decide_eq_true (by cbv)
  have hold : "name" ∈ sample.membersAt (Key.indexed t).text := of_decide_eq_true (by cbv)
  have hadded := (sample_reachable.index_inverse hage').1 hnew
  have hdropped := (sample_reachable.index_inverse hname').2 hold
  rw [hage] at hadded
  rw [hname] at hdropped
  exact ⟨sample_reachable, hage', hnew, hadded, hname', hold, hdropped⟩

end Store

end Tabular
