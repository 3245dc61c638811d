import Tabular.Proofs.Database

/-!
The listing of tables. It is read off the schema keys, found by pattern and parsed back, so it
rests on the schema keys of a database being those of its tables; sorted, it is the list of the
names in order. The store gives no key twice, so there are no repeats to leave out.
-/

namespace Tabular

section
variable {α : Type} [DecidableEq α] {l : List α}

theorem eraseReps_loop_of_nodup {a : α} {acc : List α} (h : (a :: l).Nodup) :
    List.eraseRepsBy.loop (· == ·) a l acc = acc.reverse ++ a :: l := by
  induction l generalizing a acc with
  | nil => exact List.reverse_cons
  | cons b l ih =>
      obtain ⟨ha, hl⟩ := List.nodup_cons.mp h
      have hne : (a == b) = false := beq_false_of_ne fun hab => ha (hab ▸ List.mem_cons_self ..)
      rw [List.eraseRepsBy.loop, hne]
      show List.eraseRepsBy.loop (· == ·) b l (a :: acc) = _
      rw [ih hl, List.reverse_cons, List.append_assoc]
      rfl

/-- Of a list without repeats nothing is left out. -/
theorem eraseReps_of_nodup (h : l.Nodup) : l.eraseReps = l := by
  cases l with
  | nil => rfl
  | cons a l => exact eraseReps_loop_of_nodup h

end

namespace TableName

theorem le_iff {a b : TableName} : le a b = true ↔ a < b ∨ a = b := by
  have hlt : a < b ↔ a.ns < b.ns ∨ a.ns = b.ns ∧ a.table < b.table := Iff.rfl
  have heq : a = b ↔ a.ns = b.ns ∧ a.table = b.table := by
    cases a
    cases b
    rw [TableName.mk.injEq]
  have hle : a.table ≤ b.table ↔ a.table < b.table ∨ a.table = b.table := by
    constructor
    · intro h
      by_cases hlt : a.table < b.table
      · exact Or.inl hlt
      · exact Or.inr (Std.le_antisymm h (Std.not_lt.mp hlt))
    · rintro (h | h)
      · exact Std.le_of_lt h
      · exact h ▸ Std.le_refl _
  rw [le, Bool.or_eq_true, Bool.and_eq_true, decide_eq_true_iff, decide_eq_true_iff,
    decide_eq_true_iff, hle, hlt, heq, and_or_left, or_assoc]

theorem le_trans {a b c : TableName} (hab : le a b = true) (hbc : le b c = true) :
    le a c = true := by
  rw [le_iff] at *
  rcases hab with hab | rfl
  · rcases hbc with hbc | rfl
    · exact Or.inl (LinearKey.trans hab hbc)
    · exact Or.inl hab
  · exact hbc

theorem le_total (a b : TableName) : (le a b || le b a) = true := by
  rw [Bool.or_eq_true, le_iff, le_iff]
  by_cases hab : a < b
  · exact Or.inl (Or.inl hab)
  · by_cases hba : b < a
    · exact Or.inr (Or.inl hba)
    · exact Or.inl (Or.inr (LinearKey.connected hab hba))

theorem le_antisymm {a b : TableName} (hab : le a b = true) (hba : le b a = true) : a = b := by
  rw [le_iff] at *
  rcases hab with hab | rfl
  · rcases hba with hba | rfl
    · exact (LinearKey.irrefl a (LinearKey.trans hab hba)).elim
    · rfl
  · rfl

/-- Sorting the members of an ascending list in any order gives the list. -/
theorem mergeSort_eq {l l' : List TableName} (hperm : l.Perm l') (h : l'.Pairwise (· < ·)) :
    l.mergeSort le = l' := by
  have hsorted : l'.Pairwise fun a b => le a b = true := h.imp fun h => le_iff.mpr (Or.inl h)
  have hsort : (l.mergeSort le).Pairwise fun a b => le a b = true :=
    @List.pairwise_mergeSort _ le (fun _ _ _ hab hbc => le_trans hab hbc) le_total l
  have hsame : (l.mergeSort le).Perm l' := (List.mergeSort_perm l le).trans hperm
  exact hsame.eq_of_pairwise (fun _ _ _ _ hab hba => le_antisymm hab hba) hsort hsorted

end TableName

namespace Database

/-- All tables, or those of one namespace, in alphabetical order. -/
def listing (db : Database) (ns : Option String) : List TableName :=
  db.tables.keys.filter fun t => ns.all (t.ns = ·)

variable {db : Database} {t : TableName}

/-- A store has the schema key of a table if the table is there. -/
theorem Valid.schema_mem_iff (hdb : db.Valid) {s : Store} (hs : s.Holds db.layout)
    (ht : t.Proper) : (Key.schema t).text ∈ s ↔ t ∈ db.tables := by
  have hlayout : db.layout (.schema t) = Entry.ofHash (db.table t).image.types := rfl
  rw [OrderedMap.mem_iff_isSome, hs.lookup (k := .schema t) ht, hlayout, hdb.mem_tables_iff,
    ← Table.isEmpty_types, Entry.ofHash]
  cases (db.table t).image.types.isEmpty <;> simp

end Database

namespace StoreM

variable {db : Database}

theorem runs_listTables (hdb : db.Valid) (ns : Option String) (pageSize : Nat) :
    Runs (Catalog.listTables ns pageSize) db.layout (.ok (db.listing ns)) db.layout := by
  intro s hs
  refine ⟨s, ?_, hs⟩
  rw [Catalog.listTables, exec_bind_ok (exec_matchingKeys ..), exec_pure]
  have hpattern {t : TableName} (hns : ns.all (t.ns = ·) = true) :
      Glob.matchesKey (ns.elim TableName.anySchemaPattern TableName.namespacePattern)
        (Key.schema t).text = true := by
    cases ns with
    | none => exact t.matchesKey_anySchemaPattern
    | some ns =>
        obtain rfl : t.ns = ns := of_decide_eq_true hns
        exact t.matchesKey_namespacePattern
  have hsorted : (db.listing ns).Pairwise (· < ·) := db.tables.keys_pairwise.filter _
  have hnodup : (db.listing ns).Nodup := db.tables.nodup_keys.filter _
  have hperm : ((s.keys.filter (Glob.matchesKey (ns.elim TableName.anySchemaPattern
      TableName.namespacePattern))).filterMap Key.schemaTable?).filter (fun t => ns.all (t.ns = ·))
      |>.Perm (db.listing ns) := by
    refine (List.perm_ext_iff_of_nodup (List.Pairwise.filter _ ?_) hnodup).mpr fun t => ?_
    · -- keys that give one table are one key
      refine List.pairwise_filterMap.mpr ((s.nodup_keys.filter _).imp ?_)
      intro x x' hne t ht t' ht' heq
      rw [Key.schemaTable?_eq_some_iff] at ht ht'
      exact hne (by rw [ht.2, ht'.2, heq])
    · unfold Database.listing
      rw [List.mem_filter, List.mem_filter, List.mem_filterMap, OrderedMap.mem_keys]
      simp only [List.mem_filter, OrderedMap.mem_keys, Key.schemaTable?_eq_some_iff]
      constructor
      · rintro ⟨⟨_, ⟨hx, -⟩, ht, rfl⟩, hns⟩
        exact ⟨(hdb.schema_mem_iff hs ht).mp hx, hns⟩
      · rintro ⟨ht, hns⟩
        have hproper := (hdb.table_name ht).1
        exact ⟨⟨_, ⟨(hdb.schema_mem_iff hs hproper).mpr ht, hpattern hns⟩, hproper, rfl⟩, hns⟩
  rw [TableName.mergeSort_eq hperm hsorted, eraseReps_of_nodup hnodup]

end StoreM

end Tabular
