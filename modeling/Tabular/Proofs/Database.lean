import Tabular.Proofs.Rows

/-!
Databases: namespaces and tables by name. `Database.layout` says which keys hold them, and
`Database.run` what each command makes of them. A command on a table reads and changes that table
only, and looks up one namespace.
-/

namespace Tabular

/-! ### Names in alphabetical order -/

instance : LT TableName := ⟨fun a b => a.ns < b.ns ∨ a.ns = b.ns ∧ a.table < b.table⟩

instance : DecidableLT TableName := fun _ _ => inferInstanceAs (Decidable (_ ∨ _ ∧ _))

instance : LinearKey TableName where
  irrefl a h := h.elim (LinearKey.irrefl a.ns) fun h => LinearKey.irrefl a.table h.2
  trans {a b c} hab hbc := by
    rcases hab with hab | ⟨hab, hab'⟩
    · rcases hbc with hbc | ⟨hbc, -⟩
      · exact Or.inl (LinearKey.trans hab hbc)
      · exact Or.inl (hbc ▸ hab)
    · rcases hbc with hbc | ⟨hbc, hbc'⟩
      · exact Or.inl (hab ▸ hbc)
      · exact Or.inr ⟨hab.trans hbc, LinearKey.trans hab' hbc'⟩
  connected {a b} hab hba := by
    have hns : a.ns = b.ns :=
      LinearKey.connected (fun h => hab (Or.inl h)) (fun h => hba (Or.inl h))
    have htable : a.table = b.table :=
      LinearKey.connected (fun h => hab (Or.inr ⟨hns, h⟩)) (fun h => hba (Or.inr ⟨hns.symm, h⟩))
    cases a
    cases b
    cases hns
    cases htable
    rfl

structure Database where
  namespaces : OrderedSet String
  tables : OrderedMap TableName Table
  deriving DecidableEq

namespace Database

instance : EmptyCollection Database := ⟨⟨∅, ∅⟩⟩

/-- A table; the empty one if it is not there. -/
def table (db : Database) (t : TableName) : Table := (db.tables.get? t).getD ∅

/-- The database with a table in place of what it had by that name. A table without columns is not
there. -/
def set (db : Database) (t : TableName) (tb : Table) : Database :=
  { db with tables := if tb.columns.isEmpty then db.tables.erase t else db.tables.insert t tb }

/-- What the keys that belong to no table hold: a text under the marker of each namespace. -/
def markers (db : Database) : Layout
  | .marker ns => if ns ∈ db.namespaces then some (.text "1") else none
  | _ => none

/-- What the keys of a database hold. -/
def layout (db : Database) : Layout := fun k =>
  match k.table? with
  | some t => (db.table t).image.entry k
  | none => db.markers k

/-- What holds of the databases that commands make. -/
structure Valid (db : Database) : Prop where
  namespace_name : ∀ {ns}, ns ∈ db.namespaces → Catalog.checkNamespace ns = .ok ()
  table_name : ∀ {t}, t ∈ db.tables → t.Proper ∧ t.check = .ok ()
  table_namespace : ∀ {t}, t ∈ db.tables → t.ns ∈ db.namespaces
  table_columns : ∀ {t}, t ∈ db.tables → (db.table t).columns.isEmpty = false
  table_valid : ∀ t, (db.table t).Valid

variable {db : Database} {t : TableName} {tb : Table}

theorem layout_of_table {k : Key} (hk : k.table? = some t) :
    db.layout k = (db.table t).image.entry k := by
  rw [layout, hk]

theorem layout_marker (db : Database) (ns : String) :
    db.layout (.marker ns) = if ns ∈ db.namespaces then some (.text "1") else none := rfl

theorem table_of_notMem (h : t ∉ db.tables) : db.table t = ∅ := by
  rw [table, OrderedMap.get?_eq_none_iff.mpr h, Option.getD_none]

theorem table_set (h : tb.columns.isEmpty = true → tb = ∅) (t' : TableName) :
    (db.set t tb).table t' = if t' = t then tb else db.table t' := by
  unfold set table
  by_cases hempty : tb.columns.isEmpty = true
  · simp only [if_pos hempty, OrderedMap.get?_erase]
    by_cases ht : t' = t
    · simp only [if_pos ht, Option.getD_none, h hempty]
    · simp only [if_neg ht]
  · simp only [if_neg hempty, OrderedMap.get?_insert]
    by_cases ht : t' = t
    · simp only [if_pos ht, Option.getD_some]
    · simp only [if_neg ht]

/-- To change the keys of one table is to change that table. -/
theorem on_layout (h : tb.columns.isEmpty = true → tb = ∅) :
    tb.image.on t db.layout = (db.set t tb).layout := by
  funext k
  have hmarkers : (db.set t tb).markers = db.markers := by
    funext k
    cases k <;> rfl
  by_cases hk : k.table? = some t
  · rw [Image.on_of_table hk, layout, hk]
    show _ = ((db.set t tb).table t).image.entry k
    rw [table_set h, if_pos rfl]
  · rw [Image.on_of_ne hk, layout, layout, hmarkers]
    cases ht : k.table? with
    | none => rfl
    | some t' =>
        have hne : t' ≠ t := fun heq => hk (heq ▸ ht)
        show _ = ((db.set t tb).table t').image.entry k
        rw [table_set h, if_neg hne]

section
variable (hthere : tb.columns.isEmpty = false)
include hthere

theorem table_set_self : (db.set t tb).table t = tb := by
  rw [table_set (fun hempty => by rw [hthere] at hempty; cases hempty), if_pos rfl]

theorem on_layout_of_there : tb.image.on t db.layout = (db.set t tb).layout :=
  on_layout fun hempty => by rw [hthere] at hempty; cases hempty

end

theorem layout_on (db : Database) (t : TableName) : db.layout = (db.table t).image.on t db.layout := by
  funext k
  by_cases hk : k.table? = some t
  · rw [Image.on_of_table hk, layout_of_table hk]
  · rw [Image.on_of_ne hk]

namespace Valid

theorem empty : Valid ∅ where
  namespace_name h := (OrderedMap.notMem_empty _ h).elim
  table_name h := (OrderedMap.notMem_empty _ h).elim
  table_namespace h := (OrderedMap.notMem_empty _ h).elim
  table_columns h := (OrderedMap.notMem_empty _ h).elim
  table_valid t := by
    rw [table_of_notMem (OrderedMap.notMem_empty t)]
    exact Table.Valid.empty

/-- A table is there if it has columns. -/
theorem mem_tables_iff (h : db.Valid) : t ∈ db.tables ↔ (db.table t).columns.isEmpty = false := by
  constructor
  · exact h.table_columns
  · intro hcolumns
    apply Decidable.byContradiction
    intro ht
    rw [table_of_notMem ht] at hcolumns
    cases hcolumns

theorem table_empty (h : db.Valid) (hcolumns : (db.table t).columns.isEmpty = true) :
    db.table t = ∅ := by
  apply table_of_notMem
  rw [h.mem_tables_iff, hcolumns]
  exact Bool.noConfusion

/-- Names that pass the checks have no brace. -/
theorem tagged (h : db.Valid) (ht : t ∈ db.tables) : t.Tagged := by
  obtain ⟨hproper, hcheck⟩ := h.table_name ht
  exact ⟨hproper, TableName.notMem_of_check hcheck⟩

theorem set (h : db.Valid) (htb : tb.Valid) (hempty : tb.columns.isEmpty = true → tb = ∅)
    (hname : tb.columns.isEmpty = false → t.Proper ∧ t.check = .ok () ∧ t.ns ∈ db.namespaces) :
    (db.set t tb).Valid := by
  have hmem {t' : TableName} : t' ∈ (db.set t tb).tables →
      (t' = t ∧ tb.columns.isEmpty = false) ∨ t' ≠ t ∧ t' ∈ db.tables := by
    intro ht'
    unfold Database.set at ht'
    dsimp only at ht'
    split at ht'
    · exact Or.inr (OrderedMap.mem_erase.mp ht')
    · next hcolumns =>
        by_cases heq : t' = t
        · exact Or.inl ⟨heq, Bool.eq_false_iff.mpr hcolumns⟩
        · exact Or.inr ⟨heq, (OrderedMap.mem_insert.mp ht').resolve_left heq⟩
  refine ⟨h.namespace_name, ?_, ?_, ?_, ?_⟩
  · intro t' ht'
    rcases hmem ht' with ⟨rfl, hcolumns⟩ | ⟨-, ht'⟩
    · exact ⟨(hname hcolumns).1, (hname hcolumns).2.1⟩
    · exact h.table_name ht'
  · intro t' ht'
    rcases hmem ht' with ⟨rfl, hcolumns⟩ | ⟨-, ht'⟩
    · exact (hname hcolumns).2.2
    · exact h.table_namespace ht'
  · intro t' ht'
    rw [table_set hempty]
    rcases hmem ht' with ⟨rfl, hcolumns⟩ | ⟨hne, ht'⟩
    · rwa [if_pos rfl]
    · rw [if_neg hne]
      exact h.table_columns ht'
  · intro t'
    rw [table_set hempty]
    split
    · exact htb
    · exact h.table_valid t'

end Valid

end Database

end Tabular
