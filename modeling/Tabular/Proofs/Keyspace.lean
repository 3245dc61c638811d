import Tabular.Proofs.Reachable

/-!
The key space of a store that commands can reach. Each key plays one of seven roles for a namespace
or a table that is there, and holds a value of the kind that goes with the role; what the keys of a
table hold fits together (`Reachable.wellFormed`). A key that is there is proper, and proper keys
are told apart by their texts, so a role cannot be played by the text of another.
-/

namespace Tabular

/-- What a key may be for. -/
inductive Role
  | marker
  | schema
  | indexed
  | counter
  | rows
  | row
  | index
  deriving DecidableEq, Repr

/-- The kind of value that goes with a role. -/
def Role.type : Role → KeyType
  | marker | counter => .text
  | schema | row => .hash
  | indexed | rows | index => .set

namespace Key

def role : Key → Role
  | marker _ => .marker
  | schema _ => .schema
  | indexed _ => .indexed
  | counter _ => .counter
  | rows _ => .rows
  | row _ _ => .row
  | index _ _ _ => .index

/-- An index key whose column has a colon reads as one of a shorter column. -/
theorem exists_proper_index {t : TableName} (ht : t.Tagged) (column value : String) :
    ∃ column' value', (index t column' value').Proper ∧
      (index t column' value').text = (index t column value).text := by
  have hcolon : ':' ∈ column.toList ++ ':' :: value.toList := by simp
  cases hcut : Text.cutAt ':' (column.toList ++ ':' :: value.toList) with
  | none => exact (Text.cutAt_eq_none_iff.mp hcut hcolon).elim
  | some halves =>
      obtain ⟨hbefore, hall⟩ := Text.cutAt_eq_some_iff.mp hcut
      refine ⟨String.ofList halves.1, String.ofList halves.2, ⟨ht, ?_⟩, ?_⟩
      · rwa [String.toList_ofList]
      · rw [← String.toList_inj]
        simp [text, braced, hall]

end Key

def Entry.type : Entry → KeyType
  | text _ => .text
  | hash _ => .hash
  | set _ => .set

namespace Image

/-- What an image holds under a key goes with the role of the key. -/
theorem type_of_entry {img : Image} {k : Key} {e : Entry} (h : img.entry k = some e) :
    e.type = k.role.type := by
  cases k with
  | marker ns => cases h
  | _ =>
      simp only [entry, Entry.ofHash, Entry.ofSet, Entry.ofCount] at h
      split at h
      · cases h
      · cases h
        rfl

end Image

namespace Database

variable {db : Database} {k : Key} {e : Entry}

theorem type_of_layout (h : db.layout k = some e) : e.type = k.role.type := by
  cases ht : k.table? with
  | some t =>
      rw [layout_of_table ht] at h
      exact Image.type_of_entry h
  | none =>
      cases k with
      | marker ns =>
          rw [layout_marker] at h
          split at h
          · cases h
            rfl
          · cases h
      | _ => cases ht

theorem mem_namespaces_of_layout {ns : String} (h : db.layout (.marker ns) = some e) :
    ns ∈ db.namespaces := by
  apply Decidable.byContradiction
  intro hns
  rw [layout_marker, if_neg hns] at h
  cases h

/-- Only tables that are there have keys. -/
theorem mem_tables_of_layout {t : TableName} (ht : k.table? = some t)
    (h : db.layout k = some e) : t ∈ db.tables := by
  apply Decidable.byContradiction
  intro hnot
  rw [layout_of_table ht, table_of_notMem hnot, Table.image_empty, Image.entry_empty] at h
  cases h

end Database

namespace Store

variable {s : Store} {db : Database} {t : TableName} {ns key : String} {k : Key} {e : Entry}

/-- The store has the marker of the namespace. -/
def HasNamespace (s : Store) (ns : String) : Prop := s.keyType (Key.marker ns).text = .text

/-- The namespace or the table that a key is about is there. -/
def Owns (s : Store) : Key → Prop
  | .marker ns => s.HasNamespace ns
  | .schema t | .indexed t | .counter t | .rows t | .row t _ | .index t _ _ => s.HasTable t

/-- A key plays a role for a namespace or a table that is there. -/
def Plays (s : Store) (key : String) (role : Role) : Prop :=
  ∃ k : Key, k.role = role ∧ k.text = key ∧ s.Owns k

/-- What the keys of one table hold fits together. -/
structure TableWellFormed (s : Store) (t : TableName) : Prop where
  /-- The namespace of the table is there. -/
  namespace_there : s.HasNamespace t.ns
  /-- There is a key for each row of the set of rows, and for no other. -/
  row_there : ∀ id : RowId,
    (Key.row t id).text ∈ s ↔ toString id ∈ s.membersAt (Key.rows t).text
  /-- Each row is a hash with some fields. -/
  row_fields : ∀ id : RowId, toString id ∈ s.membersAt (Key.rows t).text →
    s.keyType (Key.row t id).text = .hash ∧ (s.fieldsAt (Key.row t id).text).isEmpty = false
  /-- The set of rows has numbers only, from one up to what the counter has counted to. -/
  row_number : ∀ {member}, member ∈ s.membersAt (Key.rows t).text →
    ∃ id last : Nat, member = toString id ∧ 1 ≤ id ∧ id ≤ last ∧
      s.get? (Key.counter t).text = some (.text (toString last))
  /-- Each field of a row is one of a declared column and of its type. -/
  row_field : ∀ {id : RowId} {column value},
    (s.fieldsAt (Key.row t id).text).get? column = some value →
      ∃ type : ColumnType, (s.fieldsAt (Key.schema t).text).get? column = some type.name ∧
        type.accepts value = true
  /-- Indexed columns are declared. -/
  indexed_declared : ∀ {column}, column ∈ s.membersAt (Key.indexed t).text →
    column ∈ s.fieldsAt (Key.schema t).text

/-- Each key of the store plays one role and holds what goes with it, and the keys of each table
fit together. -/
structure WellFormed (s : Store) : Prop where
  key_role : ∀ {key}, key ∈ s → ∃! role, s.Plays key role
  key_type : ∀ {key role}, key ∈ s → s.Plays key role → s.keyType key = role.type
  table : ∀ {t}, s.HasTable t → s.TableWellFormed t

/-! ### Keys of a valid database -/

theorem keyType_eq (h : s.get? key = some e) : s.keyType key = e.type := by
  rw [keyType, h]
  cases e <;> rfl

theorem exists_of_mem (h : key ∈ s) : ∃ e, s.get? key = some e :=
  Option.isSome_iff_exists.mp (OrderedMap.mem_iff_isSome.mp h)

/-- A proper key that is there holds what goes with its role. -/
theorem Holds.keyType (hs : s.Holds db.layout) (hk : k.Proper) (hin : k.text ∈ s) :
    s.keyType k.text = k.role.type := by
  obtain ⟨e, he⟩ := exists_of_mem hin
  rw [keyType_eq he]
  exact Database.type_of_layout ((hs.lookup hk).symm.trans he)

section
variable (hs : s.Holds db.layout) (hdb : db.Valid)
include hs hdb

/-- The namespaces of a store are those of its database. -/
theorem Holds.hasNamespace_iff : s.HasNamespace ns ↔ ns ∈ db.namespaces := by
  constructor
  · intro h
    have hin : (Key.marker ns).text ∈ s := by
      apply Decidable.byContradiction
      intro hnot
      rw [HasNamespace, Store.keyType, OrderedMap.get?_eq_none_iff.mpr hnot] at h
      cases h
    obtain ⟨e, he⟩ := exists_of_mem hin
    obtain ⟨k, hk, htext, hlayout⟩ := hs.exists_of_get? he
    -- of the keys that share the text of a marker, only the marker itself holds a text
    have htype : k.role.type = .text := by
      rw [← Database.type_of_layout hlayout, ← keyType_eq he]
      exact h
    cases k with
    | marker ns' =>
        obtain rfl := Key.schemaText_inj.mp htext
        exact Database.mem_namespaces_of_layout hlayout
    | counter t => exact (Key.text_ne_of_tag rfl rfl htext).elim
    | _ => cases htype
  · intro h
    have hk : (Key.marker ns).Proper :=
      Database.dot_notMem_of_checkNamespace (hdb.namespace_name h)
    have hlayout := hs.lookup hk
    rw [Database.layout_marker, if_pos h] at hlayout
    exact keyType_eq hlayout

/-- What owns a key that is held is there. -/
theorem Holds.owns (h : db.layout k = some e) : s.Owns k := by
  cases k with
  | marker ns => exact (hs.hasNamespace_iff hdb).mpr (Database.mem_namespaces_of_layout h)
  | _ => exact (hs.hasTable_iff hdb).mpr (Database.mem_tables_of_layout rfl h)

/-- A key whose owner is there shares its text and its role with a proper one. -/
theorem Holds.exists_proper (h : s.Owns k) :
    ∃ k' : Key, k'.Proper ∧ k'.text = k.text ∧ k'.role = k.role := by
  have htagged {t : TableName} (ht : s.HasTable t) : t.Tagged :=
    hdb.tagged ((hs.hasTable_iff hdb).mp ht)
  cases k with
  | marker ns =>
      have hns := (hs.hasNamespace_iff hdb).mp h
      exact ⟨.marker ns, Database.dot_notMem_of_checkNamespace (hdb.namespace_name hns), rfl, rfl⟩
  | schema t => exact ⟨.schema t, (htagged h).1, rfl, rfl⟩
  | index t column value =>
      obtain ⟨column', value', hproper, htext⟩ := Key.exists_proper_index (htagged h) column value
      exact ⟨_, hproper, htext, rfl⟩
  | indexed t => exact ⟨.indexed t, htagged h, rfl, rfl⟩
  | counter t => exact ⟨.counter t, htagged h, rfl, rfl⟩
  | rows t => exact ⟨.rows t, htagged h, rfl, rfl⟩
  | row t id => exact ⟨.row t id, htagged h, rfl, rfl⟩

/-- Each key that is there plays exactly one role. -/
theorem Holds.key_role (hin : key ∈ s) : ∃! role, s.Plays key role := by
  obtain ⟨e, he⟩ := exists_of_mem hin
  obtain ⟨k, hk, rfl, hlayout⟩ := hs.exists_of_get? he
  refine ⟨k.role, ⟨k, rfl, rfl, hs.owns hdb hlayout⟩, ?_⟩
  intro role hplays
  obtain ⟨k', rfl, htext, howns⟩ := hplays
  obtain ⟨k'', hk'', htext'', hrole⟩ := hs.exists_proper hdb howns
  rw [← hrole, Key.text_injective hk'' hk (htext''.trans htext)]

theorem Holds.key_type {role : Role} (hin : key ∈ s) (hplays : s.Plays key role) :
    s.keyType key = role.type := by
  obtain ⟨k, rfl, rfl, howns⟩ := hplays
  obtain ⟨k', hk', htext, hrole⟩ := hs.exists_proper hdb howns
  rw [← htext] at hin ⊢
  rw [hs.keyType hk' hin, hrole]

/-- There is a key for each row that is there. -/
theorem Holds.row_mem_iff (ht : t.Tagged) {id : RowId} :
    (Key.row t id).text ∈ s ↔ id ∈ (db.table t).rows := by
  rw [OrderedMap.mem_iff_isSome, hs.get?_row ht]
  by_cases hid : id ∈ (db.table t).rows
  · rw [Entry.ofHash, (hdb.table_valid t).row_fields hid]
    exact iff_of_true rfl hid
  · rw [Table.fields_of_notMem hid]
    exact iff_of_false Bool.noConfusion hid

/-- The keys of a table fit together because the table is valid. -/
theorem Holds.tableWellFormed (h : s.HasTable t) : s.TableWellFormed t := by
  have hmem := (hs.hasTable_iff hdb).mp h
  have ht := hdb.tagged hmem
  have htable := hdb.table_valid t
  constructor
  case namespace_there => exact (hs.hasNamespace_iff hdb).mpr (hdb.table_namespace hmem)
  case row_there =>
    intro id
    rw [hs.row_mem_iff hdb ht, hs.membersAt_rows ht]
    exact (RowSet.toString_mem_texts.trans Table.mem_ids).symm
  case row_fields =>
    intro id hid
    rw [hs.membersAt_rows ht] at hid
    have hrow := Table.mem_ids.mp (RowSet.toString_mem_texts.mp hid)
    rw [hs.fieldsAt_row ht]
    exact ⟨hs.keyType (k := .row t id) ht ((hs.row_mem_iff hdb ht).mpr hrow),
      htable.row_fields hrow⟩
  case row_number =>
    intro member hmember
    rw [hs.membersAt_rows ht] at hmember
    obtain ⟨id, hid, rfl⟩ := RowSet.mem_texts.mp hmember
    obtain ⟨hfirst, hlast⟩ := htable.row_number (Table.mem_ids.mp hid)
    have hne : (db.table t).last ≠ 0 := Nat.ne_of_gt (Nat.le_trans hfirst hlast)
    refine ⟨id, (db.table t).last, rfl, hfirst, hlast, ?_⟩
    rw [hs.get?_counter ht, Entry.ofCount, if_neg hne]
  case row_field =>
    intro id column value hfield
    rw [hs.fieldsAt_row ht] at hfield
    obtain ⟨type, htype, haccepts⟩ := htable.admitted hfield
    refine ⟨type, ?_, haccepts⟩
    rw [hs.fieldsAt_schema ht, Table.image, OrderedMap.get?_mapValues, htype]
    rfl
  case indexed_declared =>
    intro column hcolumn
    rw [hs.membersAt_indexed ht] at hcolumn
    rw [hs.fieldsAt_schema ht]
    exact OrderedMap.mem_mapValues.mpr (htable.indexed_declared hcolumn)

end

/-- Whatever commands have been run, each key plays one role and holds what goes with it, and the
keys of each table fit together. -/
theorem Reachable.wellFormed (h : s.Reachable) : s.WellFormed := by
  obtain ⟨db, hdb, hs⟩ := h.exists_database
  exact ⟨hs.key_role hdb, hs.key_type hdb, hs.tableWellFormed hdb⟩

theorem sample_wellFormed : sample.Reachable ∧ sample.WellFormed :=
  ⟨sample_reachable, sample_reachable.wellFormed⟩

end Store

end Tabular
