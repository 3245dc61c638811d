import Tabular.Proofs.Keyspace

/-!
The layout of keys is unambiguous. A key is made of names that commands accept (`Key.Valid`), of any
row number and of any value. Its text then tells which of the seven forms it has and all that it is
made of, and the keys of schemas are the only ones to give a table back (`Key.text_unambiguous`). So
each key of a store that commands can reach reads in one way only
(`Store.Reachable.existsUnique_key`).
-/

namespace Tabular

/-! ### Names -/

/-- A column may have any name that is not empty and has no colon. -/
theorem Column.exists_parse_iff {name : String} :
    (∃ spec column, parse spec = .ok column ∧ column.name = name) ↔
      name ≠ "" ∧ ':' ∉ name.toList := by
  constructor
  · rintro ⟨spec, column, hparse, rfl⟩
    exact ⟨(exists_cut_of_parse hparse).1, notMem_of_parse hparse⟩
  · rintro ⟨hne, hcolon⟩
    -- a specification without an index defines it
    have hcut : Text.cut? ':' (name ++ ":string") = some (name, "string") :=
      Text.cut?_eq_some_iff.mpr ⟨hcolon, by simp⟩
    have hrest : Text.cut? ':' "string" = none := by decide
    have htype : ColumnType.ofName? "string" = some .string := ColumnType.ofName?_name .string
    refine ⟨name ++ ":string", ⟨name, .string, false⟩, ?_, rfl⟩
    unfold parse
    simp only [hcut, if_neg hne, hrest, htype]
    rfl

/-- A name of a table as commands accept it: both parts are there, the first has no dot, and both
pass the check. -/
def TableName.Accepted (t : TableName) : Prop := t.Proper ∧ t.check = .ok ()

instance (t : TableName) : Decidable t.Accepted :=
  inferInstanceAs (Decidable ((_ ∧ _ ∧ _) ∧ _))

theorem TableName.Accepted.tagged {t : TableName} (h : t.Accepted) : t.Tagged :=
  ⟨h.1, notMem_of_check h.2⟩

/-! ### Keys and their texts -/

namespace Key

/-- A key made of names that commands accept. -/
def Valid : Key → Prop
  | marker ns => ns ≠ "" ∧ '.' ∉ ns.toList ∧ nameFault? ns = none
  | schema t | indexed t | counter t | rows t | row t _ => t.Accepted
  | index t column _ => t.Accepted ∧ ':' ∉ column.toList

instance : DecidablePred Valid
  | marker _ => inferInstanceAs (Decidable (_ ∧ _ ∧ _))
  | schema t | indexed t | counter t | rows t | row t _ => inferInstanceAs (Decidable t.Accepted)
  | index _ _ _ => inferInstanceAs (Decidable (_ ∧ _))

theorem Valid.proper {k : Key} (h : k.Valid) : k.Proper := by
  cases k with
  | marker ns => exact h.2.1
  | schema t => exact h.1
  | index t column value => exact ⟨h.1.tagged, h.2⟩
  | _ => exact TableName.Accepted.tagged h

/-- A key that is no schema gives no table back. -/
theorem schemaTable?_eq_none {k : Key} (hk : k.Proper) (hne : ∀ t, k ≠ schema t) :
    schemaTable? k.text = none := by
  rw [Option.eq_none_iff_forall_ne_some]
  intro t h
  obtain ⟨ht, htext⟩ := schemaTable?_eq_some_iff.mp h
  exact hne t (text_injective hk ht htext)

/-- Two keys made of names that commands accept have one text only if they have one form and are made
of the same. The key of a schema gives its table back and no other key gives any. The names of
columns that keys take are, the empty one aside, those that specifications can define. -/
theorem text_unambiguous :
    (∀ k k' : Key, k.Valid → k'.Valid → (k.text = k'.text ↔ k = k')) ∧
    (∀ t : TableName, t.Accepted → schemaTable? (schema t).text = some t) ∧
    (∀ k : Key, k.Valid → (∀ t, k ≠ schema t) → schemaTable? k.text = none) ∧
    ∀ name : String, (∃ spec column, Column.parse spec = .ok column ∧ column.name = name) ↔
      name ≠ "" ∧ ':' ∉ name.toList := by
  refine ⟨fun k k' hk hk' => ?_, fun t ht => ?_, fun k hk hne => ?_, fun name => ?_⟩
  · exact text_inj hk.proper hk'.proper
  · exact schemaTable?_eq_some_iff.mpr ⟨ht.1, rfl⟩
  · exact schemaTable?_eq_none hk.proper hne
  · exact Column.exists_parse_iff

/-- The index of a column called `meta` is kept apart from the set of the columns with an index, and
a schema from the marker of its namespace. -/
theorem sample_text_unambiguous :
    let t : TableName := ⟨"app", "users.old"⟩
    t.Accepted ∧ (index t "meta" "").Valid ∧ (indexed t).Valid ∧ (marker "app").Valid ∧
      (index t "meta" "").text ≠ (indexed t).text ∧
      schemaTable? (schema t).text = some t ∧ schemaTable? (marker "app").text = none := by
  intro t
  have ht : t.Accepted := by decide
  have hindexed : (indexed t).Valid := ht
  have hindex : (index t "meta" "").Valid := ⟨ht, by decide⟩
  have hmarker : (marker "app").Valid := by decide
  refine ⟨ht, hindex, hindexed, hmarker, ?_, ?_, ?_⟩
  · intro htext
    cases (text_unambiguous.1 _ _ hindex hindexed).mp htext
  · exact text_unambiguous.2.1 t ht
  · exact text_unambiguous.2.2.1 _ hmarker fun _ h => by cases h

/-- Keys would share a text if a column had a colon, a namespace a dot or the name of a table a
brace. -/
example : (index ⟨"app", "users"⟩ "a:b" "c").text = (index ⟨"app", "users"⟩ "a" "b:c").text ∧
    (marker "app.users").text = (schema ⟨"app", "users"⟩).text ∧
    (rows ⟨"app", "users\x7d:idx:a"⟩).text = (index ⟨"app", "users"⟩ "a\x7d" "rows").text := by
  decide

end Key

/-! ### Keys of a store -/

/-- What a valid database has a key for is made of names that commands accept. -/
theorem Database.Valid.key_valid {db : Database} {k : Key} {e : Entry} (hdb : db.Valid)
    (hk : k.Proper) (h : db.layout k = some e) : k.Valid := by
  cases k with
  | marker ns =>
      exact Catalog.checkNamespace_eq_ok_iff.mp (hdb.namespace_name (mem_namespaces_of_layout h))
  | index t column value => exact ⟨hdb.table_name (mem_tables_of_layout rfl h), hk.2⟩
  | _ => exact hdb.table_name (mem_tables_of_layout rfl h)

/-- Each key that is there is the text of one key made of names that commands accept. -/
theorem Store.Reachable.existsUnique_key {s : Store} {key : String} (h : s.Reachable)
    (hin : key ∈ s) : ∃! k : Key, k.Valid ∧ k.text = key := by
  obtain ⟨db, hdb, hs⟩ := h.exists_database
  obtain ⟨e, he⟩ := exists_of_mem hin
  obtain ⟨k, hk, rfl, hlayout⟩ := hs.exists_of_get? he
  refine ⟨k, ⟨hdb.key_valid hk hlayout, rfl⟩, ?_⟩
  rintro k' ⟨hk', htext⟩
  exact Key.text_injective hk'.proper hk htext

end Tabular
