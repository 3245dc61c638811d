import Tabular.Proofs.Writes

/-!
Stores that calls of the engine can reach. Commands write the names of columns without a colon, and
no call asks for that, so index keys of two columns may share a text. Each key still holds what goes
with its role (`Called.typed`), and the keys that the removal of an index deletes are told by their
text alone: it deletes those of another column that begin with the stem of the column
(`Called.dropIndex_spares_iff`).
-/

namespace Tabular

/-! ### Keys with any column -/

namespace Key

/-- A key that can be told from those of other roles by its text, if it has no colon in the column
or has one. -/
def Clear : Key → Prop
  | marker ns => '.' ∉ ns.toList
  | schema t | indexed t | counter t | rows t | row t _ | index t _ _ => '\x7d' ∉ t.full.toList

variable {k k' : Key} {t t' : TableName}

theorem clear_of_table? (h : k.table? = some t) : k.Clear ↔ '\x7d' ∉ t.full.toList := by
  cases k <;> simp only [table?, reduceCtorEq, Option.some.injEq] at h <;> subst h <;> rfl

/-- The first word behind the name of the table tells what the key holds. -/
theorem role_type_of_tag (h : k.tag? = some t) :
    k.role.type = if k.localPart.toList = "id".toList then .text
      else if k.localPart.toList.head?.any Char.isDigit then .hash else .set := by
  cases k with
  | marker ns => cases h
  | schema t => cases h
  | indexed t => simp [localPart, role, Role.type]
  | counter t => simp [localPart, role, Role.type]
  | rows t => simp [localPart, role, Role.type]
  | index t column value => simp [localPart, role, Role.type]
  | row t id =>
      have hne : Nat.toDigits 10 id ≠ "id".toList := by
        rw [show "id".toList = ['i', 'd'] by simp]
        exact toDigits_ne_cons rfl
      rw [localPart, Text.toList_toString, if_neg hne]
      cases hdigits : Nat.toDigits 10 id with
      | nil => exact (Nat.toDigits_ne_nil hdigits).elim
      | cons c cs =>
          have hdigit : c.isDigit = true :=
            Nat.isDigit_of_mem_toDigits (by decide) (by decide) (hdigits ▸ List.mem_cons_self)
          simp [hdigit, role, Role.type]

/-- Clear keys of one text hold the same kind of value. -/
theorem type_eq_of_text (hk : k.Clear) (hk' : k'.Clear) (h : k.text = k'.text) :
    k.role.type = k'.role.type := by
  cases htag : k.tag? with
  | some t =>
      cases htag' : k'.tag? with
      | none => exact (text_ne_of_tag htag htag' h).elim
      | some t' =>
          have hlist := congrArg String.toList h
          rw [toList_text_of_tag htag, toList_text_of_tag htag'] at hlist
          have ht := (clear_of_table? (table?_of_tag? htag)).mp hk
          have ht' := (clear_of_table? (table?_of_tag? htag')).mp hk'
          have hlocal := (Text.append_cons_inj ht ht' (List.cons.inj hlist).2).2
          rw [role_type_of_tag htag, role_type_of_tag htag', (List.cons.inj hlocal).2]
  | none =>
      cases htag' : k'.tag? with
      | some t' => exact (text_ne_of_tag htag' htag h.symm).elim
      | none =>
          -- what is left are markers and schema keys, and only a schema key has a dot
          have hdot {ns : String} {t : TableName} (hns : '.' ∉ ns.toList) :
              (marker ns).text ≠ (schema t).text := by
            intro h
            rw [text, text, schemaText_inj] at h
            exact hns (h ▸ t.dot_mem_full)
          cases k with
          | marker ns =>
              cases k' with
              | marker ns' => rfl
              | schema t => exact (hdot hk h).elim
              | _ => cases htag'
          | schema t =>
              cases k' with
              | marker ns => exact (hdot hk' h.symm).elim
              | schema t' => rfl
              | _ => cases htag'
          | _ => cases htag

end Key

/-! ### Calls -/

/-- A call of the engine. -/
inductive Call
  | createNamespace (ns : String)
  | createTable (table : TableName) (columns : List Column)
  | addColumn (table : TableName) (column : Column)
  | insert (table : TableName) (fields : List (String × String))
  | update (limit : Nat) (table : TableName) (w : Option WhereClause)
      (fields : List (String × String))
  | delete (limit : Nat) (table : TableName) (w : Option WhereClause)
  | addIndex (table : TableName) (column : String)
  | dropIndex (table : TableName) (column : String) (pageSize : Nat)

namespace Call

/-- What the call does, whatever it returns. -/
def run : Call → StoreM Unit
  | createNamespace ns => Catalog.createNamespace ns
  | createTable t columns => Catalog.createTable t columns
  | addColumn t column => Catalog.addColumn t column
  | insert t fields => do let _ ← Engine.insert t fields
  | update limit t w fields => do let _ ← Engine.update limit t w fields
  | delete limit t w => do let _ ← Engine.delete limit t w
  | addIndex t column => do let _ ← Engine.addIndex t column
  | dropIndex t column pageSize => do let _ ← Engine.dropIndex t column pageSize

/-- The keys that the call may write. -/
def MayWrite : Call → Key → Prop
  | createNamespace ns, k => k = .marker ns
  | createTable t _, k | addColumn t _, k | insert t _, k | update _ t _ _, k | delete _ t _, k
  | addIndex t _, k | dropIndex t _ _, k => k.table? = some t

end Call

namespace StoreM

variable {α β : Type} {p x : StoreM α} {f : α → StoreM β} {t : TableName}

theorem Writes.of_beside (hp : Writes p (Key.BesideCounter t)) : Writes p (·.table? = some t) :=
  hp.mono fun _ hk => hk.1

theorem writes_call (c : Call) : Writes c.run c.MayWrite := by
  cases c with
  | createNamespace ns => exact writes_createNamespace ns
  | createTable t columns => exact Writes.of_beside (writes_createTable t columns)
  | addColumn t column => exact Writes.of_beside (writes_addColumn t column)
  | insert t fields => exact (writes_insert t fields).bind fun _ => Writes.ret ()
  | update limit t w fields =>
      exact (Writes.of_beside (writes_update t .ascending limit w fields)).bind fun _ => Writes.ret ()
  | delete limit t w =>
      exact (Writes.of_beside (writes_delete t .ascending limit w)).bind fun _ => Writes.ret ()
  | addIndex t column =>
      exact (Writes.of_beside (writes_addIndex t .ascending column)).bind fun _ => Writes.ret ()
  | dropIndex t column pageSize =>
      exact (Writes.of_beside (writes_dropIndex t column pageSize)).bind fun _ => Writes.ret ()

/-- Without the table the program fails before it has written anything. -/
def Needs (p : StoreM α) (t : TableName) : Prop :=
  ∀ s : Store, s.keyType (Key.schema t).text ≠ .hash →
    p.exec ⟨s, none⟩ = (.error (.tableNotFound t), ⟨s, none⟩)

theorem Needs.bind (hx : Needs x t) : Needs (x >>= f) t :=
  fun s hs => exec_bind_error (hx s hs)

theorem needs_ensureTable (t : TableName) : Needs (Catalog.ensureTable t) t := by
  intro s hs
  have hfound : (Catalog.tableExists t).exec ⟨s, none⟩ = (.ok false, ⟨s, none⟩) := by
    refine (exec_bind_ok (exec_look .keyType _ s)).trans ?_
    rw [decide_eq_false hs]
    rfl
  rw [Catalog.ensureTable, exec_bind_ok hfound]
  rfl

theorem needs_rows (limit : Nat) (t : TableName) (w : Option WhereClause) :
    Needs (Query.rows limit t w) t := by
  refine Needs.bind ?_
  cases w with
  | none => exact (needs_ensureTable t).bind
  | some w => exact (needs_ensureTable t).bind

end StoreM

namespace Store

variable {s s' : Store} {t : TableName} {k : Key} {e : Entry}

/-- The store after a call, whether it succeeds or fails. -/
def afterCall (c : Call) (s : Store) : Store := (c.run.exec ⟨s, none⟩).2.store

/-- Calls in any number lead here from the empty store. -/
inductive Called : Store → Prop
  | empty : Called ∅
  | call {s : Store} (h : Called s) (c : Call) : Called (s.afterCall c)

/-! ### Keys hold what goes with their roles -/

/-- What is in the store is under clear keys, and goes with their roles. -/
def Typed (s : Store) : Prop :=
  ∀ {x e}, s.get? x = some e → ∃ k : Key, k.Clear ∧ k.text = x ∧ e.type = k.role.type

namespace Typed

theorem type_of_get? (h : s.Typed) (hk : k.Clear) (he : s.get? k.text = some e) :
    e.type = k.role.type := by
  obtain ⟨k', hk', htext, htype⟩ := h he
  exact htype.trans (Key.type_eq_of_text hk' hk htext)

/-- The name of a table that is there may stand in braces. -/
theorem clear_of_schema (h : s.Typed) (ht : s.keyType (Key.schema t).text = .hash) :
    '\x7d' ∉ t.full.toList := by
  cases he : s.get? (Key.schema t).text with
  | none =>
      rw [keyType, he] at ht
      cases ht
  | some e =>
      obtain ⟨k, hk, htext, htype⟩ := h he
      rw [keyType_eq he] at ht
      cases htag : k.tag? with
      | some t' => exact (Key.text_ne_of_tag htag rfl htext).elim
      | none =>
          cases k with
          | marker ns => cases ht.symm.trans htype
          | schema t' =>
              rw [Key.text, Key.text, Key.schemaText_inj] at htext
              exact htext ▸ hk
          | _ => cases htag

theorem of_written {K : Key → Prop} (h : s.Typed) (hs' : s.WrittenAt K s')
    (hK : ∀ k, K k → k.Clear) : s'.Typed := by
  intro x e he
  rcases hs' x with heq | ⟨k, hk, htext, htype⟩
  · exact h (heq ▸ he)
  · exact ⟨k, hK k hk, htext, htype e he⟩

/-- A call keeps it if it fails at once or may only write clear keys. -/
theorem afterCall_of (h : s.Typed) {c : Call}
    (hc : (∃ e, c.run.exec ⟨s, none⟩ = (.error e, ⟨s, none⟩)) ∨ ∀ k, c.MayWrite k → k.Clear) :
    (s.afterCall c).Typed := by
  rcases hc with ⟨e, hexec⟩ | hclear
  · rw [afterCall, hexec]
    exact h
  · obtain ⟨r, s', hexec, hwritten⟩ := StoreM.writes_call c s
    rw [afterCall, hexec]
    exact h.of_written hwritten hclear

theorem afterCall_of_needs (h : s.Typed) {c : Call} (hneeds : c.run.Needs t)
    (hc : c.MayWrite = (·.table? = some t)) : (s.afterCall c).Typed := by
  refine h.afterCall_of ?_
  by_cases ht : s.keyType (Key.schema t).text = .hash
  · have hclear := h.clear_of_schema ht
    rw [hc]
    exact Or.inr fun k hk => (Key.clear_of_table? hk).mpr hclear
  · exact Or.inl ⟨_, hneeds s ht⟩

theorem afterCall (h : s.Typed) (c : Call) : (s.afterCall c).Typed := by
  cases c with
  | createNamespace ns =>
      refine h.afterCall_of ?_
      cases hcheck : Catalog.checkNamespace ns with
      | error e => exact Or.inl ⟨e, StoreM.exec_bind_error (by rw [StoreM.exec_ofExcept, hcheck])⟩
      | ok _ =>
          have hdot := Database.dot_notMem_of_checkNamespace hcheck
          exact Or.inr fun k hk => hk ▸ hdot
  | createTable t columns =>
      refine h.afterCall_of ?_
      cases hcheck : t.check with
      | error e => exact Or.inl ⟨e, StoreM.exec_bind_error (by rw [StoreM.exec_ofExcept, hcheck])⟩
      | ok _ =>
          have hclear := TableName.notMem_of_check hcheck
          exact Or.inr fun k hk => (Key.clear_of_table? hk).mpr hclear
  | addColumn t column => exact h.afterCall_of_needs (StoreM.needs_ensureTable t).bind rfl
  | insert t fields => exact h.afterCall_of_needs (StoreM.needs_ensureTable t).bind.bind rfl
  | update limit t w fields =>
      exact h.afterCall_of_needs (StoreM.needs_ensureTable t).bind.bind rfl
  | delete limit t w => exact h.afterCall_of_needs (StoreM.needs_rows limit t w).bind.bind rfl
  | addIndex t column => exact h.afterCall_of_needs (StoreM.needs_ensureTable t).bind.bind rfl
  | dropIndex t column pageSize =>
      exact h.afterCall_of_needs (StoreM.needs_ensureTable t).bind.bind rfl

end Typed

theorem Called.typed (h : s.Called) : s.Typed := by
  induction h with
  | empty => exact fun he => by cases he
  | call _ c ih => exact ih.afterCall c

/-! ### The removal of an index -/

/-- The rows that the index of a column has under a value. -/
def lookup (s : Store) (t : TableName) (column value : String) : Except Error RowSet :=
  ((Query.lookupRows t column value).exec ⟨s, none⟩).1

theorem Typed.smembers_eq (h : s.Typed) (hk : k.Clear) (htype : k.role.type = .set) :
    s.smembers k.text = .ok (s.membersAt k.text) := by
  unfold smembers membersAt
  cases he : s.get? k.text with
  | none => rfl
  | some e =>
      have hset := (h.type_of_get? hk he).trans htype
      cases e with
      | set m => rfl
      | _ => cases hset

theorem Typed.lookup_eq (h : s.Typed) (ht : '\x7d' ∉ t.full.toList) (column value : String) :
    s.lookup t column value =
      .ok (RowSet.ofStored (s.membersAt (Key.index t column value).text)) := by
  have hset := h.smembers_eq (k := .index t column value) ht rfl
  have hexec := StoreM.exec_look .smembers (·.smembers (Key.index t column value).text) s
  rw [hset] at hexec
  exact congrArg Prod.fst (StoreM.exec_bind_ok hexec)

theorem hgetall_of_keyType {x : String} (hx : s.keyType x = .hash) :
    s.hgetall x = .ok (s.fieldsAt x) := by
  unfold keyType at hx
  unfold hgetall fieldsAt
  split at hx
  case h_3 fields heq => rw [heq]
  all_goals cases hx

section
variable (ht : s.keyType (Key.schema t).text = .hash)
include ht

theorem exec_ensureTable : (Catalog.ensureTable t).exec ⟨s, none⟩ = (.ok (), ⟨s, none⟩) := by
  have hfound : (Catalog.tableExists t).exec ⟨s, none⟩ = (.ok true, ⟨s, none⟩) := by
    refine (StoreM.exec_bind_ok (StoreM.exec_look .keyType _ s)).trans ?_
    rw [decide_eq_true ht]
    rfl
  rw [Catalog.ensureTable, StoreM.exec_bind_ok hfound]
  rfl

theorem exec_columnType {column : String} (hcolumn : column ∈ s.fieldsAt (Key.schema t).text) :
    ∃ type, (Catalog.columnType t column).exec ⟨s, none⟩ = (.ok type, ⟨s, none⟩) := by
  obtain ⟨type, htype⟩ := Option.isSome_iff_exists.mp (OrderedMap.mem_iff_isSome.mp hcolumn)
  have hget : s.hget (Key.schema t).text column = .ok (some type) := by
    rw [hget, hgetall_of_keyType ht, ← htype]
    rfl
  have hexec := StoreM.exec_look .hget (·.hget (Key.schema t).text column) s
  rw [hget] at hexec
  exact ⟨ColumnType.ofStored type, StoreM.exec_bind_ok hexec⟩

/-- To remove the index of a column that is declared unmarks the column and deletes what begins with
its stem. -/
theorem Typed.exec_dropIndex (h : s.Typed) {column : String}
    (hcolumn : column ∈ s.fieldsAt (Key.schema t).text) (pageSize : Nat) :
    ∃ n s', (Engine.dropIndex t column pageSize).exec ⟨s, none⟩ =
        (.ok (.removed, n), ⟨s', none⟩) ∧
      ∀ x, x ≠ (Key.indexed t).text → s'.get? x =
        if (t.indexStem column).toList <+: x.toList then none else s.get? x := by
  obtain ⟨type, htype⟩ := exec_columnType ht hcolumn
  let marks := s.membersAt (Key.indexed t).text
  let unmarked := s.putSet (Key.indexed t).text (marks.erase column)
  have hmarks : s.smembers (Key.indexed t).text = .ok marks :=
    h.smembers_eq (k := .indexed t) (h.clear_of_schema ht) rfl
  have hunmark : (StoreM.srem (Key.indexed t).text column).exec ⟨s, none⟩ =
      (.ok (marks.contains column), ⟨unmarked, none⟩) := by
    rw [StoreM.srem, StoreM.exec_call, srem, hmarks]
    rfl
  have hdelete := StoreM.exec_delMatching (t.indexPattern column) pageSize unmarked
  let matched := Glob.matchesKey (t.indexPattern column)
  refine ⟨(unmarked.keys.filter matched).length,
    OrderedMap.filter (fun key => !matched key) unmarked, ?_, fun x hx => ?_⟩
  · refine (StoreM.exec_bind_ok (exec_ensureTable ht)).trans ?_
    refine (StoreM.exec_bind_ok htype).trans ?_
    exact (StoreM.exec_bind_ok hunmark).trans (StoreM.exec_bind_ok hdelete)
  · rw [OrderedMap.get?_filter, get?_putSet, if_neg hx]
    have hstem : matched x = true ↔ (t.indexStem column).toList <+: x.toList :=
      TableName.matchesKey_indexPattern t column x
    cases hx : matched x <;> simp [← hstem, hx]

end

theorem afterCall_dropIndex {column : String} {pageSize : Nat} {out : Engine.IndexRemoval × Nat}
    (h : (Engine.dropIndex t column pageSize).exec ⟨s, none⟩ = (.ok out, ⟨s', none⟩)) :
    s.afterCall (.dropIndex t column pageSize) = s' := by
  have hrun : (Call.dropIndex t column pageSize).run.exec ⟨s, none⟩ = (.ok (), ⟨s', none⟩) :=
    StoreM.exec_bind_ok h
  rw [afterCall, hrun]

/-- What the index keys of a column begin with tells them from the key that marks columns. -/
theorem index_text_ne_indexed (t : TableName) (column value : String) :
    (Key.index t column value).text ≠ (Key.indexed t).text := by
  intro h
  have hlist := congrArg String.toList h
  rw [Key.toList_text_of_tag rfl, Key.toList_text_of_tag rfl] at hlist
  have hcolon : column.toList ++ ':' :: value.toList = "meta".toList := by
    simpa [Key.localPart] using hlist
  have hmem : ':' ∈ "meta".toList := hcolon ▸ by simp
  exact absurd hmem (by simp)

/-- An index key begins with the stem of a column if the two parts behind the name do. -/
theorem indexStem_prefix_index {column other value : String} :
    (t.indexStem column).toList <+: (Key.index t other value).text.toList ↔
      (column ++ ":").toList <+: (other ++ ":" ++ value).toList := by
  have hstem : t.indexStem column = braced t.full ++ ":idx:" ++ (column ++ ":") := by
    simp only [TableName.indexStem, String.append_assoc]
  have htext : (Key.index t other value).text =
      braced t.full ++ ":idx:" ++ (other ++ ":" ++ value) := by
    simp only [Key.text, String.append_assoc]
  rw [hstem, htext, String.toList_append, String.toList_append (t := other ++ ":" ++ value)]
  exact List.prefix_append_right_inj _

/-- Without a colon in either name, none begins like the other. -/
theorem eq_of_column_stem {column other value : String} (hcolumn : ':' ∉ column.toList)
    (hother : ':' ∉ other.toList)
    (h : (column ++ ":").toList <+: (other ++ ":" ++ value).toList) : column = other := by
  obtain ⟨rest, hrest⟩ := h
  have hlist : column.toList ++ ':' :: rest = other.toList ++ ':' :: value.toList := by
    simpa using hrest
  exact String.toList_inj.mp (Text.append_cons_inj hcolumn hother hlist).1

/-- To remove the index of one column empties the index of another under the values where the name
of that column, a colon and the value begin with the name of the first and a colon. Everywhere else it
leaves the index as it is. So it leaves all of it as it is if and only if nothing is there under
those values, and there are none if no name has a colon. -/
theorem Called.dropIndex_spares_iff (h : s.Called) (ht : s.keyType (Key.schema t).text = .hash)
    {column other : String} (hcolumn : column ∈ s.fieldsAt (Key.schema t).text)
    (hne : column ≠ other) (pageSize : Nat) :
    let s' := s.afterCall (.dropIndex t column pageSize)
    let Begins (value : String) := (column ++ ":").toList <+: (other ++ ":" ++ value).toList
    (∃ n, ((Engine.dropIndex t column pageSize).exec ⟨s, none⟩).1 = .ok (.removed, n)) ∧
      (∀ value, ∃ rows, s.lookup t other value = .ok rows ∧
        s'.lookup t other value = .ok (if Begins value then ∅ else rows)) ∧
      ((∀ value, s'.lookup t other value = s.lookup t other value) ↔
        ∀ value, Begins value → s.lookup t other value = .ok ∅) ∧
      (':' ∉ column.toList → ':' ∉ other.toList → ∀ value, ¬ Begins value) := by
  intro s' Begins
  have htyped : s.Typed := h.typed
  have hclear := htyped.clear_of_schema ht
  obtain ⟨n, s₁, hexec, hget⟩ := htyped.exec_dropIndex ht hcolumn pageSize
  have hs' : s' = s₁ := afterCall_dropIndex hexec
  have htyped' : s'.Typed := (h.call _).typed
  have hlookup (value : String) : s'.lookup t other value =
      if Begins value then .ok ∅ else s.lookup t other value := by
    have hkey := hget _ (index_text_ne_indexed t other value)
    rw [← hs'] at hkey
    rw [htyped'.lookup_eq hclear, htyped.lookup_eq hclear]
    unfold membersAt
    by_cases hbegins : Begins value
    · rw [hkey, if_pos (indexStem_prefix_index.mpr hbegins), if_pos hbegins]
      rfl
    · rw [hkey, if_neg (fun h => hbegins (indexStem_prefix_index.mp h)), if_neg hbegins]
  refine ⟨⟨n, by rw [hexec]⟩, fun value => ?_, ?_, fun hcolon hcolon' value hbegins => ?_⟩
  · refine ⟨_, htyped.lookup_eq hclear other value, ?_⟩
    rw [hlookup, htyped.lookup_eq hclear]
    split <;> rfl
  · refine forall_congr' fun value => ?_
    rw [hlookup]
    by_cases hbegins : Begins value
    · simp only [hbegins, if_true, true_imp_iff]
      exact eq_comm
    · simp only [hbegins, if_false, false_imp_iff]
  · exact hne (eq_of_column_stem hcolon hcolon' hbegins)

/-- A table with two indexed columns, the name of one of which begins like the other. -/
def sampleCalled : Store :=
  let t : TableName := ⟨"app", "users"⟩
  OrderedMap.ofList
    [((Key.marker "app").text, .text "1"),
     ((Key.schema t).text, .hash (OrderedMap.ofList [("a", "string"), ("a:b", "string")])),
     ((Key.indexed t).text, .set (OrderedSet.ofMembers ["a", "a:b"])),
     ((Key.counter t).text, .text "1"),
     ((Key.rows t).text, .set (OrderedSet.ofMembers ["1"])),
     ((Key.row t 1).text, .hash (OrderedMap.ofList [("a", "1"), ("a:b", "2")])),
     ((Key.index t "a" "1").text, .set (OrderedSet.ofMembers ["1"])),
     ((Key.index t "a:b" "2").text, .set (OrderedSet.ofMembers ["1"]))]

theorem sampleCalled_eq : sampleCalled =
    (((∅ : Store).afterCall (.createNamespace "app")).afterCall
      (.createTable ⟨"app", "users"⟩ [⟨"a", .string, true⟩, ⟨"a:b", .string, true⟩])).afterCall
      (.insert ⟨"app", "users"⟩ [("a", "1"), ("a:b", "2")]) := by
  cbv

theorem sampleCalled_called : sampleCalled.Called := by
  rw [sampleCalled_eq]
  exact ((Called.empty.call _).call _).call _

theorem sampleCalled_spares_iff :
    let t : TableName := ⟨"app", "users"⟩
    let s' := sampleCalled.afterCall (.dropIndex t "a:b" 2)
    let Begins (value : String) := ("a:b" ++ ":").toList <+: ("a" ++ ":" ++ value).toList
    sampleCalled.Called ∧ sampleCalled.keyType (Key.schema t).text = .hash ∧
      "a:b" ∈ sampleCalled.fieldsAt (Key.schema t).text ∧ "a:b" ≠ "a" ∧
      (∃ n, ((Engine.dropIndex t "a:b" 2).exec ⟨sampleCalled, none⟩).1 = .ok (.removed, n)) ∧
      (∀ value, ∃ rows, sampleCalled.lookup t "a" value = .ok rows ∧
        s'.lookup t "a" value = .ok (if Begins value then ∅ else rows)) ∧
      ((∀ value, s'.lookup t "a" value = sampleCalled.lookup t "a" value) ↔
        ∀ value, Begins value → sampleCalled.lookup t "a" value = .ok ∅) ∧
      (':' ∉ "a:b".toList → ':' ∉ "a".toList → ∀ value, ¬ Begins value) := by
  intro t s' Begins
  have ht : sampleCalled.keyType (Key.schema t).text = .hash := by cbv
  have hcolumn : "a:b" ∈ sampleCalled.fieldsAt (Key.schema t).text := of_decide_eq_true (by cbv)
  exact ⟨sampleCalled_called, ht, hcolumn, by decide,
    sampleCalled_called.dropIndex_spares_iff ht hcolumn (by decide) 2⟩

/-- The keys of both indexes begin with the stem of the shorter name. -/
theorem sampleCalled_dropIndex :
    let t : TableName := ⟨"app", "users"⟩
    (Engine.dropIndex t "a" 2).exec ⟨sampleCalled, none⟩ =
      (.ok (.removed, 2), ⟨OrderedMap.ofList
        [((Key.marker "app").text, .text "1"),
         ((Key.schema t).text, .hash (OrderedMap.ofList [("a", "string"), ("a:b", "string")])),
         ((Key.indexed t).text, .set (OrderedSet.ofMembers ["a:b"])),
         ((Key.counter t).text, .text "1"),
         ((Key.rows t).text, .set (OrderedSet.ofMembers ["1"])),
         ((Key.row t 1).text, .hash (OrderedMap.ofList [("a", "1"), ("a:b", "2")]))], none⟩) := by
  cbv

/-- To remove the index of one column takes a row out of the index of the other. -/
theorem sampleCalled_not_spared :
    let t : TableName := ⟨"app", "users"⟩
    let s' := sampleCalled.afterCall (.dropIndex t "a" 2)
    sampleCalled.Called ∧ sampleCalled.keyType (Key.schema t).text = .hash ∧
      "a" ∈ sampleCalled.fieldsAt (Key.schema t).text ∧
      "a:b" ∈ sampleCalled.fieldsAt (Key.schema t).text ∧
      "a:b" ∈ sampleCalled.membersAt (Key.indexed t).text ∧ "a" ≠ "a:b" ∧
      ((Engine.dropIndex t "a" 2).exec ⟨sampleCalled, none⟩).1 = .ok (.removed, 2) ∧
      sampleCalled.lookup t "a:b" "2" = .ok (OrderedSet.ofMembers [1]) ∧
      s'.lookup t "a:b" "2" = .ok ∅ := by
  intro t s'
  have hexec := sampleCalled_dropIndex
  have hs' : s' = _ := afterCall_dropIndex hexec
  refine ⟨sampleCalled_called, by cbv, of_decide_eq_true (by cbv), of_decide_eq_true (by cbv),
    of_decide_eq_true (by cbv), by decide, by rw [hexec], by cbv, ?_⟩
  rw [hs']
  cbv

end Store

end Tabular
