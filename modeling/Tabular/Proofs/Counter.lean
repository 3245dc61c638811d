import Tabular.Proofs.History
import Tabular.Proofs.Writes

/-!
Who writes the counter of a table. Whatever a store holds, insertions into the table count on and
nothing else writes the counter but the removal of the table (`leaves_counter_run`). So an insertion
that succeeds gives a number greater than all that have been counted to before, however the other
keys of the table have come to be what they are (`Counted.insert`, `Counted.lines`).
-/

namespace Tabular

/-! ### The key of a counter -/

namespace Key

variable {t t' : TableName} {k : Key} {column : String}

/-- What begins like a key of a table and is a counter's key is the key of its counter. -/
theorem eq_of_counter_text {rest : List Char} (ht : t.Tagged) (ht' : t'.Proper)
    (h : (Key.counter t).text.toList =
      '\x7b' :: (t'.full.toList ++ '\x7d' :: ':' :: rest)) : t' = t ∧ rest = "id".toList := by
  rw [toList_text_of_tag (k := .counter t) rfl] at h
  have hlist := (List.cons.inj h).2
  -- a counter's key has one closing brace, so there is none in the name
  have hcount := congrArg (List.count '\x7d') hlist
  have hnone := List.count_eq_zero.mpr ht.2
  have hid : List.count '\x7d' (localPart (.counter t)).toList = 0 := by simp [localPart]
  rw [List.count_append, List.count_append, List.count_cons_self, List.count_cons_self, hnone,
    List.count_cons_of_ne (by decide), List.count_cons_of_ne (by decide), hid] at hcount
  have hname : '\x7d' ∉ t'.full.toList := by
    apply List.count_eq_zero.mp
    omega
  obtain ⟨hfull, hrest⟩ := Text.append_cons_inj ht.2 hname hlist
  refine ⟨(TableName.full_injective ht.1 ht' (String.toList_inj.mp hfull)).symm, ?_⟩
  exact (List.cons.inj hrest).2.symm

/-- No other key of a table shares its text with a counter. -/
theorem text_ne_counter (ht : t.Tagged) (ht' : t'.Proper) (hk : k.table? = some t')
    (hne : k ≠ .counter t) : k.text ≠ (Key.counter t).text := by
  intro h
  cases htag : k.tag? with
  | none => exact text_ne_of_tag (k := .counter t) rfl htag h.symm
  | some t₁ =>
      obtain rfl : t₁ = t' := Option.some.inj ((table?_of_tag? htag).symm.trans hk)
      have hlist := congrArg String.toList h.symm
      rw [toList_text_of_tag htag] at hlist
      obtain ⟨rfl, hlocal⟩ := eq_of_counter_text ht ht' hlist
      cases k with
      | counter t₂ => exact hne (congrArg Key.counter (Option.some.inj hk))
      | row t₂ id =>
          rw [localPart, Text.toList_toString] at hlocal
          exact toDigits_ne_cons rfl hlocal
      | marker ns => cases htag
      | schema t₂ => cases htag
      | _ => simp [localPart] at hlocal

end Key

namespace TableName

variable {t t' : TableName}

/-- To delete the keys of a table spares the counters of all others. -/
theorem keyPattern_spares_counter (ht : t.Tagged) (ht' : t'.Proper) (hne : t' ≠ t) :
    Glob.matchesKey t'.keyPattern (Key.counter t).text ≠ true := by
  rw [ne_eq, matchesKey_keyPattern, Key.toList_keyStem]
  rintro ⟨rest, hrest⟩
  have htext : (Key.counter t).text.toList =
      '\x7b' :: (t'.full.toList ++ '\x7d' :: ':' :: rest) := by
    rw [← hrest]
    simp
  exact hne (Key.eq_of_counter_text ht ht' htext).1

end TableName

namespace StoreM

variable {α β : Type} {key : String} {p : StoreM α}

/-- Whatever the store holds, the program leaves the key as it is. -/
def Leaves (p : StoreM α) (key : String) : Prop :=
  ∀ s : Store, ∃ r s', p.exec ⟨s, none⟩ = (r, ⟨s', none⟩) ∧ s'.get? key = s.get? key

namespace Leaves

variable {x : StoreM α} {f : α → StoreM β}

/-- A program leaves alone what it does not write. -/
theorem of_writes {K : Key → Prop} (hp : Writes p K) (hne : ∀ k, K k → k.text ≠ key) :
    Leaves p key := by
  intro s
  obtain ⟨r, s', hexec, hwritten⟩ := hp s
  exact ⟨r, s', hexec, hwritten.get?_eq hne⟩

theorem of_reads (hp : Reads p) : Leaves p key :=
  of_writes (Writes.of_reads (K := fun _ => False) hp) fun _ h => h.elim

theorem ret (a : α) : Leaves (pure a) key := of_reads (Reads.ret a)

theorem bind (hx : Leaves x key) (hf : ∀ a, Leaves (f a) key) : Leaves (x >>= f) key := by
  intro s
  obtain ⟨r, s', hexec, hs'⟩ := hx s
  cases r with
  | error e => exact ⟨_, s', exec_bind_error hexec, hs'⟩
  | ok a =>
      obtain ⟨r, s'', hexec', hs''⟩ := hf a s'
      exact ⟨r, s'', (exec_bind_ok hexec).trans hexec', hs''.trans hs'⟩

end Leaves

theorem leaves_delMatching {pattern : String} (pageSize : Nat)
    (h : Glob.matchesKey pattern key ≠ true) : Leaves (delMatching pattern pageSize) key := by
  intro s
  refine ⟨_, _, exec_delMatching pattern pageSize s, ?_⟩
  rw [OrderedMap.get?_filter, Bool.eq_false_iff.mpr h]
  rfl

section
variable {t t' : TableName} (ht : t.Tagged) (ht' : t'.Proper)
include ht ht'

/-- What writes a table and not its counter leaves all counters alone. -/
theorem leaves_counter_of_writes (hp : Writes p (Key.BesideCounter t')) :
    Leaves p (Key.counter t).text := by
  refine Leaves.of_writes hp fun k hk => Key.text_ne_counter ht ht' hk.1 ?_
  rintro rfl
  obtain rfl : t = t' := Option.some.inj hk.1
  exact hk.2 rfl

theorem leaves_insert (hne : t' ≠ t) (fields : List (String × String)) :
    Leaves (Engine.insert t' fields) (Key.counter t).text := by
  refine Leaves.of_writes (writes_insert t' fields) fun k hk => Key.text_ne_counter ht ht' hk ?_
  rintro rfl
  exact hne (Option.some.inj hk).symm

theorem leaves_dropTable (hne : t' ≠ t) (pageSize : Nat) :
    Leaves (Catalog.dropTable t' pageSize) (Key.counter t).text := by
  have hspares := TableName.keyPattern_spares_counter ht ht' hne
  have hschema : Writes (del (Key.schema t').text) (Key.BesideCounter t') :=
    writes_del ⟨rfl, Role.noConfusion⟩
  refine (Leaves.of_reads (reads_ensureTable t')).bind fun _ => ?_
  refine (leaves_delMatching pageSize hspares).bind fun _ => ?_
  exact (leaves_counter_of_writes ht ht' hschema).bind fun _ => Leaves.ret _

end

/-- No command writes the counter of a table but insertions into it and its removal. -/
theorem leaves_counter_run {t : TableName} {c : Command} (ht : t.Tagged) (hc : c.Proper)
    (hinsert : ∀ fields, c ≠ .insert t fields) (hdrop : c ≠ .dropTable t) (config : Config) :
    Leaves (c.run config) (Key.counter t).text := by
  have hproper {t' : TableName} (h : c.table? = some t') : t'.Proper := hc.table h
  have beside {α : Type} {p : StoreM α} {t' : TableName} (ht' : t'.Proper)
      (hp : Writes p (Key.BesideCounter t')) : Leaves p (Key.counter t).text :=
    leaves_counter_of_writes ht ht' hp
  cases c with
  | createNamespace ns =>
      refine Leaves.bind (Leaves.of_writes (writes_createNamespace ns) ?_) fun _ => Leaves.ret _
      rintro k rfl
      exact (Key.text_ne_of_tag (k := .counter t) rfl rfl).symm
  | listTables ns =>
      refine Leaves.of_reads (Reads.bind ?_ fun _ => Reads.ret _)
      exact (reads_matchingKeys _ _).bind fun _ => Reads.ret _
  | help => exact Leaves.ret _
  | viewSchema t' =>
      refine Leaves.of_reads (Reads.bind ?_ fun _ => Reads.ret _)
      refine (reads_ensureTable t').bind fun _ => (reads_indexedColumns t').bind fun _ => ?_
      exact (reads_columnTypes t').bind fun _ => Reads.ret _
  | select t' w =>
      refine Leaves.of_reads (Reads.bind ?_ fun _ => Reads.ret _)
      exact (reads_rows _ _ t' w).bind fun ids => reads_fetchAll t' ids
  | createTable t' columns =>
      exact (beside (hproper rfl) (writes_createTable t' columns)).bind fun _ => Leaves.ret _
  | addColumn t' column =>
      exact (beside (hproper rfl) (writes_addColumn t' column)).bind fun _ => Leaves.ret _
  | addIndex t' column =>
      exact (beside (hproper rfl) (writes_addIndex t' _ column)).bind fun _ => Leaves.ret _
  | dropIndex t' column =>
      exact (beside (hproper rfl) (writes_dropIndex t' column _)).bind fun _ => Leaves.ret _
  | insert t' fields =>
      have hne : t' ≠ t := fun h => hinsert fields (h ▸ rfl)
      exact (leaves_insert ht (hproper rfl) hne fields).bind fun _ => Leaves.ret _
  | update t' w fields =>
      exact (beside (hproper rfl) (writes_update t' _ _ w fields)).bind fun _ => Leaves.ret _
  | delete t' w => exact (beside (hproper rfl) (writes_delete t' _ _ w)).bind fun _ => Leaves.ret _
  | dropTable t' =>
      have hne : t' ≠ t := fun h => hdrop (h ▸ rfl)
      exact (leaves_dropTable ht (hproper rfl) hne _).bind fun _ => Leaves.ret _

/-- The same of lines. -/
theorem leaves_counter_runLine {t : TableName} {line : String} (ht : t.Tagged)
    (hinsert : ∀ fields, Command.parse line ≠ .ok (.insert t fields))
    (hdrop : Command.parse line ≠ .ok (.dropTable t)) (config : Config) :
    Leaves (Command.runLine config line) (Key.counter t).text := by
  intro s
  cases hparse : Command.parse line with
  | error e =>
      refine ⟨.error e, s, ?_, rfl⟩
      unfold Command.runLine Command.runLineBy
      rw [hparse]
      rfl
  | ok c =>
      have hc := Command.proper_of_parse hparse
      have hleaves := leaves_counter_run ht hc (fun fields h => hinsert fields (h ▸ hparse))
        (fun h => hdrop (h ▸ hparse)) config
      obtain ⟨r, s', hexec, hs'⟩ := hleaves s
      exact ⟨r, s', (Store.exec_runLine hparse config _).trans hexec, hs'⟩

end StoreM

/-! ### Counting -/

namespace StoreM

variable {α β : Type} {a : α}

/-- The program gives nothing but this result, if it does not fail. -/
def Gives (p : StoreM α) (a : α) : Prop := ∀ {σ a' σ'}, p.exec σ = (.ok a', σ') → a' = a

theorem Gives.ret (a : α) : Gives (pure a) a := fun h => (Except.ok.inj (Prod.mk.inj h).1).symm

theorem Gives.bind {x : StoreM β} {f : β → StoreM α} (hf : ∀ b, Gives (f b) a) :
    Gives (x >>= f) a := by
  intro σ a' σ' h
  rcases hexec : x.exec σ with ⟨_ | b, σ₁⟩
  · rw [exec_bind_error hexec] at h
    cases h
  · rw [exec_bind_ok hexec] at h
    exact hf b h

end StoreM

namespace Store

variable {s : Store} {t : TableName} {n : Nat}

/-- A line has inserted a row if it is an insertion that has succeeded. -/
theorem mem_insertions_event? {config : Config} {line : String} {r : Reply} :
    r ∈ insertions t (s.event? config line).toList ↔
      ∃ fields, Command.parse line = .ok (.insert t fields) ∧ s.reply config line = .ok r := by
  unfold event? insertions
  cases hparse : Command.parse line with
  | error e => simp
  | ok c =>
      cases hreply : s.reply config line with
      | error e => simp
      | ok reply =>
          rw [Option.toList_some, List.filterMap_cons]
          cases c with
          | insert t' fields =>
              by_cases ht : t' = t
              · simp [Event.insertion?, ht, eq_comm]
              · simp [Event.insertion?, ht]
          | _ => simp [Event.insertion?]

/-- The counter of the table has counted to a number, which fits into 64 bits. -/
structure Counted (s : Store) (t : TableName) (n : Nat) : Prop where
  counter : s.get? (Key.counter t).text = Entry.ofCount n
  le : (n : Int) ≤ Text.maxInt64

/-- From here a program that gives the number of a row gives the next one or fails, and it counts
at most to that. -/
def Counts (p : StoreM RowId) (t : TableName) (s : Store) (n : Nat) : Prop :=
  ∃ r s' n', p.exec ⟨s, none⟩ = (r, ⟨s', none⟩) ∧ s'.Counted t n' ∧ n ≤ n' ∧
    ∀ id, r = .ok id → id = n + 1 ∧ n' = n + 1

namespace Counted

variable {α : Type} {x : StoreM α} {f : α → StoreM RowId}

theorem fail (hs : s.Counted t n) (e : Error) : Counts (throwThe Error e >>= f) t s n :=
  ⟨_, s, n, StoreM.exec_bind_error rfl, hs, Nat.le_refl n, fun _ h => by cases h⟩

/-- What a program looks at first does not matter. -/
theorem look (hs : s.Counted t n) (hx : StoreM.Reads x) (hf : ∀ a, Counts (f a) t s n) :
    Counts (x >>= f) t s n := by
  obtain ⟨r, s', hexec⟩ := hx.steady.calm s
  have hstore := hx.store ⟨s, none⟩
  rw [hexec] at hstore
  obtain rfl : s' = s := hstore
  cases r with
  | error e =>
      exact ⟨_, s', n, StoreM.exec_bind_error hexec, hs, Nat.le_refl n, fun _ h => by cases h⟩
  | ok a =>
      obtain ⟨r, s'', n', hexec', hcounts⟩ := hf a
      exact ⟨r, s'', n', (StoreM.exec_bind_ok hexec).trans hexec', hcounts⟩

/-- The next number is counted, and what is done with it leaves the counter alone. -/
theorem next (hs : s.Counted t n) {g : RowId → StoreM RowId}
    (hleaves : ∀ id, StoreM.Leaves (g id) (Key.counter t).text)
    (hg : ∀ id, StoreM.Gives (g id) id) : Counts (Engine.nextRowId t >>= g) t s n := by
  have hincr := incr_ofCount hs.counter hs.le
  by_cases hn : (n : Int) < Text.maxInt64
  · rw [if_pos hn] at hincr
    have hexec : (Engine.nextRowId t).exec ⟨s, none⟩ =
        (.ok (n + 1), ⟨s.set (Key.counter t).text (toString (n + 1)), none⟩) := by
      refine (StoreM.exec_bind_ok (a := ((n + 1 : Nat) : Int)) ?_).trans rfl
      rw [StoreM.incr, StoreM.exec_call, hincr]
    have hcounter : (s.set (Key.counter t).text (toString (n + 1))).get? (Key.counter t).text =
        Entry.ofCount (n + 1) := by
      rw [Store.set, OrderedMap.get?_insert, if_pos rfl]
      rfl
    obtain ⟨r, s', hexec', hs'⟩ := hleaves (n + 1) (s.set (Key.counter t).text (toString (n + 1)))
    refine ⟨r, s', n + 1, (StoreM.exec_bind_ok hexec).trans hexec', ?_, Nat.le_succ n, ?_⟩
    · exact ⟨hs'.trans hcounter, by omega⟩
    · exact fun id hid => ⟨hg (n + 1) (hid ▸ hexec'), rfl⟩
  · rw [if_neg hn] at hincr
    have hexec : (Engine.nextRowId t).exec ⟨s, none⟩ =
        (.error (.store (.overflow (Key.counter t).text)), ⟨s, none⟩) := by
      refine StoreM.exec_bind_error ?_
      rw [StoreM.incr, StoreM.exec_call, hincr]
    exact ⟨_, s, n, StoreM.exec_bind_error hexec, hs, Nat.le_refl n, fun _ h => by cases h⟩

/-- Whatever else the store holds, an insertion that succeeds gives the next number. -/
theorem insert (hs : s.Counted t n) (ht : t.Tagged) (fields : List (String × String)) :
    Counts (Engine.insert t fields) t s n := by
  refine hs.look (StoreM.reads_ensureTable t) fun _ => ?_
  dsimp only
  split
  · exact hs.fail _
  · refine hs.look (StoreM.reads_columnTypes t) fun types => ?_
    refine hs.look (StoreM.Reads.of_except _) fun checked => ?_
    refine hs.look (StoreM.reads_indexedColumns t) fun indexed => ?_
    have hleaves (id : RowId) := StoreM.leaves_counter_of_writes ht ht.1
      (StoreM.writes_row t indexed id checked.toList)
    refine hs.next hleaves fun id => ?_
    exact StoreM.Gives.bind fun _ => StoreM.Gives.bind fun _ => StoreM.Gives.bind fun _ =>
      StoreM.Gives.ret id

/-- A line that does not remove the table keeps the counter or counts on, and a row that it inserts
has no number beyond. -/
theorem line (hs : s.Counted t n) (ht : t.Tagged) {line : String}
    (hdrop : Command.parse line ≠ .ok (.dropTable t)) (config : Config) :
    ∃ n', n ≤ n' ∧ (s.after config line).Counted t n' ∧
      ∀ id, .bulk (toString id) ∈ insertions t (s.event? config line).toList → id ≤ n' := by
  by_cases hinsert : ∃ fields, Command.parse line = .ok (.insert t fields)
  · obtain ⟨fields, hparse⟩ := hinsert
    obtain ⟨r, s', n', hexec, hs', hle, hid⟩ := hs.insert ht fields
    have hline : (Command.runLine config line).exec ⟨s, none⟩ =
        (r.map fun id => .bulk (toString id), ⟨s', none⟩) := by
      rw [exec_runLine hparse]
      cases r with
      | error e => exact StoreM.exec_bind_error hexec
      | ok id => exact StoreM.exec_bind_ok hexec
    refine ⟨n', hle, ?_, fun id hmem => ?_⟩
    · rw [Store.after, hline]
      exact hs'
    · obtain ⟨_, -, hreply⟩ := mem_insertions_event?.mp hmem
      rw [Store.reply, hline] at hreply
      cases r with
      | error e => cases hreply
      | ok id' =>
          obtain rfl : id' = id := Text.toString_injective (Reply.bulk.inj (Except.ok.inj hreply))
          obtain ⟨rfl, rfl⟩ := hid id' rfl
          exact Nat.le_refl _
  · have hinsert' : ∀ fields, Command.parse line ≠ .ok (.insert t fields) :=
      fun fields h => hinsert ⟨fields, h⟩
    obtain ⟨r, s', hexec, hs'⟩ := StoreM.leaves_counter_runLine ht hinsert' hdrop config s
    refine ⟨n, Nat.le_refl n, ?_, fun id hmem => ?_⟩
    · rw [Store.after, hexec]
      exact ⟨hs'.trans hs.counter, hs.le⟩
    · obtain ⟨fields, hparse, -⟩ := mem_insertions_event?.mp hmem
      exact (hinsert' fields hparse).elim

/-- The same of lines one after another. -/
theorem lines (hs : s.Counted t n) (ht : t.Tagged) {lines : List (Config × String)}
    (hlines : ∀ l ∈ lines, Command.parse l.2 ≠ .ok (.dropTable t)) :
    ∃ n', n ≤ n' ∧ (s.afterAll lines).Counted t n' ∧
      ∀ id, .bulk (toString id) ∈ insertions t (s.log lines) → id ≤ n' := by
  induction lines generalizing s n with
  | nil => exact ⟨n, Nat.le_refl n, hs, fun _ h => by cases h⟩
  | cons l rest ih =>
      obtain ⟨hdrop, hrest⟩ := List.forall_mem_cons.mp hlines
      obtain ⟨n₁, hle₁, hs₁, hid₁⟩ := hs.line ht hdrop l.1
      obtain ⟨n₂, hle₂, hs₂, hid₂⟩ := ih hs₁ hrest
      refine ⟨n₂, Nat.le_trans hle₁ hle₂, hs₂, fun id hmem => ?_⟩
      rw [log, insertions, List.filterMap_append, List.mem_append] at hmem
      rcases hmem with hmem | hmem
      · exact Nat.le_trans (hid₁ id hmem) hle₂
      · exact hid₂ id hmem

/-- Whatever lines come in between, unless they remove the table, an insertion that succeeds gives a
number that has not been counted to and that no line has replied. -/
theorem lt_of_insert (hs : s.Counted t n) (ht : t.Tagged) {lines : List (Config × String)}
    (hlines : ∀ l ∈ lines, Command.parse l.2 ≠ .ok (.dropTable t))
    {fields : List (String × String)} {id : RowId} {σ : Session}
    (hinsert : (Engine.insert t fields).exec ⟨s.afterAll lines, none⟩ = (.ok id, σ)) :
    n < id ∧ ∀ id', .bulk (toString id') ∈ insertions t (s.log lines) → id' < id := by
  obtain ⟨n', hle, hs', hreplied⟩ := hs.lines ht hlines
  obtain ⟨r, s'', n'', hexec, -, -, hnext⟩ := hs'.insert ht fields
  rw [hexec] at hinsert
  obtain ⟨rfl, -⟩ := hnext id (Prod.mk.inj hinsert).1
  exact ⟨Nat.lt_succ_of_le hle, fun id' hreply => Nat.lt_succ_of_le (hreplied id' hreply)⟩

end Counted

end Store

end Tabular
