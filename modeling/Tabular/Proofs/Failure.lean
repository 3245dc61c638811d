import Tabular.Proofs.Reachable

/-!
Commands that fail. A line that fails leaves the store as it is, and of all errors that a store can
give only one ever comes up: the counter of a table is full (`failed_line`). Every other error is
one of reading the line, of names, of types or of the limit on filters.
-/

namespace Tabular

/-- The errors that a primitive of the store gives, or that what it gives leads to. -/
def Error.OfStore : Error → Prop
  | .store _ | .negativeCounter _ => True
  | _ => False

/-- A result that is no error but of one kind. -/
def FailsWith {α : Type} (P : Error → Prop) (r : Except Error α) : Prop :=
  ∀ e, r = .error e → P e

/-- A result that is no error of the store. -/
abbrev StoreFree {α : Type} (r : Except Error α) : Prop := FailsWith (fun e => ¬ e.OfStore) r

namespace FailsWith

variable {α β : Type} {P Q : Error → Prop}

theorem ok (a : α) : FailsWith P (.ok a : Except Error α) := fun _ h => nomatch h

theorem error {e : Error} (h : P e) : FailsWith P (.error e : Except Error α) :=
  fun _ heq => Except.error.inj heq ▸ h

theorem mono {r : Except Error α} (h : FailsWith P r) (hPQ : ∀ e, P e → Q e) : FailsWith Q r :=
  fun e heq => hPQ e (h e heq)

theorem bind {x : Except Error α} {f : α → Except Error β} (hx : FailsWith P x)
    (hf : ∀ a, FailsWith P (f a)) : FailsWith P (x >>= f) := by
  cases x with
  | error e => exact fun e' heq => hx e' (congrArg _ (Except.error.inj heq))
  | ok a => exact hf a

theorem map {x : Except Error α} (hx : FailsWith P x) (f : α → β) : FailsWith P (x.map f) := by
  cases x with
  | error e => exact fun e' heq => hx e' (congrArg _ (Except.error.inj heq))
  | ok a => exact ok (f a)

theorem mapM {f : α → Except Error β} (hf : ∀ a, FailsWith P (f a)) (l : List α) :
    FailsWith P (l.mapM f) := by
  induction l with
  | nil => exact ok []
  | cons a rest ih =>
      rw [List.mapM_cons]
      exact (hf a).bind fun b => ih.bind fun bs => ok (b :: bs)

theorem foldlM {f : β → α → Except Error β} (hf : ∀ b a, FailsWith P (f b a)) (l : List α) (b : β) :
    FailsWith P (l.foldlM f b) := by
  induction l generalizing b with
  | nil => exact ok b
  | cons a rest ih =>
      rw [List.foldlM_cons]
      exact (hf b a).bind ih

end FailsWith

/-! ### Reading a line -/

namespace Command

theorem storeFree_refuse {α : Type} (cause : SyntaxError) : StoreFree (refuse cause : Except Error α) :=
  .error id

theorem storeFree_reading {α : Type} (r : Except SyntaxError α) : StoreFree (reading r) := by
  cases r with
  | error cause => exact storeFree_refuse cause
  | ok a => exact .ok a

theorem storeFree_parseName (s : String) : StoreFree (TableName.parse s) := by
  unfold TableName.parse
  cases TableName.ofText? s with
  | none => exact .error id
  | some t => exact .ok t

theorem storeFree_parseCondition (s : String) : StoreFree (Condition.parse s) := by
  unfold Condition.parse
  cases Condition.ofText? s with
  | none => exact .error id
  | some c => exact .ok c

theorem storeFree_parseRest (words : List String) : StoreFree (WhereClause.parseRest words) := by
  fun_induction WhereClause.parseRest words with
  | case1 => exact .ok []
  | case2 => exact .error id
  | case3 => exact .error id
  | case4 word text rest connective hword ih =>
      exact (storeFree_parseCondition text).bind fun c => ih.bind fun cs => .ok _
  | case5 word text rest hword =>
      exact .error id

theorem storeFree_parseWhere (words : List String) : StoreFree (WhereClause.parse words) := by
  cases words with
  | nil => exact .error id
  | cons text rest =>
      exact (storeFree_parseCondition text).bind fun c => (storeFree_parseRest rest).bind fun cs =>
        .ok _

theorem storeFree_readWhere (words : List String) : StoreFree (readWhere words) := by
  cases words with
  | nil => exact .ok none
  | cons word rest =>
      rw [readWhere]
      split
      · exact (storeFree_parseWhere rest).map some
      · exact storeFree_refuse _

theorem storeFree_readAlter (t : TableName) (action target operand : String) :
    StoreFree (readAlter t action target operand) := by
  unfold readAlter
  split
  · exact (storeFree_reading _).map _
  · split
    · exact .ok _
    · split
      · exact .ok _
      · exact storeFree_refuse _

theorem storeFree_readUpdate (t : TableName) (words : List String) :
    StoreFree (readUpdate t words) := by
  unfold readUpdate
  dsimp only
  split
  · exact storeFree_refuse _
  · refine (storeFree_readWhere _).bind fun clause => ?_
    split
    · exact storeFree_refuse _
    · exact (storeFree_reading _).bind fun fields => .ok _

theorem storeFree_ofArguments (verb : Verb) (words : List String) :
    StoreFree (ofArguments verb words) := by
  unfold ofArguments
  split
  case h_1 | h_2 | h_3 | h_14 => exact .ok _
  case h_7 | h_12 | h_15 => exact storeFree_refuse _
  case h_4 => exact (storeFree_parseName _).bind fun t => .ok _
  case h_5 => exact (storeFree_parseName _).bind fun t => (storeFree_reading _).bind fun cs => .ok _
  case h_6 => exact (storeFree_parseName _).bind fun t => storeFree_readAlter t _ _ _
  case h_8 => exact (storeFree_parseName _).bind fun t => (storeFree_reading _).bind fun fs => .ok _
  case h_9 | h_11 =>
      exact (storeFree_parseName _).bind fun t => (storeFree_readWhere _).bind fun w => .ok _
  case h_10 => exact (storeFree_parseName _).bind fun t => storeFree_readUpdate t _
  case h_13 =>
      split
      · exact (storeFree_parseName _).bind fun t => .ok _
      · exact storeFree_refuse _

/-- A line that cannot be read is no matter of the store. -/
theorem storeFree_parse (line : String) : StoreFree (parse line) := by
  refine (storeFree_reading _).bind fun words => ?_
  unfold ofWords
  split
  · exact storeFree_refuse _
  · split
    · exact storeFree_ofArguments _ _
    · exact storeFree_refuse _

end Command

/-! ### Carrying out a command -/

section
variable {t : TableName} {tb : Table} {types : OrderedMap String ColumnType}

theorem ColumnType.storeFree_check (type : ColumnType) (column value : String) :
    StoreFree (type.check column value) := by
  unfold check
  split
  · exact .ok ()
  · exact .error id

theorem Engine.storeFree_checkFields (t : TableName) (types : OrderedMap String ColumnType)
    (fields : List (String × String)) : StoreFree (checkFields t types fields) := by
  rw [checkFields_eq]
  refine FailsWith.foldlM (fun checked field => ?_) fields ∅
  unfold checkField
  cases types.get? field.1 with
  | none => exact .error id
  | some type => exact (type.storeFree_check field.1 field.2).bind fun _ => .ok _

theorem Condition.storeFree_resolve (t : TableName) (types : OrderedMap String ColumnType)
    (c : Condition) : StoreFree (c.resolve t types) := by
  unfold resolve
  cases types.get? c.column with
  | none => exact .error id
  | some type => exact (type.storeFree_check c.column c.value).bind fun _ => .ok type

theorem Plan.storeFree_stepOf (t : TableName) (types : OrderedMap String ColumnType)
    (indexed : OrderedSet String) (c : Connective × Condition) :
    StoreFree (stepOf t types indexed c) := by
  obtain ⟨connective, c⟩ := c
  cases connective <;> exact (c.storeFree_resolve t types).bind fun type => .ok _

theorem Plan.storeFree_ofClause (t : TableName) (types : OrderedMap String ColumnType)
    (indexed : OrderedSet String) (w : WhereClause) : StoreFree (ofClause t types indexed w) := by
  refine (w.first.storeFree_resolve t types).bind fun type => ?_
  dsimp only
  split
  · exact .error id
  · exact (FailsWith.mapM (storeFree_stepOf t types indexed) w.rest).bind fun steps => .ok _

end

namespace Reference

variable {t : TableName} {tb : Table}

theorem storeFree_ensure (t : TableName) (tb : Table) : StoreFree (ensure t tb) := by
  unfold ensure
  split
  · exact .error id
  · exact .ok ()

theorem storeFree_columnType (t : TableName) (tb : Table) (column : String) :
    StoreFree (columnType t tb column) := by
  unfold columnType
  cases tb.columns.get? column with
  | none => exact .error id
  | some type => exact .ok type

theorem storeFree_rows (limit : Nat) (t : TableName) (tb : Table) (w : Option WhereClause) :
    StoreFree (rows limit t tb w) := by
  have hplan : StoreFree (plan t tb w) := by
    refine (storeFree_ensure t tb).bind fun _ => ?_
    cases w with
    | none => exact .ok _
    | some w => exact Plan.storeFree_ofClause t tb.columns tb.indexed w
  refine hplan.bind fun _ => ?_
  unfold within
  split
  · exact .ok _
  · exact .error id

theorem storeFree_createTable (known : Bool) (t : TableName) (tb : Table) (columns : List Column) :
    StoreFree (createTable known t tb columns) := by
  have hcheck : StoreFree t.check := by
    unfold TableName.check
    cases t.fault? with
    | none => exact .ok ()
    | some fault => exact .error id
  refine hcheck.bind fun _ => ?_
  dsimp only
  split
  · split
    · split
      · exact .error id
      · exact .ok _
    · exact .error id
  · exact .error id

theorem storeFree_update (limit : Nat) (t : TableName) (tb : Table) (w : Option WhereClause)
    (fields : List (String × String)) : StoreFree (update limit t tb w fields) := by
  refine (storeFree_ensure t tb).bind fun _ => ?_
  dsimp only
  split
  · exact .error id
  · refine (Engine.storeFree_checkFields t tb.columns fields).bind fun checked => ?_
    exact (storeFree_rows limit t tb w).bind fun ids => .ok _

/-- An insertion that fails because of the store has found the counter full. -/
theorem insert_failsWith (t : TableName) (tb : Table) (fields : List (String × String)) :
    FailsWith (fun e => e.OfStore →
      e = .store (.overflow (Key.counter t).text) ∧ Text.maxInt64 ≤ (tb.last : Int))
      (insert t tb fields) := by
  refine ((storeFree_ensure t tb).mono fun _ h he => (h he).elim).bind fun _ => ?_
  dsimp only
  split
  · exact .error False.elim
  · have hcheck := Engine.storeFree_checkFields t tb.columns fields
    refine (hcheck.mono fun _ h he => (h he).elim).bind fun checked => ?_
    split
    · exact .ok _
    · next hlast => exact .error fun _ => ⟨rfl, Int.not_lt.mp hlast⟩

theorem storeFree_run (config : Config) (known : Bool) (t : TableName) (tb : Table) {c : Command}
    (hc : ∀ t fields, c ≠ .insert t fields) : StoreFree (run config known t tb c) := by
  cases c with
  | viewSchema _ => exact ((storeFree_ensure t tb).bind fun _ => .ok _).bind fun _ => .ok _
  | createTable _ columns => exact (storeFree_createTable known t tb columns).bind fun _ => .ok _
  | addColumn _ column =>
      have hadd : StoreFree (addColumn t tb column) := by
        refine (storeFree_ensure t tb).bind fun _ => ?_
        split
        · exact .error id
        · exact .ok _
      exact hadd.bind fun _ => .ok _
  | addIndex _ column | dropIndex _ column =>
      refine FailsWith.bind ?_ fun _ => .ok _
      exact (storeFree_ensure t tb).bind fun _ => (storeFree_columnType t tb column).bind fun _ =>
        .ok _
  | insert t fields => exact (hc t fields rfl).elim
  | select _ w =>
      exact ((storeFree_rows config.maxRowsScan t tb w).bind fun _ => .ok _).bind fun _ => .ok _
  | update _ w fields =>
      exact (storeFree_update config.maxRowsScan t tb w fields).bind fun _ => .ok _
  | delete _ w =>
      exact ((storeFree_rows config.maxRowsScan t tb w).bind fun _ => .ok _).bind fun _ => .ok _
  | dropTable _ => exact ((storeFree_ensure t tb).bind fun _ => .ok _).bind fun _ => .ok _
  | createNamespace _ | listTables _ | help => exact .ok _

end Reference

theorem Database.storeFree_checkNamespace (ns : String) :
    StoreFree (Catalog.checkNamespace ns) := by
  unfold Catalog.checkNamespace
  split
  · exact .error id
  · split
    · exact .error id
    · exact .ok ()

/-- The only error of the store is that of an insertion into a table whose counter is full. -/
theorem Database.run_failsWith (config : Config) (db : Database) (c : Command) :
    FailsWith (fun e => e.OfStore → ∃ t fields, c = .insert t fields ∧
      e = .store (.overflow (Key.counter t).text) ∧ Text.maxInt64 ≤ ((db.table t).last : Int))
      (db.run config c) := by
  by_cases hc : ∃ t fields, c = .insert t fields
  · obtain ⟨t, fields, rfl⟩ := hc
    have hinsert := (Reference.insert_failsWith t (db.table t) fields).bind
      fun out => .ok (Reply.bulk (toString out.1), out.2)
    refine (hinsert.map fun out => (out.1, db.set t out.2)).mono fun e h he => ?_
    exact ⟨t, fields, rfl, h he⟩
  · have hc : ∀ t fields, c ≠ .insert t fields := fun t fields heq => hc ⟨t, fields, heq⟩
    have hrun : StoreFree (db.run config c) := by
      unfold run
      cases c.table? with
      | some t => exact (Reference.storeFree_run config _ t (db.table t) hc).map _
      | none =>
          cases c with
          | createNamespace ns =>
              have hcreate : StoreFree (db.createNamespace ns) := by
                refine (storeFree_checkNamespace ns).bind fun _ => ?_
                split
                · exact .error id
                · exact .ok _
              exact hcreate.bind fun _ => .ok _
          | _ => exact .ok _
    exact hrun.mono fun _ h he => (h he).elim

namespace Store

variable {s : Store}

/-- A line that fails leaves every key as it was. The only failure of the store that it can meet is
that of a counter at the greatest 64-bit number, from which an insertion cannot count on. -/
theorem Reachable.failed_line (h : s.Reachable) (config : Config) (line : String) {e : Error}
    (he : ((Command.runLine config line).exec ⟨s, none⟩).1 = .error e) :
    s.after config line = s ∧ (e.OfStore → ∃ t fields, Command.parse line = .ok (.insert t fields) ∧
      e = .store (.overflow (Key.counter t).text) ∧
      s.get? (Key.counter t).text = some (.text "9223372036854775807")) := by
  obtain ⟨db, hdb, hs⟩ := h.exists_database
  have hline : StoreM.Performs (Command.runLine config line) db (db.runLine config line) :=
    StoreM.performs_runLine .ascending config hdb line
  cases hrun : db.runLine config line with
  | ok out =>
      rw [hrun] at hline
      obtain ⟨-, s', hexec, -⟩ := hline.exec_ok hs
      rw [hexec] at he
      cases he
  | error e' =>
      rw [hrun] at hline
      have hexec := hline.exec_error hs
      rw [hexec] at he
      obtain rfl : e' = e := Except.error.inj he
      refine ⟨congrArg (·.2.store) hexec, fun hstore => ?_⟩
      unfold Database.runLine at hrun
      cases hparse : Command.parse line with
      | error e'' =>
          rw [hparse] at hrun
          obtain rfl : e'' = e' := Except.error.inj hrun
          exact (Command.storeFree_parse line e'' hparse hstore).elim
      | ok c =>
          rw [hparse] at hrun
          obtain ⟨t, fields, rfl, heq, hfull⟩ := db.run_failsWith config c e' hrun hstore
          refine ⟨t, fields, rfl, heq, ?_⟩
          -- a table that is not there has counted to zero
          have hmem : t ∈ db.tables := by
            apply Decidable.byContradiction
            intro hmem
            rw [Database.table_of_notMem hmem] at hfull
            exact absurd hfull (by decide)
          have hlast : (db.table t).last = 9223372036854775807 := by
            have hle := (hdb.table_valid t).last_le
            unfold Text.maxInt64 at hfull hle
            omega
          have hentry : (db.table t).image.entry (.counter t) = Entry.ofCount (db.table t).last := rfl
          rw [hs.get?_of_table (k := .counter t) (t := t) (hdb.tagged hmem) rfl, hentry, hlast]
          rfl

theorem sample_failed_line :
    ((Command.runLine {} "INSERT app.users name=bob age=x").exec ⟨sample, none⟩).1 =
        .error (.typeMismatch "age" .integer "x") ∧
      sample.after {} "INSERT app.users name=bob age=x" = sample ∧
      (Error.OfStore (.typeMismatch "age" .integer "x") → ∃ t fields,
        Command.parse "INSERT app.users name=bob age=x" = .ok (.insert t fields) ∧
          .typeMismatch "age" .integer "x" = Error.store (.overflow (Key.counter t).text) ∧
          sample.get? (Key.counter t).text = some (.text "9223372036854775807")) := by
  have he : ((Command.runLine {} "INSERT app.users name=bob age=x").exec ⟨sample, none⟩).1 =
      .error (.typeMismatch "age" .integer "x") := by cbv
  exact ⟨he, sample_reachable.failed_line {} _ he⟩

end Store

end Tabular
