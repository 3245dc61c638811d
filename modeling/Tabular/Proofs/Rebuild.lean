import Tabular.Proofs.History
import Tabular.Proofs.Resumption

/-!
An index built where another one has been taken away in part. Once the column is unmarked, commands
on rows no longer look at the keys that are left (`Holds.afterAll_over`), and to give the column an
index only adds to them. So each index set has the rows that hold its value and whatever was left
under it (`Reachable.rebuilt_index`): the index need not be exact.
-/

namespace Tabular

/-- Without an index on the column, what an image holds under it is left over. -/
theorem Image.eq_imageOver {img : Image} {tb : Table} {column : String}
    (hmark : column ∉ img.indexed) (h : img.unindex column = (tb.dropIndex column).image) :
    img = (tb.dropIndex column).imageOver img.index := by
  have herase : img.indexed.erase column = img.indexed := OrderedMap.erase_of_notMem hmark
  have hindexed : img.indexed = tb.indexed.erase column := herase.symm.trans (congrArg indexed h)
  have htypes : img.types = (tb.dropIndex column).image.types := by rw [← h]; rfl
  have hlast : img.last = (tb.dropIndex column).image.last := by rw [← h]; rfl
  have hmembers : img.members = (tb.dropIndex column).image.members := by rw [← h]; rfl
  have hrow : img.row = (tb.dropIndex column).image.row := by rw [← h]; rfl
  refine Image.ext htypes hindexed hlast hmembers hrow ?_
  funext at_
  show img.index at_ = if at_.1 ∈ tb.indexed.erase column then _ else img.index at_
  by_cases hi : at_.1 ∈ tb.indexed.erase column
  · have hne : at_.1 ≠ column := (OrderedMap.mem_erase.mp hi).1
    calc img.index at_
        = (img.unindex column).index at_ := (if_neg hne).symm
      _ = (tb.dropIndex column).image.index at_ := by rw [h]
      _ = ((tb.dropIndex column).holding at_.1 at_.2).texts := if_pos hi
      _ = _ := (if_pos hi).symm
  · exact (if_neg hi).symm

/-- Under a value a new index has the rows that hold it, and what was left there. -/
theorem Table.mem_rebuilt {tb : Table} {left : Leftovers} {column value x : String} :
    x ∈ ((tb.imageOver left).reindex column tb.ids.members).index (column, value) ↔
      (∃ id, tb.cell id column = some value ∧ toString id = x) ∨
        column ∉ tb.indexed ∧ x ∈ left (column, value) := by
  have hrows : (column = column ∧ ∃ id ∈ tb.ids.members,
      (tb.fields id).get? column = some value ∧ toString id = x) ↔
        ∃ id, tb.cell id column = some value ∧ toString id = x := by
    constructor
    · rintro ⟨-, id, -, hcell⟩
      exact ⟨id, hcell⟩
    · rintro ⟨id, hcell⟩
      have hid : id ∈ tb.ids := mem_ids.mpr (mem_rows_of_cell hcell.1)
      exact ⟨rfl, id, OrderedSet.mem_members.mpr hid, hcell⟩
  have hover : (tb.imageOver left).index (column, value) =
      if column ∈ tb.indexed then (tb.holding column value).texts else left (column, value) := rfl
  rw [Image.mem_reindex]
  refine (or_congr_right hrows).trans ?_
  rw [hover, or_comm]
  by_cases hi : column ∈ tb.indexed
  · rw [if_pos hi, RowSet.mem_texts]
    simp only [mem_holding, hi, not_true_eq_false, false_and, or_false, or_self]
  · rw [if_neg hi, and_iff_right hi]

namespace Reference

variable {t : TableName} {tb tb' : Table}

/-- Commands on rows keep a table and its columns. -/
theorem keeps_changesRows {config : Config} {known : Bool} {c : Command} {reply : Reply}
    (hv : tb.Valid) (hc : c.ChangesRows t) (h : run config known t tb c = .ok (reply, tb')) :
    Keeps tb tb' ∧ tb'.columns = tb.columns ∧ tb'.indexed = tb.indexed := by
  have hmakes := makes_of_run h
  have hvalid := hmakes.valid hv
  rcases hc with ⟨fields, rfl⟩ | ⟨w, fields, rfl⟩ | ⟨w, rfl⟩
  · cases hmakes with
    | insert _ hthere _ _ _ => exact ⟨⟨hthere, hvalid nofun, hthere⟩, rfl, rfl⟩
  · cases hmakes with
    | update _ hthere _ _ => exact ⟨⟨hthere, hvalid nofun, hthere⟩, rfl, rfl⟩
  · cases hmakes with
    | delete _ hthere _ => exact ⟨⟨hthere, hvalid nofun, hthere⟩, rfl, rfl⟩

end Reference

namespace Store

variable {s s₁ : Store} {t : TableName} {left : Leftovers} {l : Layout} {tb : Table}
variable {config : Config} {column : String}

/-! ### With something left -/

section
variable (ht : t.Tagged) (hv : tb.Valid) (hs : s.Holds ((tb.imageOver left).on t l))
include ht hv hs

/-- A line that changes rows leaves alone what is left, whether it succeeds or fails. -/
theorem Holds.after_over {line : String} {c : Command} (hparse : Command.parse line = .ok c)
    (hc : c.ChangesRows t) (config : Config) :
    ∃ tb' : Table, tb'.Valid ∧ tb'.columns = tb.columns ∧ tb'.indexed = tb.indexed ∧
      (s.after config line).Holds ((tb'.imageOver left).on t l) := by
  have hn : t.Names tb := ⟨ht.1, fun _ => ht⟩
  have hrefines : StoreM.Refines (c.run config) t left l tb
      (Reference.run config true t tb c) := StoreM.refines_run_of_changesRows hn hv hc true
  unfold after
  rw [exec_runLine hparse]
  cases hresult : Reference.run config true t tb c with
  | error e =>
      rw [hresult] at hrefines
      cases hrefines with
      | failed h =>
          rw [h.exec_eq hs]
          exact ⟨tb, hv, rfl, rfl, hs⟩
  | ok out =>
      obtain ⟨reply, tb'⟩ := out
      obtain ⟨hkeeps, hcolumns, hindexed⟩ := Reference.keeps_changesRows hv hc hresult
      rw [hresult] at hrefines
      cases hrefines with
      | done h =>
          obtain ⟨s', hexec, hs'⟩ := h s hs
          rw [hexec]
          exact ⟨tb', hkeeps.valid, hcolumns, hindexed, hs'⟩

theorem Holds.afterAll_over {lines : List (Config × String)}
    (hlines : ∀ line ∈ lines, ∃ c, Command.parse line.2 = .ok c ∧ c.ChangesRows t) :
    ∃ tb' : Table, tb'.Valid ∧ tb'.columns = tb.columns ∧ tb'.indexed = tb.indexed ∧
      (s.afterAll lines).Holds ((tb'.imageOver left).on t l) := by
  induction lines generalizing s tb with
  | nil => exact ⟨tb, hv, rfl, rfl, hs⟩
  | cons line rest ih =>
      obtain ⟨⟨c, hparse, hc⟩, hrest⟩ := List.forall_mem_cons.mp hlines
      obtain ⟨tb₁, hv₁, hcolumns₁, hindexed₁, hs₁⟩ := hs.after_over ht hv hparse hc line.1
      obtain ⟨tb₂, hv₂, hcolumns₂, hindexed₂, hs₂⟩ := ih hv₁ hs₁ hrest
      exact ⟨tb₂, hv₂, hcolumns₂.trans hcolumns₁, hindexed₂.trans hindexed₁, hs₂⟩

/-- To give the column an index succeeds. -/
theorem Holds.addIndex_over {line : String} {type : ColumnType}
    (hparse : Command.parse line = .ok (.addIndex t column))
    (htype : tb.columns.get? column = some type) (config : Config) :
    s.reply config line = .ok .ok ∧
      (s.after config line).Holds
        (((tb.imageOver left).reindex column tb.ids.members).on t l) := by
  have hcolumn : column ∈ tb.columns := OrderedMap.mem_of_get? htype
  have hthere : tb.columns.isEmpty = false := OrderedMap.isEmpty_eq_false_iff.mpr ⟨column, hcolumn⟩
  have htypes : (tb.imageOver left).types = tb.image.types := rfl
  have hmembers : (tb.imageOver left).members = tb.ids.texts := rfl
  have hruns : StoreM.Runs (Command.run config (.addIndex t column)) ((tb.imageOver left).on t l)
      (.ok .ok) _ := StoreM.runs_addIndex (l := l) ht hthere htype htypes (hv.column_name hcolumn) hv
    hmembers .ascending config
  obtain ⟨s', hexec, hs'⟩ := hruns s hs
  unfold reply after
  rw [exec_runLine hparse, hexec]
  exact ⟨rfl, hs'⟩

end

/-! ### Between a drop that is cut and the next index -/

/-- What a drop of an index leaves that is cut: the table as it was, or without the index but with
some of its keys. -/
theorem Reachable.exists_over_of_cut (h : s.Reachable) (ht : s.HasTable t)
    (hcolumn : column ∈ s.membersAt (Key.indexed t).text) {drop : String}
    (hdrop : Command.parse drop = .ok (.dropIndex t column))
    (hcut : (Command.runLine config drop).Cut s s₁) :
    t.Tagged ∧ ∃ (tb : Table) (left : Leftovers) (l : Layout) (type : ColumnType),
      tb.Valid ∧ tb.columns.get? column = some type ∧ s₁.Holds ((tb.imageOver left).on t l) := by
  obtain ⟨db, hdb, hs⟩ := h.exists_database
  have hmem := (hs.hasTable_iff hdb).mp ht
  have htag := hdb.tagged hmem
  have hv := hdb.table_valid t
  rw [hs.membersAt_indexed htag] at hcolumn
  have hdeclared := hv.indexed_declared hcolumn
  obtain ⟨type, htype⟩ := Option.isSome_iff_exists.mp (OrderedMap.mem_iff_isSome.mp hdeclared)
  obtain ⟨fault, hexec⟩ := hcut
  rw [exec_runLine hdrop] at hexec
  rw [db.layout_on t] at hs
  have hcut := StoreM.cutsTo_dropIndex (l := db.layout) htag (hdb.mem_tables_iff.mp hmem) htype rfl
    (hv.column_name hdeclared) .ascending config
  obtain ⟨img, himg, hs₁⟩ := hcut s s₁ hs ⟨fault, hexec⟩
  refine ⟨htag, ?_⟩
  obtain rfl | ⟨hmark, hunindex⟩ := himg
  · exact ⟨_, fun _ => ∅, _, type, hv, htype, hs₁⟩
  · have hleft := Image.eq_imageOver hmark (hunindex.trans ((db.table t).clear_image column))
    rw [hleft] at hs₁
    exact ⟨_, img.index, _, type, hv.dropIndex column, htype, hs₁⟩

/-- A drop of an index is cut by any failure, lines that insert rows into the table, change and
delete some follow, and then the column gets an index again. That succeeds, and each index set has
the rows that hold its value and, if the cut drop had unmarked the column, whatever it had not
deleted of the set. So the index is exact if and only if the column was still marked, or all that was
left are rows that hold the value by now. -/
theorem Reachable.rebuilt_index (h : s.Reachable) (ht : s.HasTable t)
    (hcolumn : column ∈ s.membersAt (Key.indexed t).text) {drop add : String}
    (hdrop : Command.parse drop = .ok (.dropIndex t column))
    (hcut : (Command.runLine config drop).Cut s s₁) {lines : List (Config × String)}
    (hlines : ∀ line ∈ lines, ∃ c, Command.parse line.2 = .ok c ∧ c.ChangesRows t)
    (hadd : Command.parse add = .ok (.addIndex t column)) (config' : Config) :
    let s₂ := s₁.afterAll lines
    let s₃ := s₂.after config' add
    s₂.reply config' add = .ok .ok ∧
    (∀ value id, toString id ∈ s₃.membersAt (Key.index t column value).text ↔
      s₃.RowHolds t column value id ∨ column ∉ s₁.membersAt (Key.indexed t).text ∧
        toString id ∈ s₁.membersAt (Key.index t column value).text) ∧
    ((∀ value id, toString id ∈ s₃.membersAt (Key.index t column value).text ↔
        s₃.RowHolds t column value id) ↔
      column ∈ s₁.membersAt (Key.indexed t).text ∨
        ∀ value id, toString id ∈ s₁.membersAt (Key.index t column value).text →
          s₃.RowHolds t column value id) := by
  intro s₂ s₃
  obtain ⟨htag, tb₁, left, l, type, hv₁, htype, hs₁⟩ :=
    h.exists_over_of_cut ht hcolumn hdrop hcut
  have hname := hv₁.column_name (OrderedMap.mem_of_get? htype)
  obtain ⟨tb, hv, hcolumns, hindexed, hs₂⟩ := hs₁.afterAll_over htag hv₁ hlines
  rw [← hcolumns] at htype
  obtain ⟨hreply, hs₃⟩ := hs₂.addIndex_over htag hv hadd htype config'
  have hmark : s₁.membersAt (Key.indexed t).text = tb.indexed :=
    (hs₁.indexed_on htag).trans hindexed.symm
  have hrow (value : String) (id : RowId) :
      s₃.RowHolds t column value id ↔ tb.cell id column = some value :=
    hs₃.rowHolds_iff htag (by rw [Image.reindex_eq]; rfl) fun _ => by rw [Image.reindex_eq]; rfl
  have hmember (value : String) (id : RowId) :
      toString id ∈ s₃.membersAt (Key.index t column value).text ↔
        s₃.RowHolds t column value id ∨ column ∉ s₁.membersAt (Key.indexed t).text ∧
          toString id ∈ s₁.membersAt (Key.index t column value).text := by
    rw [hs₃.index_on htag hname, Table.mem_rebuilt, hrow, hmark]
    have hcell : (∃ id', tb.cell id' column = some value ∧ toString id' = toString id) ↔
        tb.cell id column = some value := by
      constructor
      · rintro ⟨id', hcell, heq⟩
        exact Text.toString_injective heq ▸ hcell
      · exact fun hcell => ⟨id, hcell, rfl⟩
    rw [hcell]
    refine or_congr_right (and_congr_right fun hunmarked => ?_)
    have hleft : (tb₁.imageOver left).index (column, value) = left (column, value) :=
      if_neg (hindexed ▸ hunmarked)
    rw [hs₁.index_on htag hname, hleft]
  refine ⟨hreply, hmember, ?_⟩
  simp only [hmember, or_iff_left_iff_imp]
  by_cases hunmarked : column ∈ s₁.membersAt (Key.indexed t).text
  · simp [hunmarked]
  · simp [hunmarked]

/-- Cut when the column is unmarked and no key is deleted. -/
theorem sample_cut :
    (Command.runLine {} "SCHEMA.ALTER app.users DROP INDEX name").Cut sample
      (sample.erase (Key.indexed ⟨"app", "users"⟩).text) := by
  have hparse : Command.parse "SCHEMA.ALTER app.users DROP INDEX name" =
      .ok (.dropIndex ⟨"app", "users"⟩ "name") := by cbv
  refine ⟨⟨.del, 0⟩, ?_⟩
  rw [exec_runLine hparse]
  cbv

theorem sample_rebuilt_index :
    let t : TableName := ⟨"app", "users"⟩
    let cut : Store := sample.erase (Key.indexed t).text
    let lines : List (Config × String) := [({}, "UPDATE app.users SET name=bob")]
    let s₂ := cut.afterAll lines
    let s₃ := s₂.after {} "SCHEMA.ALTER app.users ADD INDEX name"
    sample.HasTable t ∧ "name" ∈ sample.membersAt (Key.indexed t).text ∧
      Command.parse "SCHEMA.ALTER app.users DROP INDEX name" = .ok (.dropIndex t "name") ∧
      (Command.runLine {} "SCHEMA.ALTER app.users DROP INDEX name").Cut sample cut ∧
      (∀ line ∈ lines, ∃ c, Command.parse line.2 = .ok c ∧ c.ChangesRows t) ∧
      Command.parse "SCHEMA.ALTER app.users ADD INDEX name" = .ok (.addIndex t "name") ∧
      s₂.reply {} "SCHEMA.ALTER app.users ADD INDEX name" = .ok .ok ∧
      (∀ value id, toString id ∈ s₃.membersAt (Key.index t "name" value).text ↔
        s₃.RowHolds t "name" value id ∨ "name" ∉ cut.membersAt (Key.indexed t).text ∧
          toString id ∈ cut.membersAt (Key.index t "name" value).text) ∧
      ((∀ value id, toString id ∈ s₃.membersAt (Key.index t "name" value).text ↔
          s₃.RowHolds t "name" value id) ↔
        "name" ∈ cut.membersAt (Key.indexed t).text ∨
          ∀ value id, toString id ∈ cut.membersAt (Key.index t "name" value).text →
            s₃.RowHolds t "name" value id) := by
  intro t cut lines s₂ s₃
  have ht : sample.HasTable t := of_decide_eq_true (by cbv)
  have hcolumn : "name" ∈ sample.membersAt (Key.indexed t).text := by decide +kernel
  have hdrop : Command.parse "SCHEMA.ALTER app.users DROP INDEX name" =
      .ok (.dropIndex t "name") := by cbv
  have hupdate : Command.parse "UPDATE app.users SET name=bob" =
      .ok (.update t none [("name", "bob")]) := by cbv
  have hadd : Command.parse "SCHEMA.ALTER app.users ADD INDEX name" =
      .ok (.addIndex t "name") := by cbv
  have hlines : ∀ line ∈ lines, ∃ c, Command.parse line.2 = .ok c ∧ c.ChangesRows t :=
    List.forall_mem_singleton.mpr ⟨_, hupdate, Or.inr (Or.inl ⟨_, _, rfl⟩)⟩
  exact ⟨ht, hcolumn, hdrop, sample_cut, hlines, hadd,
    sample_reachable.rebuilt_index ht hcolumn hdrop sample_cut hlines hadd {}⟩

/-- The row has another value now and still is where it was under the index. -/
theorem sample_after_update :
    let t : TableName := ⟨"app", "users"⟩
    Store.after {} "UPDATE app.users SET name=bob" (sample.erase (Key.indexed t).text) =
      OrderedMap.ofList
        [((Key.marker "app").text, .text "1"),
         ((Key.schema t).text, .hash (OrderedMap.ofList [("age", "integer"), ("name", "string")])),
         ((Key.counter t).text, .text "1"),
         ((Key.rows t).text, .set (OrderedSet.ofMembers ["1"])),
         ((Key.row t 1).text, .hash (OrderedMap.ofList [("age", "7"), ("name", "bob")])),
         ((Key.index t "name" "ann").text, .set (OrderedSet.ofMembers ["1"]))] := by
  cbv

/-- After a drop that is cut the row gets another value, and the new index has it under both. -/
theorem sample_rebuilt_not_exact :
    let t : TableName := ⟨"app", "users"⟩
    let cut : Store := sample.erase (Key.indexed t).text
    let s₂ := cut.after {} "UPDATE app.users SET name=bob"
    let s₃ := s₂.after {} "SCHEMA.ALTER app.users ADD INDEX name"
    sample.Reachable ∧
      (Command.runLine {} "SCHEMA.ALTER app.users DROP INDEX name").Cut sample cut ∧
      s₂.reply {} "SCHEMA.ALTER app.users ADD INDEX name" = .ok .ok ∧
      toString 1 ∈ s₃.membersAt (Key.index t "name" "ann").text ∧
      (s₃.fieldsAt (Key.row t 1).text).get? "name" = some "bob" ∧
      ¬ s₃.RowHolds t "name" "ann" 1 := by
  intro t cut s₂ s₃
  have hs₂ : s₂ = _ := sample_after_update
  have hreply : s₂.reply {} "SCHEMA.ALTER app.users ADD INDEX name" = .ok .ok := by
    rw [hs₂]
    cbv
  have hmember : s₃.membersAt (Key.index t "name" "ann").text = OrderedSet.ofMembers ["1"] := by
    show (s₂.after {} "SCHEMA.ALTER app.users ADD INDEX name").membersAt _ = _
    rw [hs₂]
    cbv
  have hvalue : (s₃.fieldsAt (Key.row t 1).text).get? "name" = some "bob" := by
    show ((s₂.after {} "SCHEMA.ALTER app.users ADD INDEX name").fieldsAt _).get? _ = _
    rw [hs₂]
    cbv
  refine ⟨sample_reachable, sample_cut, hreply, ?_, hvalue, fun h => ?_⟩
  · rw [hmember]
    decide +kernel
  · have hann : some "ann" = some "bob" := h.2.symm.trans hvalue
    exact absurd hann (by decide)

end Store

end Tabular
