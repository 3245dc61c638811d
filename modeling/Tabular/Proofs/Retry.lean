import Tabular.Proofs.Change
import Tabular.Proofs.Deletion
import Tabular.Proofs.Rebuild

/-!
Updates and deletions that a failure has cut short and that are carried out again. An update that is
cut between two index sets leaves a row that no repetition of it enters (`Reachable.update_again`). A
deletion goes on with the rows that its clause still finds, so it leaves the one row at which it was
cut if the clause no longer finds it (`Reachable.delete_again`). Together they say when the
repetition heals what the failure has broken (`Reachable.retried`).
-/

namespace Tabular

namespace Store

variable {s s₁ : Store} {t : TableName} {l : Layout} {tb : Table} {img : Image}
variable {orders : Orders} {config : Config} {line : String} {w : Option WhereClause}

/-! ### Exact indexes -/

/-- Under each value of an indexed column are the rows that hold it and nothing else. -/
def IndexExact (s : Store) : Prop :=
  ∀ t, s.HasTable t → ∀ column ∈ s.membersAt (Key.indexed t).text, ∀ value x,
    x ∈ s.membersAt (Key.index t column value).text ↔
      ∃ id, s.RowHolds t column value id ∧ toString id = x

theorem Holds.indexExact {db : Database} (hs : s.Holds db.layout) (hdb : db.Valid) :
    s.IndexExact := by
  intro t ht column hcolumn value x
  have htag := hdb.tagged ((hs.hasTable_iff hdb).mp ht)
  rw [db.layout_on t] at hs
  rw [hs.indexed_on htag] at hcolumn
  have hrow (id : RowId) : s.RowHolds t column value id ↔ (db.table t).cell id column = some value :=
    hs.rowHolds_iff htag rfl fun _ => rfl
  rw [hs.index_on htag ((hdb.table_valid t).indexed_name hcolumn), Table.mem_index]
  simp only [hrow]
  exact and_iff_right hcolumn

theorem Holds.hasTable_on (hs : s.Holds (img.on t l)) (htag : t.Tagged)
    (himg : img.types.isEmpty = false) : s.HasTable t := by
  refine ⟨TableName.ofText?_full_iff.mpr htag.1, ?_⟩
  have hget : s.get? (Key.schema t).text = Entry.ofHash img.types :=
    hs.get?_on (k := .schema t) htag.1 rfl
  rw [Store.keyType, hget, Entry.ofHash, himg]
  rfl

/-- With a row that is half moved no index is exact. -/
theorem Holds.not_indexExact (hs : s.Holds (img.on t l)) (htag : t.Tagged) (hv : tb.Valid)
    (hthere : tb.columns.isEmpty = false) {new : OrderedMap String String}
    (himg : img.HalfMoved tb new) : ¬ s.IndexExact := by
  have ht : s.HasTable t :=
    hs.hasTable_on htag (by rw [himg.types, Table.isEmpty_types, hthere])
  obtain ⟨id, column, value, hlive, hi, -, hmisses⟩ := himg.row
  intro hexact
  have hcolumn : column ∈ s.membersAt (Key.indexed t).text := by
    rwa [hs.indexed_on htag, himg.indexed]
  have hholds : s.RowHolds t column value id := by
    refine ⟨?_, ?_⟩
    · rwa [hs.members_on htag]
    · rw [hs.row_on htag]
      exact hmisses.row
  have hunder := (hexact t ht column hcolumn value (toString id)).mpr ⟨id, hholds, rfl⟩
  rw [hs.index_on htag (hv.indexed_name hi)] at hunder
  exact hmisses.index hunder

/-! ### Repetitions -/

/-- A command on a table that succeeds on a store does so by the reference. -/
theorem Holds.exists_run {db : Database} {c : Command} {reply : Reply} (hs : s.Holds db.layout)
    (hdb : db.Valid) (hparse : Command.parse line = .ok c) (ht : c.table? = some t)
    (hok : s.replyBy orders config line = .ok reply) :
    ∃ tb', Reference.run config (t.ns ∈ db.namespaces) t (db.table t) c = .ok (reply, tb') := by
  have hreply := Database.reply_of_onTable (Database.runLine_of_parse hparse ht config db)
  rw [← (hs.lineBy hdb orders config line).1, hok] at hreply
  cases hrun : Reference.run config (t.ns ∈ db.namespaces) t (db.table t) c with
  | error e =>
      rw [hrun] at hreply
      cases hreply
  | ok out =>
      rw [hrun] at hreply
      obtain rfl := Except.ok.inj hreply
      exact ⟨out.2, rfl⟩

/-- A command on rows does so on a table that is there. -/
theorem Reachable.exists_run {c : Command} {reply : Reply} (h : s.Reachable)
    (hparse : Command.parse line = .ok c) (hc : c.ChangesRows t)
    (hok : s.replyBy orders config line = .ok reply) :
    ∃ db : Database, db.Valid ∧ t ∈ db.tables ∧ s.Holds ((db.table t).image.on t db.layout) ∧
      ∃ tb', Reference.run config (t.ns ∈ db.namespaces) t (db.table t) c = .ok (reply, tb') := by
  obtain ⟨db, hdb, hs⟩ := h.exists_database
  have ht : c.table? = some t := by
    rcases hc with ⟨fields, rfl⟩ | ⟨w, fields, rfl⟩ | ⟨w, rfl⟩ <;> rfl
  obtain ⟨tb', hrun⟩ := hs.exists_run hdb hparse ht hok
  have hkeeps := (Reference.keeps_changesRows (hdb.table_valid t) hc hrun).1
  rw [db.layout_on t] at hs
  exact ⟨db, hdb, hdb.mem_tables_iff.mpr hkeeps.there, hs, tb', hrun⟩

/-- A line does what its command does. -/
theorem after_of_runs {c : Command} {l' : Layout} {r : Except Error Reply}
    (hparse : Command.parse line = .ok c) (hs : s.Holds l)
    (hruns : StoreM.Runs (c.runBy orders config) l r l') :
    s.replyBy orders config line = r ∧ (s.afterBy orders config line).Holds l' := by
  obtain ⟨s', hexec, hs'⟩ := hruns s hs
  unfold replyBy afterBy
  rw [exec_runLineBy hparse, hexec]
  exact ⟨rfl, hs'⟩

theorem cutBy_run {c : Command} {q : Primitive} (hparse : Command.parse line = .ok c)
    (h : (Command.runLineBy orders config line).CutBy q s s₁) :
    (c.runBy orders config).CutBy q s s₁ := by
  obtain ⟨n, hexec⟩ := h
  rw [exec_runLineBy hparse] at hexec
  exact ⟨n, hexec⟩

variable {orders₁ : Orders} {reply : Reply} {q : Primitive}

/-- With one table changed and in order, every line leaves exact indexes. -/
theorem Holds.indexExact_after {db : Database} (hs : s.Holds (tb.image.on t db.layout))
    (hdb : db.Valid) (hmem : t ∈ db.tables) (hv : tb.Valid)
    (hthere : tb.columns.isEmpty = false) (orders : Orders) (config : Config) (line : String) :
    (s.afterBy orders config line).IndexExact := by
  have hset : (db.set t tb).Valid := by
    refine hdb.set hv (fun hempty => ?_) fun _ => ?_
    · rw [hthere] at hempty
      cases hempty
    · exact ⟨(hdb.table_name hmem).1, (hdb.table_name hmem).2, hdb.table_namespace hmem⟩
  rw [Database.on_layout_of_there hthere] at hs
  have hafter := (hs.lineBy hset orders config line).2
  exact hafter.2.indexExact hafter.1

/-- Where a row is half moved, the update that is run again leaves one half moved. -/
theorem Holds.halfMoved_after (hs : s.Holds (img.on t l)) (hn : t.Names tb) (hv : tb.Valid)
    (hthere : tb.columns.isEmpty = false) {fields : List (String × String)}
    (hfields : fields.isEmpty = false) {new : OrderedMap String String}
    (hnew : Engine.checkFields t tb.columns fields = .ok new) (himg : img.HalfMoved tb new)
    (hparse : Command.parse line = .ok (.update t w fields)) (orders : Orders) (config : Config) :
    ∃ img' : Image, img'.HalfMoved tb new ∧
      (s.afterBy orders config line).Holds (img'.on t l) := by
  obtain ⟨r, img', himg', hruns⟩ :=
    StoreM.runs_update_of_halfMoved (l := l) hn hv hthere hfields hnew orders.rows himg w
  have hline : StoreM.Runs (Command.runBy orders config (.update t w fields)) (img.on t l)
      (r.map fun n : Nat => Reply.integer n) (img'.on t l) := by
    cases r with
    | error e => exact hruns.bind_error
    | ok n => exact hruns.bind (StoreM.Runs.ret _)
  exact ⟨img', himg', (after_of_runs hparse hs hline).2⟩

/-- After a cut update that is run again the indexes are exact unless a change of an index set was
what failed. -/
theorem Reachable.update_again (h : s.Reachable) {fields : List (String × String)}
    (hparse : Command.parse line = .ok (.update t w fields))
    (hok : s.replyBy orders config line = .ok reply)
    (hcut : (Command.runLineBy orders₁ config line).CutBy q s s₁) (orders₂ : Orders)
    (config' : Config) :
    (s₁.afterBy orders₂ config' line).IndexExact ↔ q ≠ .srem ∧ q ≠ .sadd := by
  obtain ⟨db, hdb, hmem, hs, tb', hrun⟩ :=
    h.exists_run hparse (Or.inr (Or.inl ⟨w, fields, rfl⟩)) hok
  have hv := hdb.table_valid t
  have htag := hdb.tagged hmem
  have hn : t.Names (db.table t) := ⟨htag.1, fun _ => htag⟩
  obtain ⟨out, hupdate, -⟩ := bind_eq_ok.mp hrun
  obtain ⟨hthere, hfields, new, ids, hnew, hids, -⟩ := Reference.update_eq_ok hupdate
  have hcut' := StoreM.cutsBy_update (l := db.layout) hn hv hthere hfields hnew orders₁.rows hids
  have hcuts := hcut'.map (StoreM.steady_update hfields orders₁.rows w)
    (fun n : Nat => Reply.integer n)
  obtain ⟨img, himg, hs₁⟩ := hcuts q s s₁ hs (cutBy_run hparse hcut)
  unfold Image.Updating at himg
  split at himg
  · next hq =>
      obtain ⟨img', himg', hs₂⟩ :=
        hs₁.halfMoved_after hn hv hthere hfields hnew himg hparse orders₂ config'
      refine iff_of_false (hs₂.not_indexExact htag hv hthere himg') ?_
      rintro ⟨hsrem, hsadd⟩
      exact hq.elim hsrem hsadd
  · next hq =>
      obtain ⟨tb₁, hv₁, hcolumns, rfl⟩ := himg
      have hthere₁ : tb₁.columns.isEmpty = false := by rw [hcolumns, hthere]
      have hexact := hs₁.indexExact_after hdb hmem hv₁ hthere₁ orders₂ config' line
      exact iff_of_true hexact (not_or.mp hq)

/-- The row is one of those of the table. -/
def Live (s : Store) (t : TableName) (id : RowId) : Prop :=
  toString id ∈ s.membersAt (Key.rows t).text

/-- The rows that a clause selects, or the error of the query. -/
def finds (s : Store) (config : Config) (t : TableName) (w : Option WhereClause) :
    Except Error (List RowId) := ((Query.rows config.maxRowsScan t w).exec ⟨s, none⟩).1

/-- On the image of a table a query finds what the reference says. -/
theorem Holds.rows_image (hs : s.Holds (tb.image.on t l)) (hn : t.Names tb) (hv : tb.Valid)
    (limit : Nat) (w : Option WhereClause) :
    (Query.rows limit t w).exec ⟨s, none⟩ = (Reference.rows limit t tb w, ⟨s, none⟩) ∧
      tb.image.rows limit t tb w = Reference.rows limit t tb w := by
  have hrows : StoreM.Runs (Query.rows limit t w) (tb.image.on t l)
      (Reference.rows limit t tb w) (tb.image.on t l) := StoreM.runs_rows hn hv w
  have himage : StoreM.Runs (Query.rows limit t w) (tb.image.on t l)
      (tb.image.rows limit t tb w) (tb.image.on t l) :=
    StoreM.runs_rows_on hn hv rfl rfl w
  have hexec := hrows.exec_eq hs
  exact ⟨hexec, congrArg Prod.fst ((himage.exec_eq hs).symm.trans hexec)⟩

/-- A cut deletion that is run again succeeds. It deletes all rows that were to be deleted and are
left, but one at most, which it leaves if the clause does not find it any more. Without a clause there
is no such row, and if there is none, the store is as after one run. -/
theorem Reachable.delete_again (h : s.Reachable)
    (hparse : Command.parse line = .ok (.delete t w))
    (hok : s.replyBy orders config line = .ok reply)
    (hcut : (Command.runLineBy orders₁ config line).CutBy q s s₁) (orders₂ : Orders) :
    let s₂ := s₁.afterBy orders₂ config line
    ∃ ids again lost, s.finds config t w = .ok ids ∧ s₁.finds config t w = .ok again ∧
      s₁.replyBy orders₂ config line = .ok (.integer again.length) ∧
      (∀ id, s₂.Live t id ↔ s₁.Live t id ∧ id ∉ again) ∧
      (∀ id ∈ ids, s₁.Live t id → id ∉ again → id = lost) ∧
      (w = none → ∀ id ∈ ids, s₁.Live t id → id ∈ again) ∧
      ((∀ id ∈ ids, s₁.Live t id → id ∈ again) → s₂ = s.afterBy orders config line) := by
  intro s₂
  have hc : (Command.delete t w).ChangesRows t := Or.inr (Or.inr ⟨w, rfl⟩)
  obtain ⟨db, hdb, hmem, hs, tb', hrun⟩ := h.exists_run hparse hc hok
  have hv := hdb.table_valid t
  have htag := hdb.tagged hmem
  have hn : t.Names (db.table t) := ⟨htag.1, fun _ => htag⟩
  obtain ⟨out, hdelete, hout⟩ := bind_eq_ok.mp hrun
  obtain ⟨ids, hids, hdelete⟩ := bind_eq_ok.mp hdelete
  obtain ⟨hexec, hrows⟩ := hs.rows_image hn hv config.maxRowsScan w
  rw [hids] at hexec hrows
  have hcuts := (StoreM.cutsTo_iff.mp (StoreM.cutsTo_delete (l := db.layout) orders₁ hn hv hrows)).map
    (StoreM.steady_delete orders₁ _ t w) (fun n : Nat => Reply.integer n)
  obtain ⟨img, himg, hs₁⟩ := hcuts q s s₁ hs (cutBy_run hparse hcut)
  obtain ⟨again, lost, hsub, hlost, hagain, hquery, hruns⟩ :=
    StoreM.runs_delete_of_deleting (l := db.layout) hn hv hrows himg
  have hline : StoreM.Runs (Command.runBy orders₂ config (.delete t w)) (img.on t db.layout)
      (.ok (.integer again.length)) ((img.delete again).on t db.layout) :=
    (hruns orders₂).bind (StoreM.Runs.ret _)
  obtain ⟨hreply, hs₂⟩ := after_of_runs hparse hs₁ hline
  have hlive (id : RowId) : s₁.Live t id ↔ toString id ∈ img.members := by
    rw [Live, hs₁.members_on htag]
  refine ⟨ids, again, lost, congrArg Prod.fst hexec, ?_, hreply, fun id => ?_,
    fun id hid h => ?_, ?_, fun hall => ?_⟩
  · exact congrArg Prod.fst ((hquery .ascending).exec_eq hs₁)
  · rw [hlive, Live, hs₂.members_on htag, Image.mem_members_delete]
    refine and_congr_right fun _ => ⟨fun hne hid => hne id hid rfl, fun hnot id' hid' heq => ?_⟩
    exact hnot (Text.toString_injective heq ▸ hid')
  · exact hlost id hid ((hlive id).mp h)
  · rintro rfl id hid h
    have hle := hv.id_le (Table.mem_ids.mpr (Table.mem_rows_of_reference hids hid))
    exact Image.mem_rows_none hagain hle ((hlive id).mp h)
  · obtain rfl := Except.ok.inj hdelete
    obtain rfl := (Prod.mk.inj (Except.ok.inj hout)).2
    have honce : StoreM.Refines (Command.runBy orders config (.delete t w)) t (fun _ => ∅) db.layout
        (db.table t) (Reference.run config (t.ns ∈ db.namespaces) t (db.table t) (.delete t w)) :=
      StoreM.refines_run_of_changesRows hn hv hc _
    rw [hrun] at honce
    cases honce with
    | done honce =>
        rw [himg.delete hsub fun id hid hmem => hall id hid ((hlive id).mpr hmem)] at hs₂
        exact hs₂.unique (after_of_runs hparse hs honce).2

/-- A line that changes or deletes rows, and that succeeds on a store, is cut by a failure of a
primitive and then carried out again. After an update the indexes are exact if and only if the
failure did not strike in a change of an index set. A deletion leaves one row at most that it was to
delete, and heals if and only if its clause finds all such rows that the cut has left; then the
store is as after one run. Without a clause it does. Each run goes through sets in orders of its
own. -/
theorem Reachable.retried (h : s.Reachable) (hok : s.replyBy orders config line = .ok reply)
    (hcut : (Command.runLineBy orders₁ config line).CutBy q s s₁) (orders₂ : Orders) :
    let s₂ := s₁.afterBy orders₂ config line
    (∀ t w fields, Command.parse line = .ok (.update t w fields) →
      (s₂.IndexExact ↔ q ≠ .srem ∧ q ≠ .sadd)) ∧
    ∀ t w, Command.parse line = .ok (.delete t w) →
      ∃ ids again, s.finds config t w = .ok ids ∧ s₁.finds config t w = .ok again ∧
        s₁.replyBy orders₂ config line = .ok (.integer again.length) ∧
        (∀ id ∈ ids, ∀ id' ∈ ids, s₂.Live t id → s₂.Live t id' → id = id') ∧
        (s₂.IndexExact ∧ (∀ id ∈ ids, ¬ s₂.Live t id) ↔ ∀ id ∈ ids, s₁.Live t id → id ∈ again) ∧
        ((∀ id ∈ ids, s₁.Live t id → id ∈ again) → s₂ = s.afterBy orders config line) ∧
        (w = none → ∀ id ∈ ids, s₁.Live t id → id ∈ again) := by
  intro s₂
  refine ⟨fun t w fields hparse => h.update_again hparse hok hcut orders₂ config,
    fun t w hparse => ?_⟩
  obtain ⟨ids, again, lost, hids, hagain, hreply, hlive, hlost, hnone, hheal⟩ :=
    h.delete_again hparse hok hcut orders₂
  refine ⟨ids, again, hids, hagain, hreply, fun id hid id' hid' hlive₂ hlive₂' => ?_,
    ⟨fun hhealed id hid hlive₁ => ?_, fun hall => ⟨?_, fun id hid hlive₂ => ?_⟩⟩, hheal, hnone⟩
  · obtain ⟨hlive₁, hnot⟩ := (hlive id).mp hlive₂
    obtain ⟨hlive₁', hnot'⟩ := (hlive id').mp hlive₂'
    exact (hlost id hid hlive₁ hnot).trans (hlost id' hid' hlive₁' hnot').symm
  · apply Decidable.byContradiction
    intro hnot
    exact hhealed.2 id hid ((hlive id).mpr ⟨hlive₁, hnot⟩)
  · have heq : s₂ = s.after config line := (hheal hall).trans (h.replyBy_eq orders config line).2
    obtain ⟨db, hdb, hs⟩ := (h.line config line).exists_database
    rw [heq]
    exact hs.indexExact hdb
  · obtain ⟨hlive₁, hnot⟩ := (hlive id).mp hlive₂
    exact hnot (hall id hid hlive₁)

/-- The only row is under none of its values any more, and is not deleted. -/
theorem sample_cut_delete :
    let cut : Store := sample.erase (Key.index ⟨"app", "users"⟩ "name" "ann").text
    (Command.runLine {} "DELETE app.users WHERE name=ann").CutBy .del sample cut := by
  have hparse : Command.parse "DELETE app.users WHERE name=ann" =
      .ok (.delete ⟨"app", "users"⟩ (some ⟨⟨"name", .eq, "ann"⟩, []⟩)) := by cbv
  refine ⟨0, ?_⟩
  rw [exec_runLine hparse]
  cbv

/-- The only row has its new value and is under none. -/
def sampleHalfMoved : Store :=
  let t : TableName := ⟨"app", "users"⟩
  OrderedMap.ofList
    [((Key.marker "app").text, .text "1"),
     ((Key.schema t).text, .hash (OrderedMap.ofList [("age", "integer"), ("name", "string")])),
     ((Key.indexed t).text, .set (OrderedSet.ofMembers ["name"])),
     ((Key.counter t).text, .text "1"),
     ((Key.rows t).text, .set (OrderedSet.ofMembers ["1"])),
     ((Key.row t 1).text, .hash (OrderedMap.ofList [("age", "7"), ("name", "bob")]))]

theorem sample_cut_update :
    (Command.runLine {} "UPDATE app.users SET name=bob").CutBy .sadd sample sampleHalfMoved := by
  have hparse : Command.parse "UPDATE app.users SET name=bob" =
      .ok (.update ⟨"app", "users"⟩ none [("name", "bob")]) := by cbv
  refine ⟨0, ?_⟩
  rw [exec_runLine hparse]
  cbv

theorem sample_reply_delete :
    sample.reply {} "DELETE app.users WHERE name=ann" = .ok (.integer 1) := by
  cbv

theorem sample_reply_update :
    sample.reply {} "UPDATE app.users SET name=bob" = .ok (.integer 1) := by
  cbv

/-- Its columns gone through from the end, the first row is no longer under its name and still under
its age. -/
theorem sample_cut_unindex :
    let cut : Store := sampleIndexed.erase (Key.index ⟨"app", "users"⟩ "name" "ann").text
    (Command.runLineBy .descending {} "DELETE app.users WHERE name=ann").CutBy .srem sampleIndexed
      cut := by
  have hparse : Command.parse "DELETE app.users WHERE name=ann" =
      .ok (.delete ⟨"app", "users"⟩ (some ⟨⟨"name", .eq, "ann"⟩, []⟩)) := by cbv
  refine ⟨1, ?_⟩
  rw [exec_runLineBy hparse]
  cbv

theorem sample_retried :
    let t : TableName := ⟨"app", "users"⟩
    let w : Option WhereClause := some ⟨⟨"name", .eq, "ann"⟩, []⟩
    let cut : Store := sampleIndexed.erase (Key.index t "name" "ann").text
    let s₂ := cut.afterBy .ascending {} "DELETE app.users WHERE name=ann"
    (sample.Reachable ∧
      sample.replyBy .ascending {} "UPDATE app.users SET name=bob" = .ok (.integer 1) ∧
      (Command.runLineBy .ascending {} "UPDATE app.users SET name=bob").CutBy .sadd sample
        sampleHalfMoved ∧
      ((sampleHalfMoved.afterBy .descending {} "UPDATE app.users SET name=bob").IndexExact ↔
        Primitive.sadd ≠ .srem ∧ Primitive.sadd ≠ .sadd)) ∧
    sampleIndexed.Reachable ∧
      sampleIndexed.replyBy .ascending {} "DELETE app.users WHERE name=ann" = .ok (.integer 1) ∧
      (Command.runLineBy .descending {} "DELETE app.users WHERE name=ann").CutBy .srem sampleIndexed
        cut ∧
      ∃ ids again, sampleIndexed.finds {} t w = .ok ids ∧ cut.finds {} t w = .ok again ∧
        cut.replyBy .ascending {} "DELETE app.users WHERE name=ann" =
          .ok (.integer again.length) ∧
        (∀ id ∈ ids, ∀ id' ∈ ids, s₂.Live t id → s₂.Live t id' → id = id') ∧
        (s₂.IndexExact ∧ (∀ id ∈ ids, ¬ s₂.Live t id) ↔ ∀ id ∈ ids, cut.Live t id → id ∈ again) ∧
        ((∀ id ∈ ids, cut.Live t id → id ∈ again) →
          s₂ = sampleIndexed.afterBy .ascending {} "DELETE app.users WHERE name=ann") ∧
        (w = none → ∀ id ∈ ids, cut.Live t id → id ∈ again) := by
  intro t w cut s₂
  have hupdate : Command.parse "UPDATE app.users SET name=bob" =
      .ok (.update t none [("name", "bob")]) := by cbv
  have hdelete : Command.parse "DELETE app.users WHERE name=ann" = .ok (.delete t w) := by cbv
  have hreply : sample.replyBy .ascending {} "UPDATE app.users SET name=bob" =
      .ok (.integer 1) := by
    rw [replyBy_ascending]
    exact sample_reply_update
  have hreply' : sampleIndexed.replyBy .ascending {} "DELETE app.users WHERE name=ann" =
      .ok (.integer 1) := by cbv
  refine ⟨⟨sample_reachable, hreply, sample_cut_update, ?_⟩, sampleIndexed_reachable, hreply',
    sample_cut_unindex, ?_⟩
  · exact (sample_reachable.retried hreply sample_cut_update .descending).1 t none _ hupdate
  · exact (sampleIndexed_reachable.retried hreply' sample_cut_unindex .ascending).2 t w hdelete

/-- Run again, the deletion finds no row. -/
theorem sample_delete_again :
    let cut : Store := sample.erase (Key.index ⟨"app", "users"⟩ "name" "ann").text
    cut.after {} "DELETE app.users WHERE name=ann" = cut := by
  cbv

/-- Run again, the update finds that the row has its new value, and leaves the index alone. -/
theorem sampleHalfMoved_update_again :
    sampleHalfMoved.after {} "UPDATE app.users SET name=bob" = sampleHalfMoved := by
  cbv

theorem sampleHalfMoved_not_exact : ¬ sampleHalfMoved.IndexExact := by
  intro hexact
  have ht : sampleHalfMoved.HasTable ⟨"app", "users"⟩ := of_decide_eq_true (by cbv)
  have hcolumn : "name" ∈ sampleHalfMoved.membersAt (Key.indexed ⟨"app", "users"⟩).text := by
    decide +kernel
  have hrow : sampleHalfMoved.RowHolds ⟨"app", "users"⟩ "name" "bob" 1 := by
    constructor <;> decide +kernel
  have hunder := (hexact _ ht "name" hcolumn "bob" (toString 1)).mpr ⟨1, hrow, rfl⟩
  exact absurd hunder (by decide +kernel)

/-- The deleted row stays, and the updated one stays under none of its values. -/
theorem sample_not_healed :
    let t : TableName := ⟨"app", "users"⟩
    let cut : Store := sample.erase (Key.index t "name" "ann").text
    sample.Reachable ∧
      (sample.reply {} "DELETE app.users WHERE name=ann" = .ok (.integer 1) ∧
        (Command.runLine {} "DELETE app.users WHERE name=ann").CutBy .del sample cut ∧
        sample.finds {} t (some ⟨⟨"name", .eq, "ann"⟩, []⟩) = .ok [1] ∧
        (cut.after {} "DELETE app.users WHERE name=ann").Live t 1) ∧
      sample.reply {} "UPDATE app.users SET name=bob" = .ok (.integer 1) ∧
      (Command.runLine {} "UPDATE app.users SET name=bob").CutBy .sadd sample sampleHalfMoved ∧
      ¬ (sampleHalfMoved.after {} "UPDATE app.users SET name=bob").IndexExact := by
  intro t cut
  have hfinds : sample.finds {} t (some ⟨⟨"name", .eq, "ann"⟩, []⟩) = .ok [1] := by cbv
  refine ⟨sample_reachable, ⟨sample_reply_delete, sample_cut_delete, hfinds, ?_⟩,
    sample_reply_update, sample_cut_update, ?_⟩
  · have hagain : cut.after {} "DELETE app.users WHERE name=ann" = cut := sample_delete_again
    rw [hagain]
    show toString 1 ∈ cut.membersAt (Key.rows t).text
    decide +kernel
  · rw [sampleHalfMoved_update_again]
    exact sampleHalfMoved_not_exact

end Store

end Tabular
