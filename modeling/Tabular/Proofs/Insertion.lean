import Tabular.Proofs.Counter

/-!
Insertions that a failure cuts short. An insertion counts, writes the fields of the row, makes it a
row and enters it into indexes, in this order. So whatever it leaves, what can be seen is a table:
the one before, or the one with the new row (`cutsTo_insert`). A row that is half written is not to
be seen, and its number does not come again (`insert_never_half_visible`).
-/

namespace Tabular

/-! ### One more row -/

/-- A binding of a key beyond all others comes last. -/
theorem OrderedMap.insertInto_of_lt {κ α : Type} [LT κ] [DecidableLT κ] [LinearKey κ] {k : κ}
    {v : α} {l : List (κ × α)} (h : ∀ b ∈ l, b.1 < k) : insertInto k v l = l ++ [(k, v)] := by
  induction l with
  | nil => rfl
  | cons b rest ih =>
      obtain ⟨hb, hrest⟩ := List.forall_mem_cons.mp h
      have hnot : ¬ k < b.1 := fun hk => LinearKey.irrefl k (LinearKey.trans hk hb)
      rw [insertInto, if_neg hnot, if_pos hb, ih hrest, List.cons_append]

namespace Table

variable {tb : Table}

theorem members_append (hv : tb.Valid) (new : OrderedMap String String) :
    (tb.append new).ids.members = tb.ids.members ++ [tb.last + 1] := by
  have hlt : ∀ b ∈ tb.rows.toList, b.1 < tb.last + 1 := by
    intro b hb
    have hid : b.1 ∈ tb.rows := List.mem_map_of_mem hb
    exact Nat.lt_succ_of_le (hv.row_number hid).2
  have hrows : (tb.append new).rows.toList = tb.rows.toList ++ [(tb.last + 1, new)] :=
    OrderedMap.insertInto_of_lt hlt
  have hids (tb : Table) : tb.ids.members = tb.rows.toList.map (·.1) := List.map_map ..
  rw [hids, hids, hrows, List.map_append]
  rfl

/-- The rows before are as they were, and the new one comes last. -/
theorem rows_append (hv : tb.Valid) (new : OrderedMap String String) :
    (tb.append new).ids.members.map (tb.append new).row =
      tb.ids.members.map tb.row ++ [⟨tb.last + 1, new.toList⟩] := by
  have hold : ∀ id ∈ tb.ids.members, (tb.append new).row id = tb.row id := by
    intro id hid
    have hne := hv.ne_succ_last (mem_ids.mp (OrderedSet.mem_members.mp hid))
    rw [row, row, fields_append, if_neg hne]
  have hnew : (tb.append new).row (tb.last + 1) = ⟨tb.last + 1, new.toList⟩ := by
    rw [row, fields_append, if_pos rfl]
  rw [members_append hv, List.map_append, List.map_congr_left hold, List.map_singleton, hnew]

end Table

/-- Fields pass if each of them does. Of two values for one column the later is checked last. -/
theorem Engine.checkFields_eq_ok {t : TableName} {types : OrderedMap String ColumnType}
    {fields : List (String × String)} {checked : OrderedMap String String} :
    checkFields t types fields = .ok checked ↔
      (∀ field ∈ fields, ∃ type, types.get? field.1 = some type ∧ type.accepts field.2 = true) ∧
        checked = OrderedMap.ofList fields := by
  have hfold : ∀ (fields : List (String × String)) (acc : OrderedMap String String),
      fields.foldlM (checkField t types) acc = .ok checked ↔
        (∀ field ∈ fields, ∃ type, types.get? field.1 = some type ∧ type.accepts field.2 = true) ∧
          checked = fields.foldl (fun m b => m.insert b.1 b.2) acc := by
    intro fields
    induction fields with
    | nil =>
        intro acc
        constructor
        · intro h
          exact ⟨nofun, (Except.ok.inj h).symm⟩
        · rintro ⟨-, rfl⟩
          rfl
    | cons field rest ih =>
        intro acc
        rw [List.foldlM_cons, bind_eq_ok, List.forall_mem_cons, List.foldl_cons]
        constructor
        · rintro ⟨acc', hstep, h⟩
          obtain ⟨hfield, rfl⟩ := checkField_eq_ok.mp hstep
          obtain ⟨hrest, hchecked⟩ := (ih _).mp h
          exact ⟨⟨hfield, hrest⟩, hchecked⟩
        · rintro ⟨⟨hfield, hrest⟩, hchecked⟩
          exact ⟨_, checkField_eq_ok.mpr ⟨hfield, rfl⟩, (ih _).mpr ⟨hrest, hchecked⟩⟩
  exact hfold fields ∅

theorem Engine.checkFields_eq_ofList {t : TableName} {types : OrderedMap String ColumnType}
    {fields : List (String × String)} {checked : OrderedMap String String}
    (h : checkFields t types fields = .ok checked) : checked = OrderedMap.ofList fields :=
  (checkFields_eq_ok.mp h).2

/-! ### What can be seen of an image -/

/-- All that can be seen of an image is a table. Fields may be those of no row, and rows may lack
under an index, but nothing is numbered beyond what has been counted. -/
structure Image.Shows (img : Image) (tb : Table) : Prop where
  types : img.types = tb.image.types
  members : img.members = tb.ids.texts
  row : ∀ {id}, id ∈ tb.rows → img.row id = tb.fields id
  index : ∀ {at_ x}, x ∈ img.index at_ → ∃ id, tb.cell id at_.1 = some at_.2 ∧ toString id = x
  row_le : ∀ {id}, (img.row id).isEmpty = false → id ≤ img.last
  last_le : (img.last : Int) ≤ Text.maxInt64

namespace Image.Shows

variable {img : Image} {tb : Table} {id : RowId}

theorem id_le (h : img.Shows tb) (hv : tb.Valid) (hid : id ∈ tb.rows) : id ≤ img.last := by
  apply h.row_le
  rw [h.row hid]
  exact hv.row_fields hid

/-- The image of a table shows it. -/
theorem of_valid (hv : tb.Valid) : tb.image.Shows tb where
  types := rfl
  members := rfl
  row _ := rfl
  index hx := (Table.mem_index.mp hx).2
  row_le {id} hne := by
    apply Decidable.byContradiction
    intro hlt
    have hid : id ∉ tb.rows := fun hid => hlt (hv.row_number hid).2
    have hempty : tb.image.row id = ∅ := Table.fields_of_notMem hid
    rw [hempty] at hne
    cases hne
  last_le := hv.last_le

/-- Before the next row is a row its fields are not to be seen. -/
theorem hidden (hv : tb.Valid) (hlast : (tb.last : Int) < Text.maxInt64)
    (fields : OrderedMap String String) :
    Shows { tb.image.setRow (tb.last + 1) fields with last := tb.last + 1 } tb where
  types := rfl
  members := rfl
  row {id} hid := by
    show (tb.image.setRow (tb.last + 1) fields).row id = _
    rw [row_setRow, if_neg (hv.ne_succ_last hid)]
    rfl
  index hx := (of_valid hv).index hx
  row_le {id} hne := by
    change ((tb.image.setRow (tb.last + 1) fields).row id).isEmpty = false at hne
    show id ≤ tb.last + 1
    rw [row_setRow] at hne
    split at hne
    · next heq => exact Nat.le_of_eq heq
    · exact Nat.le_succ_of_le ((of_valid hv).row_le hne)
  last_le := by
    show ((tb.last + 1 : Nat) : Int) ≤ Text.maxInt64
    omega

/-- Once it is a row it is to be seen, under whatever indexes it is. -/
theorem shown (hv : tb.Valid) (hlast : (tb.last : Int) < Text.maxInt64)
    {new : OrderedMap String String} {done : List (String × String)} (hdone : done <+: new.toList) :
    Shows ({ tb.image.setRow (tb.last + 1) new with
      last := tb.last + 1
      members := OrderedSet.add tb.ids.texts (toString (tb.last + 1)) }.enterAll tb.indexed
        (tb.last + 1) done) (tb.append new) := by
  have hrow : ∀ id, (tb.image.setRow (tb.last + 1) new).row id = (tb.append new).fields id := by
    intro id
    rw [row_setRow, Table.fields_append]
    rfl
  have hhidden := hidden hv hlast new
  rw [enterAll_eq]
  refine ⟨rfl, ?_, fun _ => hrow _, fun {at_ x} hx => ?_, hhidden.row_le, hhidden.last_le⟩
  · rw [Table.ids_append, RowSet.texts_add]
  · rcases mem_enterAll.mp hx with ⟨hmem, -, rfl⟩ | hx
    · refine ⟨tb.last + 1, ?_, rfl⟩
      rw [Table.cell, Table.fields_append, if_pos rfl]
      exact OrderedMap.get?_eq_some_iff.mpr (hdone.subset hmem)
    · obtain ⟨id, hcell, hid⟩ := (of_valid hv).index hx
      refine ⟨id, ?_, hid⟩
      rw [Table.cell, Table.fields_append, if_neg (hv.ne_succ_last (Table.mem_rows_of_cell hcell))]
      exact hcell

end Image.Shows

/-- On the way to one more row no number is taken back, and what can be seen is the table before or
the one with the row. -/
def Image.Inserting (tb : Table) (new : OrderedMap String String) (img : Image) : Prop :=
  tb.last ≤ img.last ∧ ∃ tb', (tb' = tb ∨ tb' = tb.append new) ∧ tb'.Valid ∧ img.Shows tb'

/-! ### What a cut insertion leaves -/

namespace StoreM

variable {t : TableName} {l : Layout} {tb : Table}

theorem steady_nextRowId (t : TableName) : Steady (Engine.nextRowId t) := by
  refine (Steady.call _ _).bind fun n => ?_
  cases n with
  | ofNat id => exact Steady.ret _
  | negSucc n => exact Steady.throw _

theorem steady_enterAll (t : TableName) (indexed : OrderedSet String) (id : RowId)
    (fields : List (String × String)) :
    Steady (fields.forM fun (column, value) => do
        if indexed.contains column then
          let _ ← sadd (Key.index t column value).text (toString id)) := by
  refine Steady.forM fun field => ?_
  obtain ⟨column, value⟩ := field
  dsimp only
  split
  · exact (Steady.call _ _).bind fun _ => Steady.ret ()
  · exact Steady.ret ()

theorem cutsTo_nextRowId {I : Image → Prop} {img : Image} (himg : I img) :
    CutsTo (Engine.nextRowId t) t l img I := by
  intro s s' hs h
  rcases h.bind (Steady.call _ _) with h | ⟨n, s₁, -, h⟩
  · exact ⟨img, himg, h.of_call ▸ hs⟩
  · cases n with
    | ofNat id => exact h.of_pure.elim
    | negSucc n => exact h.of_throw.elim

section
variable (ht : t.Tagged)
include ht

/-- A row whose fields are written in part has some fields. -/
theorem cutsTo_setFields (img : Image) (id : RowId) (fields : List (String × String)) :
    CutsTo (fields.forM fun (column, value) => do
        let _ ← hset (Key.row t id).text column value) t l img
      fun img' => ∃ written, img' = img.setRow id written := by
  induction fields generalizing img with
  | nil => exact CutsTo.ret ()
  | cons field rest ih =>
      have hnone : ∃ written, img = img.setRow id written := by
        refine ⟨img.row id, ?_⟩
        rw [Image.setRow, Function.update_eq_self]
      have hset := runs_hset_row (l := l) img ht id field.1 field.2
      refine CutsTo.bind ((Steady.call _ _).bind fun _ => Steady.ret ())
        (CutsTo.step hnone hset (CutsTo.ret ())) (hset.bind (Runs.ret ())) ?_
      refine (ih _).mono fun img' himg' => ?_
      obtain ⟨written, rfl⟩ := himg'
      refine ⟨written, ?_⟩
      rw [Image.setRow, Image.setRow, Image.setRow, Function.update_idem]

/-- A row is entered into indexes from its first field on. -/
theorem cutsTo_enterAll (img : Image) {indexed : OrderedSet String} (id : RowId)
    (hindexed : ∀ column ∈ indexed, ':' ∉ column.toList) (fields : List (String × String)) :
    CutsTo (fields.forM fun (column, value) => do
        if indexed.contains column then
          let _ ← sadd (Key.index t column value).text (toString id)) t l img
      fun img' => ∃ done, done <+: fields ∧ img' = img.enterAll indexed id done := by
  induction fields generalizing img with
  | nil => exact CutsTo.ret ()
  | cons field rest ih =>
      obtain ⟨column, value⟩ := field
      have hnone : ∃ done, done <+: (column, value) :: rest ∧ img = img.enterAll indexed id done :=
        ⟨[], List.nil_prefix, rfl⟩
      have hmore {img' : Image} (himg' : ∃ done, done <+: rest ∧ img' =
          (if column ∈ indexed then img.enter column value id else img).enterAll indexed id done) :
          ∃ done, done <+: (column, value) :: rest ∧ img' = img.enterAll indexed id done := by
        obtain ⟨done, hdone, rfl⟩ := himg'
        exact ⟨(column, value) :: done, List.cons_prefix_cons.mpr ⟨rfl, hdone⟩, rfl⟩
      rw [List.forM_eq_forM, List.forM_cons]
      dsimp only
      by_cases hi : column ∈ indexed
      · rw [if_pos (OrderedMap.contains_iff.mpr hi)]
        rw [if_pos hi] at hmore
        have hsadd := runs_sadd_index (l := l) img ht (hindexed column hi) value id
        refine CutsTo.bind ((Steady.call _ _).bind fun _ => Steady.ret ())
          (CutsTo.step hnone hsadd (CutsTo.ret ())) (hsadd.bind (Runs.ret ())) ?_
        exact (ih (img.enter column value id)).mono fun _ => hmore
      · rw [if_neg fun h => hi (OrderedMap.contains_iff.mp h)]
        rw [if_neg hi] at hmore
        refine CutsTo.bind (Steady.ret ()) (CutsTo.ret ()) (Runs.ret ()) ?_
        exact (ih img).mono fun _ => hmore

end

/-- A cut leaves the row hidden until it is among the rows. -/
theorem cutsTo_writeRow (ht : t.Tagged) (hv : tb.Valid) (hlast : (tb.last : Int) < Text.maxInt64)
    {new : OrderedMap String String} (hvalid : (tb.append new).Valid) :
    CutsTo (do
        new.toList.forM fun (column, value) => do
          let _ ← hset (Key.row t (tb.last + 1)).text column value
        let _ ← sadd (Key.rows t).text (toString (tb.last + 1))
        new.toList.forM fun (column, value) => do
          if tb.indexed.contains column then
            let _ ← sadd (Key.index t column value).text (toString (tb.last + 1))
        return tb.last + 1) t l { tb.image with last := tb.last + 1 } (Image.Inserting tb new) := by
  have hhidden (written : OrderedMap String String) : Image.Inserting tb new
      { tb.image.setRow (tb.last + 1) written with last := tb.last + 1 } :=
    ⟨Nat.le_succ _, tb, Or.inl rfl, hv, .hidden hv hlast written⟩
  have hset := runs_setFields_new (l := l) ht { tb.image with last := tb.last + 1 }
    (Table.fields_of_notMem hv.succ_last_notMem) new
  refine CutsTo.bind (Steady.forM fun _ => (Steady.call _ _).bind fun _ => Steady.ret ()) ?_
    hset ?_
  · refine (cutsTo_setFields ht _ _ _).mono fun img himg => ?_
    obtain ⟨written, rfl⟩ := himg
    exact hhidden written
  · refine CutsTo.step (hhidden new) (runs_sadd_rows _ ht _) ?_
    refine CutsTo.map (steady_enterAll t _ _ _) ?_ fun _ => tb.last + 1
    refine (cutsTo_enterAll ht _ _ (fun _ => hv.indexed_name) _).mono fun img himg => ?_
    obtain ⟨done, hdone, rfl⟩ := himg
    refine ⟨?_, tb.append new, Or.inr rfl, hvalid, .shown hv hlast hdone⟩
    rw [Image.enterAll_eq]
    exact Nat.le_succ _

/-- A cut insertion leaves the table before, or the one with the fields of the insertion. -/
theorem cutsTo_insert (hn : t.Names tb) (hv : tb.Valid) (fields : List (String × String)) :
    CutsTo (Engine.insert t fields) t l tb.image
      (Image.Inserting tb (OrderedMap.ofList fields)) := by
  have hbefore : Image.Inserting tb (OrderedMap.ofList fields) tb.image :=
    ⟨Nat.le_refl _, tb, Or.inl rfl, hv, .of_valid hv⟩
  refine CutsTo.check hbefore (reads_ensureTable t) (runs_ensureTable hn.proper) fun _ hensure => ?_
  have ht := hn.of_ensure hensure
  cases hfields : fields.isEmpty with
  | true => exact CutsTo.fail _
  | false =>
      refine CutsTo.look hbefore (reads_columnTypes t) (runs_columnTypes ht) ?_
      refine CutsTo.check hbefore (Reads.of_except _) (Runs.of_except _) fun new hnew => ?_
      refine CutsTo.look hbefore (reads_indexedColumns t) (runs_indexedColumns ht) ?_
      by_cases hlast : (tb.last : Int) < Text.maxInt64
      · have hvalid : (tb.append new).Valid :=
          hv.append hlast (Engine.isEmpty_checkFields hnew hfields) (Engine.checkFields_admits hnew)
        rw [← Engine.checkFields_eq_ofList hnew] at hbefore ⊢
        exact CutsTo.bind (steady_nextRowId t) (cutsTo_nextRowId hbefore)
          (runs_nextRowId ht tb.image hlast) (cutsTo_writeRow ht hv hlast hvalid)
      · have hfull : (tb.last : Int) = Text.maxInt64 :=
          Int.le_antisymm hv.last_le (Int.not_lt.mp hlast)
        have hoverflow : Runs (Engine.nextRowId t) (tb.image.on t l) (.error _)
            (tb.image.on t l) := Runs.bind_error (runs_incr_counter_overflow tb.image ht hfull)
        refine CutsTo.seq (steady_nextRowId t) (cutsTo_nextRowId hbefore) hoverflow ?_
        exact fun id h => by cases h

/-- All rows that an image shows are found. -/
theorem runs_selectAll {img : Image} {limit : Nat} (ht : t.Tagged) (hv : tb.Valid)
    (hthere : tb.columns.isEmpty = false) (himg : img.Shows tb) :
    Runs (Engine.select limit t none) (img.on t l) (.ok (tb.ids.members.map tb.row))
      (img.on t l) := by
  have hensure := runs_ensureTable_of (l := l) himg.types ht.1
  have hthere' : Reference.ensure t tb = .ok () := Reference.ensure_eq_ok.mpr hthere
  rw [hthere'] at hensure
  have hplan : Runs (Plan.ofQuery t none) (img.on t l) (.ok [.seed .all]) (img.on t l) :=
    hensure.bind (Runs.ret _)
  have hrows : Runs (Query.rows limit t none) (img.on t l) (.ok tb.ids.members) (img.on t l) :=
    hplan.bind (((runs_allRows ht hv himg.members).bind (Runs.ret _)).bind (Runs.ret _))
  exact hrows.bind (runs_fetchAll ht hv himg.row fun id hid => Table.mem_ids.mp hid)

end StoreM

/-! ### What a store has of a table -/

namespace Store

variable {s : Store} {t : TableName} {id : RowId}

/-- An index of which only a table can be seen is sound. -/
theorem Holds.exists_rowHolds {img : Image} {l : Layout} {tb : Table} (hs : s.Holds (img.on t l))
    (ht : t.Tagged) (himg : img.Shows tb) {column value x : String} (hname : ':' ∉ column.toList)
    (hx : x ∈ s.membersAt (Key.index t column value).text) :
    ∃ id, toString id = x ∧ s.RowHolds t column value id := by
  rw [hs.index_on ht hname] at hx
  obtain ⟨id, hcell, hid⟩ := himg.index hx
  exact ⟨id, hid, (hs.rowHolds_iff ht himg.members himg.row).mpr hcell⟩

/-- The store has the number under some key of the table: it has fields, it is among the rows or in
an index set. -/
def Uses (s : Store) (t : TableName) (id : RowId) : Prop :=
  (Key.row t id).text ∈ s ∨ toString id ∈ s.membersAt (Key.rows t).text ∨
    ∃ column value, ':' ∉ column.toList ∧
      toString id ∈ s.membersAt (Key.index t column value).text

theorem Holds.le_of_uses {img : Image} {l : Layout} {tb : Table} (hs : s.Holds (img.on t l))
    (ht : t.Tagged) (hv : tb.Valid) (himg : img.Shows tb) (h : s.Uses t id) : id ≤ img.last := by
  rcases h with hrow | hmember | ⟨column, value, hname, hmember⟩
  · rw [OrderedMap.mem_iff_isSome, hs.get?_on (k := .row t id) ht rfl, Image.entry,
      Entry.ofHash] at hrow
    apply himg.row_le
    cases hempty : (img.row id).isEmpty with
    | false => rfl
    | true =>
        rw [hempty] at hrow
        cases hrow
  · rw [hs.members_on ht, himg.members, RowSet.toString_mem_texts, Table.mem_ids] at hmember
    exact himg.id_le hv hmember
  · rw [hs.index_on ht hname] at hmember
    obtain ⟨id', hcell, heq⟩ := himg.index hmember
    obtain rfl := Text.toString_injective heq
    exact himg.id_le hv (Table.mem_rows_of_cell hcell)

end Store

/-- The number was the reply to an insertion into the table, or a command has left it in the
store. -/
def Named (t : TableName) (events : List Event) (id : RowId) : Prop :=
  .bulk (toString id) ∈ insertions t events ∨ ∃ e ∈ events, e.store.Uses t id

/-- What has happened to a table is told by its rows, and no number beyond the last row was used. -/
structure Numbered (t : TableName) (events : List Event) (tb : Table) : Prop where
  tally : Tally t events tb
  uses : ∀ e ∈ events, ∀ {id}, e.store.Uses t id → id ≤ tb.last

namespace Numbered

variable {t : TableName} {events : List Event} {tb tb' : Table} {e : Event} {id : RowId}

theorem create (columns : List Column) : Numbered t [] (Table.create columns) :=
  ⟨Tally.create columns, fun _ he => by cases he⟩

theorem turn (h : Numbered t events tb) (hv : tb.Valid) (he : e.Turns t tb tb') :
    Numbered t (events ++ [e]) tb' := by
  have htally := h.tally.turn hv he
  have hle : tb.last ≤ tb'.last := by
    have hlen := congrArg List.length htally.insertions
    rw [insertions_concat, List.length_append, h.tally.insertions, List.length_map,
      List.length_range, List.length_map, List.length_range] at hlen
    omega
  refine ⟨htally, fun e' hmem {id} huse => ?_⟩
  rcases List.mem_append.mp hmem with hmem | hmem
  · exact Nat.le_trans (h.uses e' hmem huse) hle
  · obtain rfl := List.mem_singleton.mp hmem
    obtain ⟨db, hdb, hs, rfl⟩ := he.store
    have ht := hdb.tagged (hdb.mem_tables_iff.mpr he.still)
    have hv' := hdb.table_valid t
    rw [db.layout_on t] at hs
    exact hs.le_of_uses ht hv' (.of_valid hv') huse

theorem le_of_named (h : Numbered t events tb) (hid : Named t events id) : id ≤ tb.last := by
  rcases hid with hreply | ⟨e, he, huse⟩
  · rw [h.tally.insertions, List.mem_map] at hreply
    obtain ⟨k, hk, heq⟩ := hreply
    have hid : k + 1 = id := Text.toString_injective (Reply.bulk.inj heq)
    exact hid ▸ Nat.succ_le_of_lt (List.mem_range.mp hk)
  · exact h.uses e he huse

end Numbered

/-! ### Half an insertion -/

namespace Store

variable {t : TableName}

/-- An insertion that a failure cuts short, wherever it strikes, is never half visible. All rows can
still be queried: they are those before, or those before and one with all the fields of the
insertion. Every index set only has rows that hold its value. And whatever lines follow, unless they
remove the table, an insertion that succeeds then gives a number beyond all that have been replied
or written since the table was created. -/
theorem insert_never_half_visible {lines : List (Config × String)}
    (ht : ((∅ : Store).afterAll lines).HasTable t) {fields : List (String × String)} {s' : Store}
    (hcut : (Engine.insert t fields).Cut ((∅ : Store).afterAll lines) s') :
    let s := (∅ : Store).afterAll lines
    (∃ rows rows' : List Row,
      (∀ limit, (Engine.select limit t none).exec ⟨s, none⟩ = (.ok rows, ⟨s, none⟩)) ∧
      (∀ limit, (Engine.select limit t none).exec ⟨s', none⟩ = (.ok rows', ⟨s', none⟩)) ∧
      (rows' = rows ∨ ∃ id, (∀ row ∈ rows, row.id < id) ∧
        rows' = rows ++ [⟨id, (OrderedMap.ofList fields).toList⟩])) ∧
    (∀ column value x, ':' ∉ column.toList →
      x ∈ s'.membersAt (Key.index t column value).text →
        ∃ id, toString id = x ∧ s'.RowHolds t column value id) ∧
    ∀ more : List (Config × String), (∀ l ∈ more, Command.parse l.2 ≠ .ok (.dropTable t)) →
      ∀ fields' id σ, (Engine.insert t fields').exec ⟨s'.afterAll more, none⟩ = (.ok id, σ) →
        ∀ id', Named t (life t ((∅ : Store).log lines)) id' ∨ s'.Uses t id' ∨
          .bulk (toString id') ∈ insertions t (s'.log more) → id' < id := by
  intro s
  obtain ⟨db, hdb, hs, hnumbered⟩ :=
    exists_database_of_life Numbered.create (fun hv he h => h.turn hv he) lines
  have hmem := (hs.hasTable_iff hdb).mp ht
  have hlife := hnumbered hmem
  have htag := hdb.tagged hmem
  have hv := hdb.table_valid t
  have hthere := hdb.mem_tables_iff.mp hmem
  have hn : t.Names (db.table t) := ⟨htag.1, fun _ => htag⟩
  rw [db.layout_on t] at hs
  obtain ⟨img, ⟨hlast, tb', htb', hv', hshows⟩, hs'⟩ :=
    StoreM.cutsTo_insert hn hv fields _ s' hs hcut
  have hthere' : tb'.columns.isEmpty = false := by
    rcases htb' with rfl | rfl
    · exact hthere
    · exact hthere
  refine ⟨⟨(db.table t).ids.members.map (db.table t).row, tb'.ids.members.map tb'.row, ?_, ?_, ?_⟩,
    ?_, ?_⟩
  · exact fun limit => (StoreM.runs_selectAll htag hv hthere (.of_valid hv)).exec_eq hs
  · exact fun limit => (StoreM.runs_selectAll htag hv' hthere' hshows).exec_eq hs'
  · rcases htb' with rfl | rfl
    · exact Or.inl rfl
    · refine Or.inr ⟨(db.table t).last + 1, fun row hrow => ?_, Table.rows_append hv _⟩
      obtain ⟨id, hid, rfl⟩ := List.mem_map.mp hrow
      exact Nat.lt_succ_of_le (hv.row_number (Table.mem_ids.mp hid)).2
  · exact fun column value x hname hx => hs'.exists_rowHolds htag hshows hname hx
  · intro more hmore fields' id σ hinsert id' hid'
    have hcounted : s'.Counted t img.last :=
      ⟨hs'.get?_on (k := .counter t) htag rfl, hshows.last_le⟩
    obtain ⟨hlt, hreplied⟩ := hcounted.lt_of_insert htag hmore hinsert
    rcases hid' with hnamed | huse | hreply
    · calc id' ≤ (db.table t).last := hlife.le_of_named hnamed
        _ ≤ img.last := hlast
        _ < id := hlt
    · exact Nat.lt_of_le_of_lt (hs'.le_of_uses htag hv' hshows huse) hlt
    · exact hreplied id' hreply

/-- The sample, with the counter advanced and the fields of a second row written. The row is in no
set. -/
def halfInserted : Store :=
  let t : TableName := ⟨"app", "users"⟩
  (sample.insert (Key.counter t).text (.text "2")).insert (Key.row t 2).text
    (.hash (OrderedMap.ofList [("name", "bob")]))

theorem cut_halfInserted :
    (Engine.insert ⟨"app", "users"⟩ [("name", "bob")]).Cut sample halfInserted := by
  refine ⟨⟨.sadd, 0⟩, ?_⟩
  cbv

/-- The number of the row that is not there is not given again. -/
theorem sample_insert_never_half_visible :
    let t : TableName := ⟨"app", "users"⟩
    let lines : List (Config × String) :=
      [({}, "NAMESPACE.CREATE app"), ({}, "SCHEMA.CREATE app.users name:string:hash age:integer"),
       ({}, "INSERT app.users name=ann age=7")]
    let s := (∅ : Store).afterAll lines
    s.HasTable t ∧ (Engine.insert t [("name", "bob")]).Cut s halfInserted ∧
      (∃ rows rows' : List Row,
        (∀ limit, (Engine.select limit t none).exec ⟨s, none⟩ = (.ok rows, ⟨s, none⟩)) ∧
        (∀ limit, (Engine.select limit t none).exec ⟨halfInserted, none⟩ =
          (.ok rows', ⟨halfInserted, none⟩)) ∧
        (rows' = rows ∨ ∃ id, (∀ row ∈ rows, row.id < id) ∧
          rows' = rows ++ [⟨id, (OrderedMap.ofList [("name", "bob")]).toList⟩])) ∧
      (∀ column value x, ':' ∉ column.toList →
        x ∈ halfInserted.membersAt (Key.index t column value).text →
          ∃ id, toString id = x ∧ halfInserted.RowHolds t column value id) ∧
      ((Engine.insert t [("age", "8")]).exec ⟨halfInserted, none⟩).1 = .ok 3 ∧
      ∀ id', Named t (life t ((∅ : Store).log lines)) id' ∨ halfInserted.Uses t id' ∨
        .bulk (toString id') ∈ insertions t (halfInserted.log []) → id' < 3 := by
  intro t lines s
  have hs : s = sample := by
    show (∅ : Store).afterAll lines = sample
    rw [sample_eq, afterAll_cons, afterAll_cons, afterAll_cons, afterAll_nil]
  have ht : s.HasTable t := hs ▸ of_decide_eq_true (by cbv)
  have hcut : (Engine.insert t [("name", "bob")]).Cut s halfInserted := hs ▸ cut_halfInserted
  have hinsert : ((Engine.insert t [("age", "8")]).exec ⟨halfInserted, none⟩).1 = .ok 3 := by cbv
  obtain ⟨hrows, hindexes, hnext⟩ := insert_never_half_visible ht hcut
  exact ⟨ht, hcut, hrows, hindexes, hinsert,
    hnext [] (fun _ hl => absurd hl List.not_mem_nil) [("age", "8")] 3 _ (Prod.ext hinsert rfl)⟩

end Store

end Tabular
