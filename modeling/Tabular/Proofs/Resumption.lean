import Mathlib.Logic.Relation
import Tabular.Proofs.Interruption
import Tabular.Proofs.Separation

/-!
Commands that may be carried out again when a failure has cut them short. Dropping a table, giving a
column an index and taking it away only make the keys of the table more like what the command leaves:
whatever a cut of such a command leaves, the command goes on from there to the same end
(`Resumes.cut`, `Resumes.run`). So after attempts in any number it leaves the store that one run
without failures leaves (`Reachable.resumed`). Every run may go through sets in orders of its own, so
of the rows that an index is built from a cut may leave any behind.
-/

namespace Tabular

namespace StoreM

variable {α : Type} {t : TableName} {l : Layout}

/-- Of whatever image of a kind a program is run, it gives the same result and leaves the same
image, and each cut of it leaves an image of that kind. -/
structure Resumes (p : Orders → Config → StoreM α) (t : TableName) (l : Layout) (I : Image → Prop)
    (a : α) (final : Image) : Prop where
  cut : ∀ orders config img, I img → CutsTo (p orders config) t l img I
  run : ∀ orders config img, I img → Runs (p orders config) (img.on t l) (.ok a) (final.on t l)

/-- Runs of a program, each in any orders, under any configuration and cut short. -/
def Attempts (p : Orders → Config → StoreM α) : Store → Store → Prop :=
  Relation.ReflTransGen fun s s' => ∃ orders config, (p orders config).Cut s s'

variable {p : Orders → Config → StoreM α} {I : Image → Prop} {a : α} {final : Image}

namespace Resumes

theorem attempts (h : Resumes p t l I a final) {s s' : Store} {img : Image} (himg : I img)
    (hs : s.Holds (img.on t l)) (hattempts : Attempts p s s') :
    ∃ img', I img' ∧ s'.Holds (img'.on t l) := by
  induction hattempts with
  | refl => exact ⟨img, himg, hs⟩
  | tail _ hcut ih =>
      obtain ⟨img', himg', hs'⟩ := ih
      obtain ⟨orders, config, hcut⟩ := hcut
      exact h.cut orders config img' himg' _ _ hs' hcut

/-- After any attempts a program does what it does without them. -/
theorem exec_eq (h : Resumes p t l I a final) {s s' : Store} {img : Image} (himg : I img)
    (hs : s.Holds (img.on t l)) (hattempts : Attempts p s s') (orders orders' : Orders)
    (config config' : Config) :
    (p orders' config').exec ⟨s', none⟩ = (p orders config).exec ⟨s, none⟩ := by
  obtain ⟨img', himg', hs'⟩ := h.attempts himg hs hattempts
  obtain ⟨s₁, hexec, hs₁⟩ := h.run orders config img himg s hs
  obtain ⟨s₂, hexec', hs₂⟩ := h.run orders' config' img' himg' s' hs'
  rw [hexec, hexec', hs₂.unique hs₁]

end Resumes

/-! ### Programs that only look -/

theorem reads_ensureTable (t : TableName) : Reads (Catalog.ensureTable t) := by
  refine ((Reads.look _ _ rfl).bind fun _ => Reads.ret _).bind fun found => ?_
  cases found with
  | true => exact Reads.ret _
  | false => exact Reads.throw _

theorem reads_columnType (t : TableName) (column : String) :
    Reads (Catalog.columnType t column) := by
  refine (Reads.look _ _ rfl).bind fun type => ?_
  cases type with
  | none => exact Reads.throw _
  | some type => exact Reads.ret _

theorem reads_allRows (t : TableName) : Reads (Query.allRows t) :=
  (Reads.look _ _ rfl).bind fun _ => Reads.ret _

/-! ### Dropping a table -/

section
variable {tb : Table} (hthere : tb.columns.isEmpty = false) (ht : t.Tagged)
include hthere ht

/-- With its schema a table can be dropped, whatever its other keys hold. -/
theorem resumes_dropTable :
    Resumes (Command.runBy · · (.dropTable t)) t l (fun img => img.types = tb.image.types) .ok
      ∅ := by
  have hensure : Reference.ensure t tb = .ok () := Reference.ensure_eq_ok.mpr hthere
  have hcheck (img : Image) (himg : img.types = tb.image.types) :
      Runs (Catalog.ensureTable t) (img.on t l) (.ok ()) (img.on t l) := by
    have h := runs_ensureTable_of (l := l) himg ht.1
    rwa [hensure] at h
  have htag : ∀ k : Key, k.Proper → Glob.matchesKey t.keyPattern k.text = true →
      k.tag? = some t := by
    intro k hk hmatch
    rwa [TableName.matchesKey_keyPattern, Key.keyStem_prefix_iff ht hk] at hmatch
  have hschema (types : OrderedMap String String) : ∃ found, Runs (del (Key.schema t).text)
      ({ (∅ : Image) with types }.on t l) (.ok found) ((∅ : Image).on t l) := by
    obtain ⟨found, h⟩ := runs_del (k := .schema t) ht.1 (l := { (∅ : Image) with types }.on t l)
    rw [← Entry.ofHash_empty, Image.put_types] at h
    exact ⟨found, h⟩
  constructor
  · intro _ config img himg
    obtain ⟨n, hkeys⟩ := runs_delTable ht (l := l) img config.scanPageSize
    obtain ⟨found, hschema⟩ := hschema img.types
    have hsteady : Steady (Catalog.dropTable t config.scanPageSize) := by
      refine (reads_ensureTable t).steady.bind fun _ => (steady_delMatching _ _).bind fun _ => ?_
      exact (Steady.call _ _).bind fun _ => Steady.ret _
    refine CutsTo.map hsteady ?_ fun _ => Reply.ok
    refine CutsTo.look himg (reads_ensureTable t) (hcheck img himg) ?_
    refine CutsTo.bind (steady_delMatching _ _) ?_ hkeys (CutsTo.step himg hschema (CutsTo.ret _))
    refine (cutsTo_delMatching img config.scanPageSize htag).mono fun img' himg' => ?_
    obtain ⟨gone, -, rfl⟩ := himg'
    exact himg
  · intro _ config img himg
    obtain ⟨n, hkeys⟩ := runs_delTable ht (l := l) img config.scanPageSize
    obtain ⟨found, hschema⟩ := hschema img.types
    have hdrop : Runs (Catalog.dropTable t config.scanPageSize) (img.on t l) (.ok ())
        ((∅ : Image).on t l) := (hcheck img himg).bind (hkeys.bind (hschema.bind (Runs.ret ())))
    exact hdrop.bind (Runs.ret _)

end

/-! ### Taking an index away -/

end StoreM

namespace Image

variable {img final : Image} {t : TableName} {column : String}

/-- What taking an index away makes of an image. -/
def unindex (img : Image) (column : String) : Image :=
  { img with indexed := img.indexed.erase column }.clear column

/-- What is still under the index does not matter. -/
theorem unindex_without {gone : Key → Bool}
    (hgone : ∀ k, gone k = true → ∃ value, k = .index t column value) :
    ({ img with indexed := img.indexed.erase column }.without t gone).unindex column =
      img.unindex column := by
  have hnot {k : Key} (hk : ∀ value, k ≠ .index t column value) : gone k = false := by
    apply Bool.eq_false_iff.mpr
    intro h
    obtain ⟨value, rfl⟩ := hgone k h
    exact hk value rfl
  refine Image.ext rfl ?_ ?_ ?_ ?_ ?_
  · have htwice : (img.indexed.erase column).erase column = img.indexed.erase column :=
      OrderedMap.erase_of_notMem fun h => (OrderedMap.mem_erase.mp h).1 rfl
    show OrderedMap.erase (if gone (.indexed t) then ∅ else img.indexed.erase column) column = _
    rw [hnot (by simp), if_neg Bool.false_ne_true, htwice]
    rfl
  · show (if gone (.counter t) then 0 else img.last) = img.last
    rw [hnot (by simp), if_neg Bool.false_ne_true]
  · show (if gone (.rows t) then ∅ else img.members) = img.members
    rw [hnot (by simp), if_neg Bool.false_ne_true]
  · funext id
    show (if gone (.row t id) then ∅ else img.row id) = img.row id
    rw [hnot (by simp), if_neg Bool.false_ne_true]
  · funext at_
    show (if at_.1 = column then ∅ else if gone (.index t at_.1 at_.2) then ∅ else img.index at_) =
      if at_.1 = column then ∅ else img.index at_
    by_cases hcolumn : at_.1 = column
    · rw [if_pos hcolumn, if_pos hcolumn]
    · rw [hnot (by simp [hcolumn]), if_neg Bool.false_ne_true]

/-- What giving a column an index makes of an image with some rows. -/
def reindex (img : Image) (column : String) (ids : List RowId) : Image :=
  { img with indexed := OrderedSet.add img.indexed column }.indexRows column ids

theorem reindex_eq (ids : List RowId) : img.reindex column ids =
    { img with
      indexed := OrderedSet.add img.indexed column
      index := (img.reindex column ids).index } := indexRows_eq ids

theorem mem_reindex {ids : List RowId} {at_ : String × String} {x : String} :
    x ∈ (img.reindex column ids).index at_ ↔ x ∈ img.index at_ ∨
      at_.1 = column ∧ ∃ id ∈ ids, (img.row id).get? column = some at_.2 ∧ toString id = x :=
  mem_indexRows

/-- To have entered some of the rows before makes no difference. -/
theorem reindex_reindex {done ids : List RowId} (hdone : ∀ id ∈ done, id ∈ ids) :
    (img.reindex column done).reindex column ids = img.reindex column ids := by
  have hrow : (img.reindex column done).row = img.row := by rw [reindex_eq]
  have hindex : ((img.reindex column done).reindex column ids).index =
      (img.reindex column ids).index := by
    funext at_
    apply OrderedSet.ext_mem
    intro x
    rw [mem_reindex, mem_reindex, mem_reindex, hrow, or_assoc]
    refine or_congr_right (or_iff_right_of_imp fun h => ?_)
    obtain ⟨hcolumn, id, hid, hx⟩ := h
    exact ⟨hcolumn, id, hdone id hid, hx⟩
  have hmarked : OrderedSet.add (OrderedSet.add img.indexed column) column =
      OrderedSet.add img.indexed column :=
    OrderedSet.add_of_mem (OrderedSet.mem_add.mpr (Or.inl rfl))
  calc (img.reindex column done).reindex column ids
      = { img.reindex column done with
          indexed := OrderedSet.add (img.reindex column done).indexed column
          index := ((img.reindex column done).reindex column ids).index } := reindex_eq ids
    _ = { img with
          indexed := OrderedSet.add img.indexed column
          index := (img.reindex column ids).index } := by rw [hindex, reindex_eq done, hmarked]
    _ = img.reindex column ids := (reindex_eq ids).symm

end Image

namespace StoreM

variable {t : TableName} {l : Layout} {tb : Table} {column : String} {type : ColumnType}

section
variable (ht : t.Tagged) (hname : ':' ∉ column.toList)
include ht hname

/-- Deleting the keys of an index empties it, whatever it holds. -/
theorem runs_delIndex (img : Image) (pageSize : Nat) :
    ∃ n, Runs (delMatching (t.indexPattern column) pageSize) (img.on t l) (.ok n)
      ((img.clear column).on t l) :=
  runs_delMatching _ pageSize fun _ hk => on_clear ht hname img hk

omit ht hname in
theorem steady_indexRows (ids : List RowId) : Steady (Engine.indexRows t column ids) := by
  induction ids with
  | nil => exact Steady.ret 0
  | cons id rest ih =>
      rw [Engine.indexRows]
      refine Steady.bind (Reads.look _ _ rfl).steady fun value => ?_
      cases value with
      | none => exact ih
      | some value => exact (Steady.call _ _).bind fun _ => ih.bind fun _ => Steady.ret _

/-- Rows are entered into an index from the first one on. -/
theorem cutsTo_indexRows (img : Image) (ids : List RowId) :
    CutsTo (Engine.indexRows t column ids) t l img fun img' =>
      ∃ done, done <+: ids ∧ img' = img.indexRows column done := by
  induction ids generalizing img with
  | nil => exact CutsTo.ret 0
  | cons id rest ih =>
      have hnone : ∃ done, done <+: id :: rest ∧ img = img.indexRows column done :=
        ⟨[], List.nil_prefix, rfl⟩
      refine CutsTo.look hnone (Reads.look _ _ rfl) (runs_hget_row img ht id column) ?_
      cases hvalue : (img.row id).get? column with
      | none =>
          refine (ih img).mono fun img' himg' => ?_
          obtain ⟨done, hdone, rfl⟩ := himg'
          refine ⟨id :: done, List.cons_prefix_cons.mpr ⟨rfl, hdone⟩, ?_⟩
          rw [Image.indexRows, hvalue]
      | some value =>
          refine CutsTo.step hnone (runs_sadd_index img ht hname value id) ?_
          refine CutsTo.bind (steady_indexRows rest) ?_ (runs_indexRows ht hname _ rest)
            (CutsTo.ret _)
          refine (ih (img.enter column value id)).mono fun img' himg' => ?_
          obtain ⟨done, hdone, rfl⟩ := himg'
          refine ⟨id :: done, List.cons_prefix_cons.mpr ⟨rfl, hdone⟩, ?_⟩
          rw [Image.indexRows, hvalue]

end

section
variable (ht : t.Tagged) (hthere : tb.columns.isEmpty = false)
variable (htype : tb.columns.get? column = some type)
variable {img : Image} (himg : img.types = tb.image.types)
include ht hthere htype himg

/-- With its schema a table and its columns are found, whatever its other keys hold. -/
theorem runs_declared :
    Runs (Catalog.ensureTable t) (img.on t l) (.ok ()) (img.on t l) ∧
      Runs (Catalog.columnType t column) (img.on t l) (.ok type) (img.on t l) := by
  have hcheck := runs_ensureTable_of (l := l) himg ht.1
  have hlook := runs_columnType_of (l := l) himg ht column
  have hcolumn : Reference.columnType t tb column = .ok type := by
    rw [Reference.columnType, htype]
  rw [Reference.ensure_eq_ok.mpr hthere] at hcheck
  rw [hcolumn] at hlook
  exact ⟨hcheck, hlook⟩

variable (hname : ':' ∉ column.toList)
include hname

theorem runs_dropIndex (orders : Orders) (config : Config) :
    Runs (Command.runBy orders config (.dropIndex t column)) (img.on t l) (.ok .ok)
      ((img.unindex column).on t l) := by
  obtain ⟨hcheck, hlook⟩ := runs_declared (l := l) ht hthere htype himg
  obtain ⟨n, hdel⟩ := runs_delIndex (l := l) ht hname
    { img with indexed := img.indexed.erase column } config.scanPageSize
  have hdrop : Runs (Engine.dropIndex t column config.scanPageSize) (img.on t l)
      (.ok (.removed, n)) ((img.unindex column).on t l) :=
    hcheck.bind (hlook.bind ((runs_srem_indexed img ht column).bind (hdel.bind (Runs.ret _))))
  exact hdrop.bind (Runs.ret _)

/-- To take an index away is cut before anything has changed, or when the column is unmarked and only
keys of the index are gone. -/
theorem cutsTo_dropIndex (orders : Orders) (config : Config) :
    CutsTo (Command.runBy orders config (.dropIndex t column)) t l img fun img' =>
      img' = img ∨ column ∉ img'.indexed ∧ img'.unindex column = img.unindex column := by
  obtain ⟨hcheck, hlook⟩ := runs_declared (l := l) ht hthere htype himg
  have hindex : ∀ k : Key, k.Proper → Glob.matchesKey (t.indexPattern column) k.text = true →
      ∃ value, k = .index t column value := fun k hk => (matchesKey_index ht hname hk).mp
  have htag : ∀ k : Key, k.Proper → Glob.matchesKey (t.indexPattern column) k.text = true →
      k.tag? = some t := by
    intro k hk hmatch
    obtain ⟨value, rfl⟩ := hindex k hk hmatch
    rfl
  have hsteady : Steady (Engine.dropIndex t column config.scanPageSize) := by
    refine (reads_ensureTable t).steady.bind fun _ => ?_
    refine (reads_columnType t column).steady.bind fun _ => ?_
    exact (Steady.call _ _).bind fun _ => (steady_delMatching _ _).bind fun _ => Steady.ret _
  refine CutsTo.map hsteady ?_ fun _ => Reply.ok
  refine CutsTo.look (Or.inl rfl) (reads_ensureTable t) hcheck ?_
  refine CutsTo.look (Or.inl rfl) (reads_columnType t column) hlook ?_
  refine CutsTo.step (Or.inl rfl) (runs_srem_indexed img ht column) ?_
  refine CutsTo.map (steady_delMatching _ _) ?_ _
  refine (cutsTo_delMatching _ config.scanPageSize htag).mono fun img' himg' => Or.inr ?_
  obtain ⟨gone, hgone, rfl⟩ := himg'
  have hgone' : ∀ k, gone k = true → ∃ value, k = .index t column value :=
    fun k hk => hindex k (hgone k hk).1 (hgone k hk).2
  refine ⟨fun hmem => ?_, Image.unindex_without hgone'⟩
  have hmarked : gone (.indexed t) ≠ true := by
    intro h
    obtain ⟨value, heq⟩ := hgone' _ h
    cases heq
  have hindexed : ({ img with indexed := img.indexed.erase column }.without t gone).indexed =
      img.indexed.erase column := if_neg hmarked
  rw [hindexed] at hmem
  exact (OrderedMap.mem_erase.mp hmem).1 rfl

variable (hv : tb.Valid) (hmembers : img.members = tb.ids.texts)
include hv hmembers

theorem runs_addIndex (orders : Orders) (config : Config) :
    Runs (Command.runBy orders config (.addIndex t column)) (img.on t l) (.ok .ok)
      ((img.reindex column tb.ids.members).on t l) := by
  obtain ⟨hcheck, hlook⟩ := runs_declared (l := l) ht hthere htype himg
  have hmarked : ({ img with indexed := OrderedSet.add img.indexed column } : Image).members =
      tb.ids.texts := hmembers
  have hall := runs_allRows (l := l) ht hv hmarked
  have hrows := runs_indexRows (l := l) ht hname
    { img with indexed := OrderedSet.add img.indexed column } (orders.rows.list tb.ids)
  rw [Image.indexRows_perm (orders.rows.perm tb.ids)] at hrows
  have hadd : Runs (Engine.addIndexBy orders.rows t column) (img.on t l) (.ok _)
      ((img.reindex column tb.ids.members).on t l) :=
    hcheck.bind (hlook.bind ((runs_sadd_indexed img ht column).bind (hall.bind hrows)))
  exact hadd.bind (Runs.ret _)

/-- To give an index is cut before anything has changed, or when some of the rows are entered: those
that come first in the order of the attempt. -/
theorem cutsTo_addIndex (orders : Orders) (config : Config) :
    CutsTo (Command.runBy orders config (.addIndex t column)) t l img fun img' =>
      img' = img ∨ ∃ done, done <+: orders.rows.list tb.ids ∧ img' = img.reindex column done := by
  obtain ⟨hcheck, hlook⟩ := runs_declared (l := l) ht hthere htype himg
  have hmarked : ({ img with indexed := OrderedSet.add img.indexed column } : Image).members =
      tb.ids.texts := hmembers
  have hsteady : Steady (Engine.addIndexBy orders.rows t column) := by
    refine (reads_ensureTable t).steady.bind fun _ => ?_
    refine (reads_columnType t column).steady.bind fun _ => ?_
    exact (Steady.call _ _).bind fun _ => (reads_allRows t).steady.bind fun _ => steady_indexRows _
  refine CutsTo.map hsteady ?_ fun _ => Reply.ok
  refine CutsTo.look (Or.inl rfl) (reads_ensureTable t) hcheck ?_
  refine CutsTo.look (Or.inl rfl) (reads_columnType t column) hlook ?_
  refine CutsTo.step (Or.inl rfl) (runs_sadd_indexed img ht column) ?_
  refine CutsTo.look (Or.inr ⟨[], List.nil_prefix, rfl⟩) (reads_allRows t)
    (runs_allRows ht hv hmarked) ?_
  exact (cutsTo_indexRows ht hname _ (orders.rows.list tb.ids)).mono fun _ himg' => Or.inr himg'

end

section
variable (ht : t.Tagged) (hv : tb.Valid) (hthere : tb.columns.isEmpty = false)
variable (htype : tb.columns.get? column = some type)
include ht hv hthere htype

/-- An index that has been taken away in part can be taken away. -/
theorem resumes_dropIndex :
    Resumes (Command.runBy · · (.dropIndex t column)) t l
      (fun img => img.unindex column = (tb.dropIndex column).image) .ok
      (tb.dropIndex column).image := by
  have hname := hv.column_name (OrderedMap.mem_of_get? htype)
  have htypes {img : Image} (himg : img.unindex column = (tb.dropIndex column).image) :
      img.types = tb.image.types := by
    have h := congrArg Image.types himg
    exact h
  constructor
  · intro orders config img himg
    have hcut := cutsTo_dropIndex (l := l) ht hthere htype (htypes himg) hname orders config
    refine hcut.mono fun img' himg' => ?_
    obtain rfl | ⟨-, heq⟩ := himg'
    · exact himg
    · rw [heq, himg]
  · intro orders config img himg
    have hrun := runs_dropIndex (l := l) ht hthere htype (htypes himg) hname orders config
    rwa [himg] at hrun

/-- An index that has been given in part can be given. -/
theorem resumes_addIndex :
    Resumes (Command.runBy · · (.addIndex t column)) t l
      (fun img => img.reindex column tb.ids.members = (tb.addIndex column).image) .ok
      (tb.addIndex column).image := by
  have hname := hv.column_name (OrderedMap.mem_of_get? htype)
  have hparts {img : Image} (himg : img.reindex column tb.ids.members = (tb.addIndex column).image) :
      img.types = tb.image.types ∧ img.members = tb.ids.texts := by
    rw [Image.reindex_eq] at himg
    have htypes := congrArg Image.types himg
    have hmembers := congrArg Image.members himg
    exact ⟨htypes, hmembers⟩
  constructor
  · intro orders config img himg
    obtain ⟨htypes, hmembers⟩ := hparts himg
    have hcut := cutsTo_addIndex (l := l) ht hthere htype htypes hname hv hmembers orders config
    refine hcut.mono fun img' himg' => ?_
    obtain rfl | ⟨done, hdone, rfl⟩ := himg'
    · exact himg
    · rw [← himg]
      exact Image.reindex_reindex fun id hid =>
        (orders.rows.perm tb.ids).mem_iff.mp (hdone.subset hid)
  · intro orders config img himg
    obtain ⟨htypes, hmembers⟩ := hparts himg
    have hrun := runs_addIndex (l := l) ht hthere htype htypes hname hv hmembers orders config
    rwa [himg] at hrun

end

end StoreM

/-! ### Commands -/

namespace Store

variable {s s' : Store} {db : Database} {line : String} {c : Command}

theorem exec_runLineBy (hparse : Command.parse line = .ok c) (orders : Orders) (config : Config)
    (σ : Session) :
    (Command.runLineBy orders config line).exec σ = (c.runBy orders config).exec σ := by
  unfold Command.runLineBy
  rw [hparse]
  exact StoreM.exec_bind_ok (StoreM.exec_ofExcept _ _)

theorem exec_runLine (hparse : Command.parse line = .ok c) (config : Config) (σ : Session) :
    (Command.runLine config line).exec σ = (c.run config).exec σ :=
  exec_runLineBy hparse .ascending config σ

/-- An attempt at a line is one at its command. -/
theorem attempts_run (hparse : Command.parse line = .ok c)
    (h : StoreM.Attempts (Command.runLineBy · · line) s s') :
    StoreM.Attempts (Command.runBy · · c) s s' := by
  refine Relation.ReflTransGen.mono (fun s s' hcut => ?_) _ _ h
  obtain ⟨orders, config, fault, hexec⟩ := hcut
  rw [exec_runLineBy hparse] at hexec
  exact ⟨orders, config, fault, hexec⟩

/-- Commands that remove a table, give a column an index or take it away resume, if they succeed on
the database as it is. -/
theorem exists_resumes (hdb : db.Valid) {t : TableName} {config : Config} {known : Bool}
    {out : Reply × Table}
    (hc : c = .dropTable t ∨ ∃ column, c = .dropIndex t column ∨ c = .addIndex t column)
    (hrun : Reference.run config known t (db.table t) c = .ok out) :
    ∃ I reply final, I (db.table t).image ∧
      StoreM.Resumes (Command.runBy · · c) t db.layout I reply final := by
  have hv := hdb.table_valid t
  generalize htb : db.table t = tb at hrun hv ⊢
  have htagged (hthere : tb.columns.isEmpty = false) : t.Tagged :=
    hdb.tagged (hdb.mem_tables_iff.mpr (htb ▸ hthere))
  obtain ⟨reply, tb'⟩ := out
  have hmakes := Reference.makes_of_run hrun
  rcases hc with rfl | ⟨column, rfl | rfl⟩
  · cases hmakes with
    | dropTable _ hthere =>
        exact ⟨fun img => img.types = tb.image.types, _, _, rfl,
          StoreM.resumes_dropTable hthere (htagged hthere)⟩
  · cases hmakes with
    | dropIndex _ hthere htype =>
        exact ⟨_, _, _, tb.clear_image column,
          StoreM.resumes_dropIndex (htagged hthere) hv hthere htype⟩
  · cases hmakes with
    | addIndex _ hthere htype =>
        exact ⟨_, _, _, tb.indexRows_image column,
          StoreM.resumes_addIndex (htagged hthere) hv hthere htype⟩

/-- Dropping a table, taking an index away and giving one can be repeated. If such a line succeeds on
a store, then after attempts at it in any number, each in any orders, under any configuration and cut
short by any failure, it succeeds with the same reply, and leaves the store that it leaves without the
attempts, again in whatever orders. -/
theorem Reachable.resumed (h : s.Reachable) (hparse : Command.parse line = .ok c) {t : TableName}
    (hc : c = .dropTable t ∨ ∃ column, c = .dropIndex t column ∨ c = .addIndex t column)
    {orders : Orders} {config : Config} {reply : Reply}
    (hok : s.replyBy orders config line = .ok reply)
    (hattempts : StoreM.Attempts (Command.runLineBy · · line) s s') (orders' : Orders)
    (config' : Config) :
    s'.replyBy orders' config' line = .ok reply ∧
      s'.afterBy orders' config' line = s.afterBy orders config line := by
  obtain ⟨db, hdb, hs⟩ := h.exists_database
  have ht : c.table? = some t := by
    rcases hc with rfl | ⟨column, rfl | rfl⟩ <;> rfl
  have hreply := Database.reply_of_onTable (Database.runLine_of_parse hparse ht config db)
  rw [← (hs.lineBy hdb orders config line).1, hok] at hreply
  cases hrun : Reference.run config (t.ns ∈ db.namespaces) t (db.table t) c with
  | error e =>
      rw [hrun] at hreply
      cases hreply
  | ok out =>
      obtain ⟨I, a, final, himg, hresumes⟩ := exists_resumes hdb hc hrun
      rw [db.layout_on t] at hs
      have hexec := hresumes.exec_eq himg hs (attempts_run hparse hattempts) orders orders' config
        config'
      rw [← hok]
      unfold Store.replyBy Store.afterBy
      rw [exec_runLineBy hparse, exec_runLineBy hparse, hexec]
      exact ⟨rfl, rfl⟩

/-- The ages have been given an index, and of the two rows only the second is entered. -/
def sampleHalfIndexed : Store :=
  let t : TableName := ⟨"app", "users"⟩
  OrderedMap.ofList
    [((Key.marker "app").text, .text "1"),
     ((Key.schema t).text, .hash (OrderedMap.ofList [("age", "integer"), ("name", "string")])),
     ((Key.indexed t).text, .set (OrderedSet.ofMembers ["age", "name"])),
     ((Key.counter t).text, .text "2"),
     ((Key.rows t).text, .set (OrderedSet.ofMembers ["1", "2"])),
     ((Key.row t 1).text, .hash (OrderedMap.ofList [("age", "7"), ("name", "ann")])),
     ((Key.row t 2).text, .hash (OrderedMap.ofList [("age", "8"), ("name", "cid")])),
     ((Key.index t "age" "8").text, .set (OrderedSet.ofMembers ["2"])),
     ((Key.index t "name" "ann").text, .set (OrderedSet.ofMembers ["1"])),
     ((Key.index t "name" "cid").text, .set (OrderedSet.ofMembers ["2"]))]

/-- The first attempt begins with the second row and the other one with the first, and neither comes
to enter the first. -/
theorem sample_attempts :
    StoreM.Attempts (Command.runLineBy · · "SCHEMA.ALTER app.users ADD INDEX age") sampleInserted
      sampleHalfIndexed := by
  have hparse : Command.parse "SCHEMA.ALTER app.users ADD INDEX age" =
      .ok (.addIndex ⟨"app", "users"⟩ "age") := by cbv
  have hfirst : (Command.runLineBy .descending {} "SCHEMA.ALTER app.users ADD INDEX age").Cut
      sampleInserted sampleHalfIndexed := by
    refine ⟨⟨.sadd, 2⟩, ?_⟩
    rw [exec_runLineBy hparse]
    cbv
  have hsecond : (Command.runLineBy .ascending {} "SCHEMA.ALTER app.users ADD INDEX age").Cut
      sampleHalfIndexed sampleHalfIndexed := by
    refine ⟨⟨.sadd, 1⟩, ?_⟩
    rw [exec_runLineBy hparse]
    cbv
  exact (Relation.ReflTransGen.refl.tail ⟨.descending, {}, hfirst⟩).tail ⟨.ascending, {}, hsecond⟩

theorem sample_resumed :
    let line := "SCHEMA.ALTER app.users ADD INDEX age"
    sampleInserted.Reachable ∧ Command.parse line = .ok (.addIndex ⟨"app", "users"⟩ "age") ∧
      sampleInserted.replyBy .ascending {} line = .ok .ok ∧
      sampleInserted.afterBy .ascending {} line = sampleIndexed ∧
      StoreM.Attempts (Command.runLineBy · · line) sampleInserted sampleHalfIndexed ∧
      sampleHalfIndexed.replyBy .descending {} line = .ok .ok ∧
      sampleHalfIndexed.afterBy .descending {} line = sampleIndexed := by
  intro line
  have hparse : Command.parse "SCHEMA.ALTER app.users ADD INDEX age" =
      .ok (.addIndex ⟨"app", "users"⟩ "age") := by cbv
  have hok : sampleInserted.replyBy .ascending {} "SCHEMA.ALTER app.users ADD INDEX age" =
      .ok .ok := by cbv
  have hdone : sampleInserted.afterBy .ascending {} line = sampleIndexed := by
    rw [afterBy_ascending]
    exact sampleIndexed_eq.symm
  obtain ⟨hreply, hafter⟩ := sampleInserted_reachable.resumed hparse (Or.inr ⟨"age", Or.inr rfl⟩)
    hok sample_attempts .descending {}
  exact ⟨sampleInserted_reachable, hparse, hok, hdone, sample_attempts, hreply, hafter.trans hdone⟩

end Store

end Tabular
