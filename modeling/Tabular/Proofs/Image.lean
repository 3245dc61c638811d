import Mathlib.Logic.Function.Basic
import Tabular.Proofs.Layout
import Tabular.Proofs.Table

/-!
What the keys of one table hold, key by key. An `Image` may be of no table, in the midst of a
change; `Table.image` is that of a table between changes. `Image.on` puts an image into a layout of
all else, and each primitive on a key of the table is a change of one part of its image.
-/

namespace Tabular

@[ext] structure Image where
  types : OrderedMap String String
  indexed : OrderedSet String
  last : Nat
  members : OrderedSet String
  row : RowId → OrderedMap String String
  /-- The members under a column and a value. -/
  index : String × String → OrderedSet String

/-- An index key holds the rows with its value, and nothing if its column has no index. -/
def Table.image (tb : Table) : Image where
  types := tb.columns.mapValues ColumnType.name
  indexed := tb.indexed
  last := tb.last
  members := tb.ids.texts
  row := tb.fields
  index at_ := if at_.1 ∈ tb.indexed then (tb.holding at_.1 at_.2).texts else ∅

/-- What keys hold under indexes that their columns do not have. A command leaves nothing there, but
one that is cut short while it takes an index away may leave some of it. -/
abbrev Leftovers := String × String → OrderedSet String

/-- The image of a table with something left under the columns without an index. -/
def Table.imageOver (tb : Table) (left : Leftovers) : Image :=
  { tb.image with
    index := fun at_ =>
      if at_.1 ∈ tb.indexed then (tb.holding at_.1 at_.2).texts else left at_ }

/-- The image of a table is the one with nothing left. -/
theorem Table.imageOver_empty (tb : Table) : tb.imageOver (fun _ => ∅) = tb.image := rfl

/-- An index set has the rows that hold its value. -/
theorem Table.mem_index {tb : Table} {at_ : String × String} {x : String} :
    x ∈ tb.image.index at_ ↔
      at_.1 ∈ tb.indexed ∧ ∃ id, tb.cell id at_.1 = some at_.2 ∧ toString id = x := by
  have hindex : tb.image.index at_ =
      if at_.1 ∈ tb.indexed then (tb.holding at_.1 at_.2).texts else ∅ := rfl
  rw [hindex]
  by_cases hi : at_.1 ∈ tb.indexed
  · rw [if_pos hi, and_iff_right hi, RowSet.mem_texts]
    simp only [mem_holding]
  · rw [if_neg hi]
    exact iff_of_false (OrderedMap.notMem_empty x) fun h => hi h.1

/-- The image of keys that hold nothing. -/
instance : EmptyCollection Image := ⟨⟨∅, ∅, 0, ∅, fun _ => ∅, fun _ => ∅⟩⟩

theorem Table.image_empty : (∅ : Table).image = ∅ := by
  apply Image.ext rfl rfl rfl rfl rfl
  funext at_
  rfl

namespace Image

def entry (img : Image) : Key → Option Entry
  | .marker _ => none
  | .schema _ => Entry.ofHash img.types
  | .indexed _ => Entry.ofSet img.indexed
  | .counter _ => Entry.ofCount img.last
  | .rows _ => Entry.ofSet img.members
  | .row _ id => Entry.ofHash (img.row id)
  | .index _ column value => Entry.ofSet (img.index (column, value))

/-- The layout in which the keys of a table hold an image of it. -/
def on (img : Image) (t : TableName) (l : Layout) : Layout :=
  fun k => if k.table? = some t then img.entry k else l k

def setRow (img : Image) (id : RowId) (fields : OrderedMap String String) : Image :=
  { img with row := Function.update img.row id fields }

def setIndex (img : Image) (column value : String) (members : OrderedSet String) : Image :=
  { img with index := Function.update img.index (column, value) members }

/-- Enters a row under a column and a value. -/
def enter (img : Image) (column value : String) (id : RowId) : Image :=
  img.setIndex column value (OrderedSet.add (img.index (column, value)) (toString id))

/-- Removes a row from under a column and a value. -/
def remove (img : Image) (column value : String) (id : RowId) : Image :=
  img.setIndex column value ((img.index (column, value)).erase (toString id))

variable {img : Image} {t : TableName} {l : Layout}

@[simp] theorem index_setIndex (column value : String) (members : OrderedSet String)
    (at_ : String × String) :
    (img.setIndex column value members).index at_ =
      if at_ = (column, value) then members else img.index at_ := Function.update_apply ..

@[simp] theorem row_setRow (id : RowId) (fields : OrderedMap String String) (id' : RowId) :
    (img.setRow id fields).row id' = if id' = id then fields else img.row id' :=
  Function.update_apply ..

theorem on_of_table {k : Key} (h : k.table? = some t) : img.on t l k = img.entry k := if_pos h

theorem on_of_ne {k : Key} (h : k.table? ≠ some t) : img.on t l k = l k := if_neg h

theorem entry_empty (k : Key) : (∅ : Image).entry k = none := by
  cases k <;> rfl

/-- Of an image with nothing but a schema, all keys with the name in braces are empty. -/
theorem entry_of_tag {k : Key} (types : OrderedMap String String) (h : k.tag? = some t) :
    entry { (∅ : Image) with types } k = none := by
  cases k <;> first | rfl | cases h

/-- To change a key of a table is to change the image, if the images agree on all other keys. -/
theorem put_on {img' : Image} {k : Key} {e : Option Entry} (hk : k.table? = some t)
    (hself : img'.entry k = e) (hother : ∀ k' : Key, k'.table? = some t → k' ≠ k →
      img'.entry k' = img.entry k') : (img.on t l).put k e = img'.on t l := by
  funext k'
  by_cases ht : k'.table? = some t
  · rw [on_of_table ht]
    by_cases heq : k' = k
    · rw [heq, Layout.put_self, hself]
    · rw [Layout.put_ne _ _ heq, on_of_table ht, hother k' ht heq]
  · have hne : k' ≠ k := fun heq => ht (heq ▸ hk)
    rw [on_of_ne ht, Layout.put_ne _ _ hne, on_of_ne ht]

theorem put_types (types : OrderedMap String String) :
    (img.on t l).put (.schema t) (Entry.ofHash types) = { img with types }.on t l := by
  refine put_on (k := .schema t) rfl rfl fun k' ht hne => ?_
  cases k' <;> simp_all [Key.table?, entry]

theorem put_indexed (indexed : OrderedSet String) :
    (img.on t l).put (.indexed t) (Entry.ofSet indexed) = { img with indexed }.on t l := by
  refine put_on (k := .indexed t) rfl rfl fun k' ht hne => ?_
  cases k' <;> simp_all [Key.table?, entry]

theorem put_last (last : Nat) :
    (img.on t l).put (.counter t) (Entry.ofCount last) = { img with last }.on t l := by
  refine put_on (k := .counter t) rfl rfl fun k' ht hne => ?_
  cases k' <;> simp_all [Key.table?, entry]

theorem put_members (members : OrderedSet String) :
    (img.on t l).put (.rows t) (Entry.ofSet members) = { img with members }.on t l := by
  refine put_on (k := .rows t) rfl rfl fun k' ht hne => ?_
  cases k' <;> simp_all [Key.table?, entry]

theorem put_row (id : RowId) (fields : OrderedMap String String) :
    (img.on t l).put (.row t id) (Entry.ofHash fields) = (img.setRow id fields).on t l := by
  have hself : (img.setRow id fields).row id = fields := by rw [row_setRow, if_pos rfl]
  refine put_on (k := .row t id) rfl (by rw [entry, hself]) fun k' ht hne => ?_
  cases k' <;> simp_all [Key.table?, entry, setRow]

theorem put_index (column value : String) (members : OrderedSet String) :
    (img.on t l).put (.index t column value) (Entry.ofSet members) =
      (img.setIndex column value members).on t l := by
  have hself : (img.setIndex column value members).index (column, value) = members := by
    rw [index_setIndex, if_pos rfl]
  refine put_on (k := .index t column value) rfl (by rw [entry, hself]) fun k' ht hne => ?_
  cases k' with
  | index t' column' value' =>
      obtain rfl := Option.some.inj ht
      have hne' : (column', value') ≠ (column, value) := by
        intro heq
        obtain ⟨rfl, rfl⟩ := Prod.mk.inj heq
        exact hne rfl
      have hother : (img.setIndex column value members).index (column', value') =
          img.index (column', value') := by rw [index_setIndex, if_neg hne']
      rw [entry, entry, hother]
  | _ => simp_all [Key.table?, entry, setIndex]

end Image

/-! ### Reading -/

namespace Store.Holds

variable {s : Store} {img : Image} {t : TableName} {l : Layout} (hs : s.Holds (img.on t l))
include hs

/-- A key of a table holds what the image of the table says. -/
theorem get?_on {k : Key} (hk : k.Proper) (htable : k.table? = some t) :
    s.get? k.text = img.entry k := by
  rw [hs.lookup hk, Image.on_of_table htable]

section
variable {s' : Store} {img' : Image} (hs' : s'.Holds (img'.on t l))
include hs'

/-- A key at which two images of a table do not differ holds the same; what is beside the table
does not matter. -/
theorem get?_text_eq {k : Key} (hk : k.Proper)
    (h : k.table? = some t → img'.entry k = img.entry k) : s'.get? k.text = s.get? k.text := by
  rw [hs'.lookup hk, hs.lookup hk]
  by_cases ht : k.table? = some t
  · rw [Image.on_of_table ht, Image.on_of_table ht, h ht]
  · rw [Image.on_of_ne ht, Image.on_of_ne ht]

/-- The same for a text, whether a key has it or not. -/
theorem get?_eq {x : String}
    (h : ∀ k : Key, k.table? = some t → k.text = x → img'.entry k = img.entry k) :
    s'.get? x = s.get? x := by
  by_cases hx : ∃ k : Key, k.Proper ∧ k.text = x
  · obtain ⟨k, hk, rfl⟩ := hx
    exact hs.get?_text_eq hs' hk fun ht => h k ht rfl
  · have hnone : ∀ k : Key, k.Proper → k.text ≠ x := fun k hk heq => hx ⟨k, hk, heq⟩
    rw [hs'.only hnone, hs.only hnone]

end

variable (ht : t.Tagged)
include ht

theorem indexed_on : s.membersAt (Key.indexed t).text = img.indexed :=
  Store.membersAt_eq (hs.get?_on (k := .indexed t) ht rfl)

theorem members_on : s.membersAt (Key.rows t).text = img.members :=
  Store.membersAt_eq (hs.get?_on (k := .rows t) ht rfl)

theorem row_on (id : RowId) : s.fieldsAt (Key.row t id).text = img.row id :=
  Store.fieldsAt_eq (hs.get?_on (k := .row t id) ht rfl)

theorem index_on {column : String} (hcolumn : ':' ∉ column.toList) (value : String) :
    s.membersAt (Key.index t column value).text = img.index (column, value) :=
  Store.membersAt_eq (hs.get?_on (k := .index t column value) ⟨ht, hcolumn⟩ rfl)

end Store.Holds

namespace StoreM

open Image

variable (img : Image) {t : TableName} {l : Layout}

/-! ### The schema and the set of indexed columns -/

section schema

theorem runs_keyType_schema (ht : t.Proper) :
    Runs (keyType (Key.schema t).text) (img.on t l)
      (.ok (if img.types.isEmpty then .absent else .hash)) (img.on t l) := by
  apply runs_keyType (k := .schema t) ht
  intro s hs
  rw [Store.keyType, hs, on_of_table rfl, entry, Entry.ofHash]
  cases img.types.isEmpty <;> rfl

variable (ht : t.Tagged)
include ht

theorem runs_hget_schema (column : String) :
    Runs (hget (Key.schema t).text column) (img.on t l) (.ok (img.types.get? column))
      (img.on t l) :=
  runs_hget (k := .schema t) ht.1 (on_of_table rfl) column

theorem runs_hgetall_schema :
    Runs (hgetall (Key.schema t).text) (img.on t l) (.ok img.types) (img.on t l) :=
  runs_hgetall (k := .schema t) ht.1 (on_of_table rfl)

theorem runs_hset_schema (column type : String) :
    Runs (hset (Key.schema t).text column type) (img.on t l) (.ok (!img.types.contains column))
      ({ img with types := img.types.insert column type }.on t l) := by
  have h := runs_hset (l := img.on t l) (k := .schema t) ht.1 (on_of_table rfl) column type
  rwa [put_types] at h

theorem runs_smembers_indexed :
    Runs (smembers (Key.indexed t).text) (img.on t l) (.ok img.indexed) (img.on t l) :=
  runs_smembers (k := .indexed t) ht (on_of_table rfl)

theorem runs_sadd_indexed (column : String) :
    Runs (sadd (Key.indexed t).text column) (img.on t l) (.ok (!img.indexed.contains column))
      ({ img with indexed := OrderedSet.add img.indexed column }.on t l) := by
  have h := runs_sadd (l := img.on t l) (k := .indexed t) ht (on_of_table rfl) column
  rwa [put_indexed] at h

theorem runs_srem_indexed (column : String) :
    Runs (srem (Key.indexed t).text column) (img.on t l) (.ok (img.indexed.contains column))
      ({ img with indexed := img.indexed.erase column }.on t l) := by
  have h := runs_srem (l := img.on t l) (k := .indexed t) ht (on_of_table rfl) column
  rwa [put_indexed] at h

end schema

/-! ### The rows -/

section rows

variable (ht : t.Tagged)
include ht

theorem runs_incr_counter (hlast : (img.last : Int) < Text.maxInt64) :
    Runs (incr (Key.counter t).text) (img.on t l) (.ok ((img.last + 1 : Nat) : Int))
      ({ img with last := img.last + 1 }.on t l) := by
  have h := runs_incr (l := img.on t l) (k := .counter t) ht (on_of_table rfl) hlast
  rwa [put_last] at h

theorem runs_incr_counter_overflow (hlast : (img.last : Int) = Text.maxInt64) :
    Runs (incr (Key.counter t).text) (img.on t l)
      (.error (.store (.overflow (Key.counter t).text))) (img.on t l) :=
  runs_incr_overflow (k := .counter t) ht (on_of_table rfl) hlast

theorem runs_smembers_rows :
    Runs (smembers (Key.rows t).text) (img.on t l) (.ok img.members) (img.on t l) :=
  runs_smembers (k := .rows t) ht (on_of_table rfl)

theorem runs_sadd_rows (id : String) :
    Runs (sadd (Key.rows t).text id) (img.on t l) (.ok (!img.members.contains id))
      ({ img with members := OrderedSet.add img.members id }.on t l) := by
  have h := runs_sadd (l := img.on t l) (k := .rows t) ht (on_of_table rfl) id
  rwa [put_members] at h

theorem runs_srem_rows (id : String) :
    Runs (srem (Key.rows t).text id) (img.on t l) (.ok (img.members.contains id))
      ({ img with members := img.members.erase id }.on t l) := by
  have h := runs_srem (l := img.on t l) (k := .rows t) ht (on_of_table rfl) id
  rwa [put_members] at h

theorem runs_keyType_row (id : RowId) :
    Runs (keyType (Key.row t id).text) (img.on t l)
      (.ok (if (img.row id).isEmpty then .absent else .hash)) (img.on t l) := by
  apply runs_keyType (k := .row t id) ht
  intro s hs
  rw [Store.keyType, hs, on_of_table rfl, entry, Entry.ofHash]
  cases (img.row id).isEmpty <;> rfl

theorem runs_hget_row (id : RowId) (column : String) :
    Runs (hget (Key.row t id).text column) (img.on t l) (.ok ((img.row id).get? column))
      (img.on t l) :=
  runs_hget (k := .row t id) ht (on_of_table rfl) column

theorem runs_hgetall_row (id : RowId) :
    Runs (hgetall (Key.row t id).text) (img.on t l) (.ok (img.row id)) (img.on t l) :=
  runs_hgetall (k := .row t id) ht (on_of_table rfl)

theorem runs_hset_row (id : RowId) (column value : String) :
    Runs (hset (Key.row t id).text column value) (img.on t l)
      (.ok (!(img.row id).contains column))
      ((img.setRow id ((img.row id).insert column value)).on t l) := by
  rw [← put_row]
  exact runs_hset (k := .row t id) ht (on_of_table rfl) column value

theorem runs_del_row (id : RowId) :
    ∃ found, Runs (del (Key.row t id).text) (img.on t l) (.ok found)
      ((img.setRow id ∅).on t l) := by
  obtain ⟨found, h⟩ := runs_del (l := img.on t l) (k := .row t id) ht
  rw [← Entry.ofHash_empty, put_row] at h
  exact ⟨found, h⟩

end rows

/-! ### The indexes -/

section index

variable (ht : t.Tagged) {column : String} (hcolumn : ':' ∉ column.toList)
include ht hcolumn

theorem runs_smembers_index (value : String) :
    Runs (smembers (Key.index t column value).text) (img.on t l)
      (.ok (img.index (column, value))) (img.on t l) :=
  runs_smembers (k := .index t column value) ⟨ht, hcolumn⟩ (on_of_table rfl)

theorem runs_sadd_index (value : String) (id : RowId) :
    Runs (sadd (Key.index t column value).text (toString id)) (img.on t l)
      (.ok (!(img.index (column, value)).contains (toString id)))
      ((img.enter column value id).on t l) := by
  rw [enter, ← put_index]
  exact runs_sadd (k := .index t column value) ⟨ht, hcolumn⟩ (on_of_table rfl) (toString id)

theorem runs_srem_index (value : String) (id : RowId) :
    Runs (srem (Key.index t column value).text (toString id)) (img.on t l)
      (.ok ((img.index (column, value)).contains (toString id)))
      ((img.remove column value id).on t l) := by
  rw [remove, ← put_index]
  exact runs_srem (k := .index t column value) ⟨ht, hcolumn⟩ (on_of_table rfl) (toString id)

end index

/-! ### Programs on one table -/

variable {α β : Type} {tb tb' : Table}

/-- A program does to the keys of a table what a function does to the table, and leaves alone what is
left under columns without an index. If the function fails, the program fails with the same error
and changes nothing. -/
inductive Refines (p : StoreM α) (t : TableName) (left : Leftovers) (l : Layout) (tb : Table) :
    Except Error (α × Table) → Prop
  | done {a : α} {tb' : Table}
      (h : Runs p ((tb.imageOver left).on t l) (.ok a) ((tb'.imageOver left).on t l)) :
      Refines p t left l tb (.ok (a, tb'))
  | failed {e : Error}
      (h : Runs p ((tb.imageOver left).on t l) (.error e) ((tb.imageOver left).on t l)) :
      Refines p t left l tb (.error e)

namespace Refines

variable {left : Leftovers} {x : StoreM α} {f : α → StoreM β}

/-- What comes after a failure does not matter. -/
theorem fail (e : Error) (g : α → Except Error (β × Table)) :
    Refines (throwThe Error e >>= f) t left l tb (throwThe Error e >>= g) :=
  .failed (Runs.bind_error (Runs.throw e))

/-- A program that begins with a look at the store goes on with what it sees. -/
theorem look {r : Except Error (β × Table)} {a : α}
    (hx : Runs x ((tb.imageOver left).on t l) (.ok a) ((tb.imageOver left).on t l))
    (hf : Refines (f a) t left l tb r) : Refines (x >>= f) t left l tb r := by
  cases hf with
  | done h => exact .done (hx.bind h)
  | failed h => exact .failed (hx.bind h)

/-- A program that begins with a check fails with the check, or goes on with its result. -/
theorem check {r : Except Error α} {g : α → Except Error (β × Table)}
    (hx : Runs x ((tb.imageOver left).on t l) r ((tb.imageOver left).on t l))
    (hf : ∀ a, r = .ok a → Refines (f a) t left l tb (g a)) :
    Refines (x >>= f) t left l tb (r >>= g) := by
  cases r with
  | error e => exact .failed (Runs.bind_error hx)
  | ok a => exact look hx (hf a rfl)

/-- A result may be turned into another one at the end. -/
theorem map {r : Except Error (α × Table)} (h : Refines x t left l tb r) (g : α → β) :
    Refines (x >>= fun a => pure (g a)) t left l tb (r >>= fun out => pure (g out.1, out.2)) := by
  cases h with
  | done h => exact .done (h.bind (Runs.ret (g _)))
  | failed h => exact .failed (Runs.bind_error h)

/-- A program succeeds where the function does. -/
theorem exists_exec {a : α} {tb' : Table} {s : Store} (h : Refines x t left l tb (.ok (a, tb')))
    (hs : s.Holds ((tb.imageOver left).on t l)) : ∃ s', x.exec ⟨s, none⟩ = (.ok a, ⟨s', none⟩) ∧
      s'.Holds ((tb'.imageOver left).on t l) := by
  cases h with
  | done h => exact h s hs

/-- A program that has succeeded has made of the keys what the function makes of the table. -/
theorem exec_ok {r : Except Error (α × Table)} {a : α} {s s' : Store} (h : Refines x t left l tb r)
    (hs : s.Holds ((tb.imageOver left).on t l)) (hok : x.exec ⟨s, none⟩ = (.ok a, ⟨s', none⟩)) :
    ∃ tb', r = .ok (a, tb') ∧ s'.Holds ((tb'.imageOver left).on t l) := by
  cases h with
  | failed h =>
      rw [h.exec_eq hs] at hok
      cases hok
  | @done a₁ tb' h =>
      obtain ⟨s₁, hexec, hs₁⟩ := h s hs
      rw [hexec] at hok
      cases hok
      exact ⟨tb', rfl, hs₁⟩

/-- Two programs that do what one function does do the same to the store. -/
theorem exec_congr {y : StoreM α} {r : Except Error (α × Table)} {s : Store}
    (hx : Refines x t left l tb r) (hy : Refines y t left l tb r)
    (hs : s.Holds ((tb.imageOver left).on t l)) : x.exec ⟨s, none⟩ = y.exec ⟨s, none⟩ := by
  cases hx with
  | done hx =>
      cases hy with
      | done hy => exact hx.exec_congr hy hs
  | failed hx =>
      cases hy with
      | failed hy => exact hx.exec_congr hy hs

end Refines

end StoreM

end Tabular
