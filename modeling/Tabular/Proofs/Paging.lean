import Mathlib
import Tabular.Proofs.Walk

/-!
Walks page by page. Over a store that stays as it is, the number of pages follows from the number
of keys and the page size alone, and the pages together give the matching keys in the order of
their bytes (`Walk.Whole`). A walk may also find another store on every page (`Walk.Reads`): what it
has passed it never comes back to, and what lies ahead of it is either given by the next page or
still ahead afterwards (`Store.mem_scan`, `Store.ahead_scan`), so that no key is given twice and
none that stays is left out.
-/

namespace Tabular

open Glob (matchesKey utf8_eq_flatMap)

/-! ### The order of bytes -/

namespace Text

theorem ofNat_lt_ofNat {m n : Nat} (hm : m < 256) (hn : n < 256) :
    UInt8.ofNat m < UInt8.ofNat n ↔ m < n := by
  rw [UInt8.lt_iff_toNat_lt, UInt8.toNat_ofNat', UInt8.toNat_ofNat', Nat.mod_eq_of_lt hm,
    Nat.mod_eq_of_lt hn]

theorem ofNat_eq_ofNat {m n : Nat} (hm : m < 256) (hn : n < 256) :
    UInt8.ofNat m = UInt8.ofNat n ↔ m = n := by
  rw [← UInt8.toNat_inj, UInt8.toNat_ofNat', UInt8.toNat_ofNat', Nat.mod_eq_of_lt hm,
    Nat.mod_eq_of_lt hn]

/-- Numbers are in the order of their digits to base 64. -/
theorem digits_lt {m n : Nat} (hlt : m < n) (hn : n < 0x200000) :
    m / 262144 % 8 < n / 262144 % 8 ∨ m / 262144 % 8 = n / 262144 % 8 ∧
      (m / 4096 % 64 < n / 4096 % 64 ∨ m / 4096 % 64 = n / 4096 % 64 ∧
        (m / 64 % 64 < n / 64 % 64 ∨ m / 64 % 64 = n / 64 % 64 ∧ m % 64 < n % 64)) := by
  have hdigits (k : Nat) (hk : k < 0x200000) :
      k = 262144 * (k / 262144 % 8) + 4096 * (k / 4096 % 64) + 64 * (k / 64 % 64) + k % 64 := by
    omega
  have hm := hdigits m (by omega)
  have hn := hdigits n hn
  omega

/-- The encoding of a greater character is greater, whatever follows the two. -/
theorem utf8EncodeChar_append_lt {c d : Char} (h : c < d) (u v : List UInt8) :
    String.utf8EncodeChar c ++ u < String.utf8EncodeChar d ++ v := by
  have hlt : c.val.toNat < d.val.toNat := h
  have hvalid : d.val.toNat < 0x110000 := by
    rcases d.valid with h | ⟨-, h⟩ <;> omega
  have hdigits := digits_lt hlt (by omega)
  unfold String.utf8EncodeChar
  generalize c.val.toNat = m at *
  generalize d.val.toNat = n at *
  dsimp only
  -- more bytes have a greater first one, and equally many are in the order of the digits
  by_cases huv : u < v <;> split_ifs <;>
    simp (disch := omega) only [List.cons_append, List.nil_append, List.cons_lt_cons_iff,
      ofNat_lt_ofNat, ofNat_eq_ofNat, Nat.add_right_cancel_iff, huv, and_true, and_false,
      or_false] <;>
    omega

/-- Texts are in the order of their encodings. -/
theorem utf8_lt_of_lt {s t : String} (h : s < t) : utf8 s < utf8 t := by
  rw [utf8_eq_flatMap, utf8_eq_flatMap]
  have hchars : List.Lex (· < ·) s.toList t.toList := h
  generalize s.toList = cs at hchars
  generalize t.toList = ds at hchars
  induction hchars with
  | @nil c cs =>
      rw [List.flatMap_nil, List.flatMap_cons]
      obtain ⟨b, bytes, hbytes⟩ := List.exists_cons_of_ne_nil (@String.utf8EncodeChar_ne_nil c)
      rw [hbytes]
      exact List.nil_lt_cons ..
  | rel hlt => exact utf8EncodeChar_append_lt hlt _ _
  | cons _ ih =>
      rw [List.flatMap_cons, List.flatMap_cons]
      exact List.append_left_lt ih

end Text

/-! ### A store that stays as it is -/

namespace Walk

/-- What a walk of given pages answers: the keys of each page, and the place reached after it. -/
def answers (pages : List (List String × Cursor)) : List (Except Error (List String) × Cursor) :=
  pages.map fun page => (.ok page.1, page.2)

theorem run_pages_done (n : Nat) (pattern : String) (size : Nat) (σ : Session) :
    (pages n ⟨pattern, size, .done⟩).run σ = ([], σ) := by
  cases n <;> rfl

theorem run_pages_succ {walk : Walk} (h : walk.cursor ≠ .done) (n : Nat) (s : Store) :
    (pages (n + 1) walk).run ⟨s, none⟩ =
      let page := s.scan walk.cursor walk.pattern walk.pageSize
      let rest := (pages n { walk with cursor := page.cursor }).run ⟨s, none⟩
      ((.ok page.keys, page.cursor) :: rest.1, rest.2) := by
  rw [pages, if_neg h]
  rfl

/-- The pages that a walk gives from a place on to its end. -/
structure Whole (s : Store) (pattern : String) (size : Nat) (cursor : Cursor)
    (found : List (List String × Cursor)) : Prop where
  run {n : Nat} (hn : found.length ≤ n) :
    (pages n ⟨pattern, size, cursor⟩).run ⟨s, none⟩ = (answers found, ⟨s, none⟩)
  /-- Every page but the last visits `size` keys. -/
  length : found.length = (s.keysFrom cursor).length / size + 1
  ends : ∃ keys, found.getLast? = some (keys, .done)
  keys : found.flatMap (·.1) = (s.keysFrom cursor).filter (matchesKey pattern)

section
variable {s : Store} {pattern : String} {size : Nat} {cursor : Cursor}

/-- The page that visits fewer keys than it may is the only one left. -/
theorem Whole.short (hcursor : cursor ≠ .done) (h : (s.keysFrom cursor).length < size) :
    Whole s pattern size cursor [((s.keysFrom cursor).filter (matchesKey pattern), .done)] where
  run {n} hn := by
    obtain ⟨n, rfl⟩ := Nat.exists_eq_add_of_le' hn
    have hpage := s.scan_short pattern (Nat.lt_of_lt_of_le h (Nat.le_max_left size 1))
    rw [List.length_singleton, run_pages_succ hcursor, hpage]
    dsimp only
    rw [run_pages_done]
    rfl
  length := by rw [Nat.div_eq_of_lt h, List.length_singleton]
  ends := ⟨_, rfl⟩
  keys := List.append_nil _

/-- A full page comes before those of the keys that it leaves. -/
theorem Whole.full (hsize : 1 ≤ size) (hcursor : cursor ≠ .done)
    (h : size ≤ (s.keysFrom cursor).length) {last : String} {found : List (List String × Cursor)}
    (hpage : s.scan cursor pattern size =
      ⟨((s.keysFrom cursor).take size).filter (matchesKey pattern), .after last⟩)
    (hrest : s.keysFrom (.after last) = (s.keysFrom cursor).drop size)
    (hfound : Whole s pattern size (.after last) found) :
    Whole s pattern size cursor
      ((((s.keysFrom cursor).take size).filter (matchesKey pattern), .after last) :: found) where
  run {n} hn := by
    obtain ⟨n, rfl⟩ := Nat.exists_eq_add_of_le' hn
    rw [List.length_cons, ← Nat.add_assoc, run_pages_succ hcursor, hpage]
    dsimp only
    rw [hfound.run (Nat.le_add_left ..)]
    rfl
  length := by
    rw [List.length_cons, hfound.length, hrest, List.length_drop,
      Nat.div_eq_sub_div hsize h]
  ends := by
    obtain ⟨keys, hkeys⟩ := hfound.ends
    exact ⟨keys, by rw [List.getLast?_cons, hkeys, Option.getD_some]⟩
  keys := by
    rw [List.flatMap_cons, hfound.keys, hrest, ← List.filter_append, List.take_append_drop]

/-- Over a store that stays as it is every walk comes to its end. -/
theorem exists_whole (hsize : 1 ≤ size) (cursor : Cursor) (hcursor : cursor ≠ .done) :
    ∃ found, Whole s pattern size cursor found := by
  obtain hshort | hfull := Nat.lt_or_ge (s.keysFrom cursor).length size
  · exact ⟨_, Whole.short hcursor hshort⟩
  · have hmax : max size 1 = size := Nat.max_eq_left hsize
    obtain ⟨last, -, hpage, hrest⟩ := s.scan_full pattern (hmax.symm ▸ hfull)
    rw [hmax] at hpage hrest
    have hfewer : (s.keysFrom (.after last)).length < (s.keysFrom cursor).length := by
      rw [hrest, List.length_drop]
      omega
    obtain ⟨found, hfound⟩ := exists_whole hsize (.after last) Cursor.noConfusion
    exact ⟨_, Whole.full hsize hcursor hfull hpage hrest hfound⟩
termination_by (s.keysFrom cursor).length

end

end Walk

/-! ### A store that changes -/

/-- The keys that a place has before it. -/
def Cursor.Ahead : Cursor → String → Prop
  | start, _ => True
  | after last, key => last < key
  | done, _ => False

theorem Cursor.ahead_trans {cursor : Cursor} {a b : String} (h : cursor.Ahead a) (hab : a < b) :
    cursor.Ahead b := by
  cases cursor with
  | start => trivial
  | after last => exact LinearKey.trans h hab
  | done => exact h

namespace Store

variable {s : Store} {cursor : Cursor} {pattern key : String} {count : Nat}

theorem mem_keysFrom : key ∈ s.keysFrom cursor ↔ key ∈ s ∧ cursor.Ahead key := by
  cases cursor with
  | start => simp [keysFrom, Cursor.Ahead, OrderedMap.mem_keys]
  | after last => simp [keysFrom, Cursor.Ahead, OrderedMap.mem_keys]
  | done => simp [keysFrom, Cursor.Ahead]

theorem nodup_keysFrom (s : Store) (cursor : Cursor) : (s.keysFrom cursor).Nodup :=
  s.nodup_keys.sublist (s.keysFrom_suffix cursor).sublist

theorem nodup_scan : (s.scan cursor pattern count).keys.Nodup :=
  ((s.nodup_keysFrom cursor).sublist (List.take_sublist ..)).filter _

/-- A page gives keys of the store that match, and passes them. -/
theorem mem_scan (h : key ∈ (s.scan cursor pattern count).keys) :
    key ∈ s ∧ matchesKey pattern key = true ∧ cursor.Ahead key ∧
      ¬ (s.scan cursor pattern count).cursor.Ahead key := by
  obtain hshort | hfull := Nat.lt_or_ge (s.keysFrom cursor).length (max count 1)
  · rw [s.scan_short pattern hshort] at h ⊢
    obtain ⟨hkey, hmatch⟩ := List.mem_filter.mp h
    obtain ⟨hmem, hahead⟩ := mem_keysFrom.mp hkey
    exact ⟨hmem, hmatch, hahead, id⟩
  · obtain ⟨last, -, hpage, hrest⟩ := s.scan_full pattern hfull
    rw [hpage] at h ⊢
    obtain ⟨htake, hmatch⟩ := List.mem_filter.mp h
    obtain ⟨hmem, hahead⟩ := mem_keysFrom.mp (List.mem_of_mem_take htake)
    refine ⟨hmem, hmatch, hahead, fun hlast => ?_⟩
    have hdrop : key ∈ s.keysFrom (.after last) := mem_keysFrom.mpr ⟨hmem, hlast⟩
    rw [hrest] at hdrop
    have hnodup := s.nodup_keysFrom cursor
    rw [← List.take_append_drop (max count 1) (s.keysFrom cursor)] at hnodup
    exact (List.nodup_append.mp hnodup).2.2 key htake key hdrop rfl

/-- A matching key ahead of a page is given by it or is ahead of the next one. -/
theorem ahead_scan (hmem : key ∈ s) (hmatch : matchesKey pattern key = true)
    (hahead : cursor.Ahead key) : key ∈ (s.scan cursor pattern count).keys ∨
      (s.scan cursor pattern count).cursor.Ahead key := by
  have hfrom := (s.scan_keys cursor pattern count).1
  have hkey : key ∈ (s.keysFrom cursor).filter (matchesKey pattern) :=
    List.mem_filter.mpr ⟨mem_keysFrom.mpr ⟨hmem, hahead⟩, hmatch⟩
  rw [← hfrom, List.mem_append] at hkey
  exact hkey.imp_right fun hrest => (mem_keysFrom.mp (List.mem_filter.mp hrest).1).2

/-- Nothing ahead of the next page was passed before. -/
theorem ahead_of_scan (h : (s.scan cursor pattern count).cursor.Ahead key) : cursor.Ahead key := by
  obtain hshort | hfull := Nat.lt_or_ge (s.keysFrom cursor).length (max count 1)
  · rw [s.scan_short pattern hshort] at h
    exact h.elim
  · obtain ⟨last, hlast, hpage, -⟩ := s.scan_full pattern hfull
    rw [hpage] at h
    exact Cursor.ahead_trans (mem_keysFrom.mp hlast).2 h

end Store

namespace Walk

/-- The pages of a walk from one place on to another: each as it gave its keys, and the store it
read. Between two pages the store may have become any other. -/
inductive Reads : Walk → List (Store × List String) → Walk → Prop
  | nil (walk : Walk) : Reads walk [] walk
  | cons {walk next last : Walk} {s : Store} {keys : List String}
      {pages : List (Store × List String)} (hopen : walk.cursor ≠ .done)
      (hpage : walk.next.exec ⟨s, none⟩ = (.ok (keys, next), ⟨s, none⟩))
      (h : Reads next pages last) : Reads walk ((s, keys) :: pages) last

/-- What the pages of a walk have in common with the stores they read. -/
structure Covers (pattern : String) (pages : List (Store × List String)) (last : Walk) : Prop where
  /-- No key is given twice. -/
  nodup : (pages.flatMap (·.2)).Nodup
  /-- A key that is given matches, and was there when its page was read. -/
  sound : ∀ page ∈ pages, ∀ key ∈ page.2, key ∈ page.1 ∧ matchesKey pattern key = true
  /-- When the walk has ended, every matching key that was there all the time has been given. -/
  complete : last.cursor = .done → ∀ key, matchesKey pattern key = true →
    (∀ page ∈ pages, key ∈ page.1) → ∃ page ∈ pages, key ∈ page.2

/-- The same from any place on. Besides, a walk does not come back to what it has passed. -/
structure CoversFrom (walk : Walk) (pages : List (Store × List String)) (last : Walk) : Prop where
  nodup : (pages.flatMap (·.2)).Nodup
  sound : ∀ page ∈ pages, ∀ key ∈ page.2,
    key ∈ page.1 ∧ matchesKey walk.pattern key = true ∧ walk.cursor.Ahead key
  complete : last.cursor = .done → ∀ key, matchesKey walk.pattern key = true →
    walk.cursor.Ahead key → (∀ page ∈ pages, key ∈ page.1) → ∃ page ∈ pages, key ∈ page.2

theorem CoversFrom.nil (walk : Walk) : CoversFrom walk [] walk where
  nodup := List.nodup_nil
  sound := nofun
  complete hdone key _ hahead _ := by
    rw [hdone] at hahead
    exact hahead.elim

theorem CoversFrom.cons {walk next last : Walk} {s : Store} {keys : List String}
    {pages : List (Store × List String)}
    (hpage : walk.next.exec ⟨s, none⟩ = (.ok (keys, next), ⟨s, none⟩))
    (h : CoversFrom next pages last) : CoversFrom walk ((s, keys) :: pages) last := by
  rw [exec_next] at hpage
  obtain ⟨rfl, rfl⟩ := Prod.mk.inj (Except.ok.inj (Prod.mk.inj hpage).1)
  constructor
  case nodup =>
    -- what later pages give is ahead of the first one, which has passed what it gives
    rw [List.flatMap_cons]
    refine List.nodup_append.mpr ⟨Store.nodup_scan, h.nodup, ?_⟩
    rintro key hkey _ hlater rfl
    obtain ⟨page, hpage, hlater⟩ := List.mem_flatMap.mp hlater
    exact (Store.mem_scan hkey).2.2.2 (h.sound page hpage key hlater).2.2
  case sound =>
    intro page hpage key hkey
    obtain rfl | hpage := List.mem_cons.mp hpage
    · obtain ⟨hmem, hmatch, hahead, -⟩ := Store.mem_scan hkey
      exact ⟨hmem, hmatch, hahead⟩
    · obtain ⟨hmem, hmatch, hahead⟩ := h.sound page hpage key hkey
      have hnext : (s.scan walk.cursor walk.pattern walk.pageSize).cursor.Ahead key := hahead
      exact ⟨hmem, hmatch, Store.ahead_of_scan hnext⟩
  case complete =>
    intro hdone key hmatch hahead hall
    obtain ⟨hhere, hlater⟩ := List.forall_mem_cons.mp hall
    obtain hgiven | hahead := Store.ahead_scan hhere hmatch hahead
    · exact ⟨_, List.mem_cons_self .., hgiven⟩
    · obtain ⟨page, hpage, hkey⟩ := h.complete hdone key hmatch hahead hlater
      exact ⟨page, List.mem_cons_of_mem _ hpage, hkey⟩

theorem Reads.coversFrom {walk last : Walk} {pages : List (Store × List String)}
    (h : walk.Reads pages last) : CoversFrom walk pages last := by
  induction h with
  | nil walk => exact CoversFrom.nil walk
  | cons _ hpage _ ih => exact CoversFrom.cons hpage ih

/-- At its beginning a walk has every key ahead. -/
theorem Reads.covers {pattern : String} {pageSize : Nat} {last : Walk}
    {pages : List (Store × List String)} (h : (begin pattern pageSize).Reads pages last) :
    Covers pattern pages last where
  nodup := h.coversFrom.nodup
  sound page hpage key hkey :=
    have hsound := h.coversFrom.sound page hpage key hkey
    ⟨hsound.1, hsound.2.1⟩
  complete hdone key hmatch := h.coversFrom.complete hdone key hmatch trivial

/-- What walks with pages of a given size make of a store in which certain keys match. -/
structure Exact (s : Store) (pattern : String) (keys : List String) (pageSize : Nat) : Prop where
  /-- A walk to the end gives these keys in order. It takes one page for every `pageSize` keys of the
  store, or for every key if that is zero, and one more. -/
  walked : ∃ found : List (List String × Cursor),
    (∀ n ≥ found.length,
      (pages n (begin pattern pageSize)).run ⟨s, none⟩ = (answers found, ⟨s, none⟩)) ∧
    found.length = s.size / max pageSize 1 + 1 ∧
    (∃ last, found.getLast? = some (last, .done)) ∧ found.flatMap (·.1) = keys
  gathered : (StoreM.matchingKeys pattern pageSize).exec ⟨s, none⟩ = (.ok keys, ⟨s, none⟩)
  deleted : ∃ s', (StoreM.delMatching pattern pageSize).exec ⟨s, none⟩ =
      (.ok keys.length, ⟨s', none⟩) ∧
    ∀ key, s'.get? key = if key ∈ keys then none else s.get? key

theorem exact_matching (s : Store) (pattern : String) (pageSize : Nat) :
    Exact s pattern (s.keys.filter (matchesKey pattern)) pageSize where
  walked := by
    have hsize : 1 ≤ max pageSize 1 := Nat.le_max_right pageSize 1
    obtain ⟨found, hfound⟩ : ∃ found, Whole s pattern (max pageSize 1) .start found :=
      exists_whole hsize .start Cursor.noConfusion
    refine ⟨found, fun n hn => hfound.run hn, ?_, hfound.ends, hfound.keys⟩
    rw [hfound.length, Store.keysFrom, OrderedMap.length_keys]
  gathered := StoreM.exec_matchingKeys pattern pageSize s
  deleted := by
    refine ⟨_, StoreM.exec_delMatching pattern pageSize s, fun key => ?_⟩
    simp only [OrderedMap.get?_filter, List.mem_filter, OrderedMap.mem_keys]
    by_cases hkey : key ∈ s
    · cases matchesKey pattern key <;> simp [hkey]
    · rw [OrderedMap.get?_eq_none_iff.mpr hkey, ite_self, ite_self]

/-- A walk over a store that stays as it is gives exactly the matching keys, in the order of their
bytes and whatever the size of its pages. However the store changes between the pages, no key is
given twice, a key that is given was there, and a matching key that stays is given. -/
theorem exact_and_covers (pattern : String) :
    (∀ s : Store, ∃ keys : List String,
      keys.Pairwise (fun a b => Text.utf8 a < Text.utf8 b) ∧
      (∀ key, key ∈ keys ↔ key ∈ s ∧ matchesKey pattern key = true) ∧
      ∀ pageSize, Exact s pattern keys pageSize) ∧
    ∀ pageSize pages last, (begin pattern pageSize).Reads pages last →
      Covers pattern pages last := by
  refine ⟨fun s => ⟨s.keys.filter (matchesKey pattern), ?_, fun key => ?_, fun pageSize => ?_⟩,
    fun pageSize pages last h => h.covers⟩
  · exact (s.keys_pairwise.filter _).imp Text.utf8_lt_of_lt
  · rw [List.mem_filter, OrderedMap.mem_keys]
  · exact exact_matching s pattern pageSize

/-- A store before, between and after changes that are made while it is walked. -/
def sampleStores : List Store :=
  [["k1", "k3"], ["k2", "k3"], ["k0", "k2", "k3"], ["k0", "k2"]].map fun keys =>
    OrderedMap.ofList (keys.map (·, .text ""))

def samplePages : List (Store × List String) := sampleStores.zip [["k1"], ["k2"], ["k3"], []]

theorem sample_reads : (begin "k*" 0).Reads samplePages ⟨"k*", 1, .done⟩ := by
  have last : Reads ⟨"k*", 1, .after "k3"⟩ (samplePages.drop 3) ⟨"k*", 1, .done⟩ :=
    .cons (by decide) (by cbv) (.nil _)
  have third : Reads ⟨"k*", 1, .after "k2"⟩ (samplePages.drop 2) ⟨"k*", 1, .done⟩ :=
    .cons (by decide) (by cbv) last
  have second : Reads ⟨"k*", 1, .after "k1"⟩ (samplePages.drop 1) ⟨"k*", 1, .done⟩ :=
    .cons (by decide) (by cbv) third
  exact .cons (by decide) (by cbv) second

theorem sample_covers : (begin "k*" 0).Reads samplePages ⟨"k*", 1, .done⟩ ∧
    Covers "k*" samplePages ⟨"k*", 1, .done⟩ :=
  ⟨sample_reads, (exact_and_covers "k*").2 0 samplePages _ sample_reads⟩

end Walk

end Tabular
