import Tabular.Error
import Tabular.Proofs.Numeral
import Tabular.Table.Key

/-!
No two keys share a text. The keys of a table begin with its name in braces, so the first closing
brace ends the name; what follows is one of five forms, told apart by their first word and by
whether that word is a number. `text_injective` says this for proper keys: names as commands write
them, without a closing brace where they stand as a tag, and columns without a colon.
-/

namespace Tabular

open Text (cutAt cutAt_eq_some_iff)

/-- What a cut at the first `c` gives does not depend on what stands behind it. -/
theorem Text.append_cons_inj {c : Char} {before before' after after' : List Char}
    (h : c ∉ before) (h' : c ∉ before') (heq : before ++ c :: after = before' ++ c :: after') :
    before = before' ∧ after = after' := by
  have hcut : cutAt c (before ++ c :: after) = some (before, after) :=
    cutAt_eq_some_iff.mpr ⟨h, rfl⟩
  rw [heq, cutAt_eq_some_iff.mpr ⟨h', rfl⟩] at hcut
  simp only [Option.some.injEq, Prod.mk.injEq] at hcut
  exact ⟨hcut.1.symm, hcut.2.symm⟩

/-- A name that a text may write out: it can be cut at its first dot. -/
def TableName.Proper (t : TableName) : Prop :=
  '.' ∉ t.ns.toList ∧ t.ns ≠ "" ∧ t.table ≠ ""

/-- A proper name that may stand in braces. -/
def TableName.Tagged (t : TableName) : Prop := t.Proper ∧ '\x7d' ∉ t.full.toList

/-- The proper names are those that are read as themselves. -/
theorem TableName.ofText?_full_iff {t : TableName} : ofText? t.full = some t ↔ t.Proper := by
  rw [ofText?_eq_some_iff, Proper, and_iff_left (rfl : t.full = t.full)]

theorem TableName.full_injective {t t' : TableName} (h : t.Proper) (h' : t'.Proper)
    (heq : t.full = t'.full) : t = t' := by
  have ht := ofText?_full_iff.mpr h
  rw [heq, ofText?_full_iff.mpr h'] at ht
  exact (Option.some.inj ht).symm

/-- The text that all index keys of a column begin with. -/
def TableName.indexStem (t : TableName) (column : String) : String :=
  braced t.full ++ ":idx:" ++ column ++ ":"

/-- Names that pass the check have no brace. -/
theorem TableName.notMem_of_check {t : TableName} (h : t.check = .ok ()) :
    '\x7d' ∉ t.full.toList := by
  have hpart {s : String} (hs : nameFault? s = none) : '\x7d' ∉ s.toList := by
    intro hmem
    unfold nameFault? at hs
    split at hs
    · cases hs
    · rw [if_pos] at hs
      · cases hs
      · exact List.any_eq_true.mpr ⟨'\x7d', hmem, by decide⟩
  have hfault : t.fault? = none := by
    unfold check at h
    cases hf : t.fault? with
    | none => rfl
    | some fault =>
        rw [hf] at h
        cases h
  unfold fault? at hfault
  simp only [Option.orElse_eq_orElse, Option.orElse_eq_or, Option.or_eq_none_iff,
    Option.map_eq_none_iff] at hfault
  have hns := hpart hfault.1
  have htable := hpart hfault.2
  simp [full, hns, htable]

theorem TableName.dot_mem_full (t : TableName) : '.' ∈ t.full.toList := by simp [full]

namespace Key

/-- The table that a key belongs to. -/
def table? : Key → Option TableName
  | marker _ => none
  | schema t | indexed t | counter t | rows t | row t _ | index t _ _ => some t

/-- The table whose name in braces a key begins with. -/
def tag? : Key → Option TableName
  | marker _ | schema _ => none
  | indexed t | counter t | rows t | row t _ | index t _ _ => some t

theorem table?_of_tag? {k : Key} {t : TableName} (h : k.tag? = some t) : k.table? = some t := by
  cases k <;> first | exact h | cases h

/-- What follows the name in braces and a colon. -/
def localPart : Key → String
  | marker _ | schema _ => ""
  | indexed _ => "idx:meta"
  | counter _ => "id"
  | rows _ => "rows"
  | row _ id => toString id
  | index _ column value => "idx:" ++ column ++ ":" ++ value

/-- Keys that can be told from all others by their text. -/
def Proper : Key → Prop
  | marker ns => '.' ∉ ns.toList
  | schema t => t.Proper
  | indexed t | counter t | rows t | row t _ => t.Tagged
  | index t column _ => t.Tagged ∧ ':' ∉ column.toList

theorem Proper.tagged {k : Key} {t : TableName} (hk : k.Proper) (h : k.tag? = some t) :
    t.Tagged := by
  cases k <;> simp only [tag?, reduceCtorEq, Option.some.injEq] at h <;> subst h
  case index => exact hk.1
  all_goals exact hk

theorem toList_text_of_tag {k : Key} {t : TableName} (h : k.tag? = some t) :
    k.text.toList = '\x7b' :: (t.full.toList ++ '\x7d' :: ':' :: k.localPart.toList) := by
  cases k <;> simp only [tag?, reduceCtorEq, Option.some.injEq] at h <;> subst h <;>
    simp [text, braced, localPart]

/-- The first character of a number is none of `i` and `r`, which begin the other forms. -/
theorem toDigits_ne_cons {n : Nat} {c : Char} {cs : List Char} (hc : c.isDigit = false) :
    Nat.toDigits 10 n ≠ c :: cs := fun h => by
  have hmem : c ∈ Nat.toDigits 10 n := h ▸ List.mem_cons_self
  rw [Nat.isDigit_of_mem_toDigits (by decide) (by decide) hmem] at hc
  cases hc

theorem localPart_injective {k k' : Key} {t : TableName} (hk : k.Proper) (hk' : k'.Proper)
    (ht : k.tag? = some t) (ht' : k'.tag? = some t) (h : k.localPart = k'.localPart) : k = k' := by
  have hmeta (column value : String) :
      column.toList ++ ':' :: value.toList ≠ ['m', 'e', 't', 'a'] := fun heq => by
    have hmem : ':' ∈ column.toList ++ ':' :: value.toList := by simp
    rw [heq] at hmem
    simp at hmem
  have hi (n : Nat) (cs : List Char) : Nat.toDigits 10 n ≠ 'i' :: cs := toDigits_ne_cons rfl
  have hi' (n : Nat) (cs : List Char) : 'i' :: cs ≠ Nat.toDigits 10 n := (hi n cs).symm
  have hr (n : Nat) (cs : List Char) : Nat.toDigits 10 n ≠ 'r' :: cs := toDigits_ne_cons rfl
  have hr' (n : Nat) (cs : List Char) : 'r' :: cs ≠ Nat.toDigits 10 n := (hr n cs).symm
  have h := congrArg String.toList h
  cases k <;> simp only [tag?, reduceCtorEq, Option.some.injEq] at ht <;> subst ht <;>
    cases k' <;> simp only [tag?, reduceCtorEq, Option.some.injEq] at ht' <;> subst ht' <;>
    simp [localPart, hmeta, fun c v => (hmeta c v).symm, hi, hi', hr, hr'] at h
  case indexed.indexed => rfl
  case counter.counter => rfl
  case rows.rows => rfl
  case row.row => rw [Text.toDigits_inj (by decide) (by decide) h]
  case index.index =>
      obtain ⟨hcolumn, hvalue⟩ := Text.append_cons_inj hk.2 hk'.2 h
      rw [String.toList_inj.mp hcolumn, String.toList_inj.mp hvalue]

/-- The text between the braces of a marker or of a schema key. -/
theorem schemaText_inj {s s' : String} :
    "schema:" ++ braced s = "schema:" ++ braced s' ↔ s = s' := by
  simp [braced, ← String.toList_inj]

theorem toList_schemaText (s : String) :
    ("schema:" ++ braced s).toList = 's' :: ("chema:\x7b".toList ++ s.toList ++ ['\x7d']) := by
  simp [braced]

/-- A key with a tag begins with a brace, a marker and a schema key with a letter. -/
theorem text_ne_of_tag {k k' : Key} {t : TableName} (ht : k.tag? = some t) (ht' : k'.tag? = none) :
    k.text ≠ k'.text := by
  intro h
  have hlist := congrArg String.toList h
  rw [toList_text_of_tag ht] at hlist
  cases k' <;> simp only [tag?, reduceCtorEq] at ht' <;> rw [text, toList_schemaText] at hlist <;>
    simp at hlist

/-- A proper key is determined by its text. -/
theorem text_injective {k k' : Key} (hk : k.Proper) (hk' : k'.Proper) (h : k.text = k'.text) :
    k = k' := by
  cases ht : k.tag? with
  | none =>
      cases ht' : k'.tag? with
      | some t' => exact (text_ne_of_tag ht' ht h.symm).elim
      | none =>
          cases k <;> simp only [tag?, reduceCtorEq] at ht <;> cases k' <;>
            simp only [tag?, reduceCtorEq] at ht' <;> rw [text, text, schemaText_inj] at h
          case marker.marker => rw [h]
          case marker.schema ns t => exact (hk (h ▸ t.dot_mem_full)).elim
          case schema.marker t ns => exact (hk' (h ▸ t.dot_mem_full)).elim
          case schema.schema => rw [TableName.full_injective hk hk' h]
  | some t =>
      cases ht' : k'.tag? with
      | none => exact (text_ne_of_tag ht ht' h).elim
      | some t' =>
          have hlist := congrArg String.toList h
          rw [toList_text_of_tag ht, toList_text_of_tag ht', List.cons.injEq] at hlist
          obtain ⟨hfull, hlocal⟩ := Text.append_cons_inj (hk.tagged ht).2 (hk'.tagged ht').2 hlist.2
          obtain rfl := TableName.full_injective (hk.tagged ht).1 (hk'.tagged ht').1
            (String.toList_inj.mp hfull)
          exact localPart_injective hk hk' ht ht' (String.toList_inj.mp (List.cons.inj hlocal).2)

theorem text_inj {k k' : Key} (hk : k.Proper) (hk' : k'.Proper) : k.text = k'.text ↔ k = k' :=
  ⟨text_injective hk hk', congrArg text⟩

/-! ### What keys begin with -/

theorem toList_keyStem (t : TableName) :
    (braced t.full ++ ":").toList = '\x7b' :: (t.full.toList ++ '\x7d' :: [':']) := by
  simp [braced]

/-- The keys that begin with the name of a table in braces are the table's, its schema aside. -/
theorem keyStem_prefix_iff {t : TableName} {k : Key} (ht : t.Tagged) (hk : k.Proper) :
    (braced t.full ++ ":").toList <+: k.text.toList ↔ k.tag? = some t := by
  rw [toList_keyStem]
  constructor
  · rintro ⟨rest, hrest⟩
    cases htag : k.tag? with
    | none =>
        cases k <;> simp only [tag?, reduceCtorEq] at htag <;>
          rw [text, toList_schemaText] at hrest <;> simp at hrest
    | some t' =>
        rw [toList_text_of_tag htag, List.cons_append, List.cons.injEq, List.append_assoc,
          List.cons_append] at hrest
        have hfull := (Text.append_cons_inj ht.2 (hk.tagged htag).2 hrest.2).1
        rw [TableName.full_injective ht.1 (hk.tagged htag).1 (String.toList_inj.mp hfull)]
  · intro htag
    rw [toList_text_of_tag htag]
    exact ⟨k.localPart.toList, by simp⟩

/-- The keys that begin with the stem of a column are those of its index. -/
theorem indexStem_prefix_iff {t : TableName} {column : String} {k : Key} (ht : t.Tagged)
    (hcolumn : ':' ∉ column.toList) (hk : k.Proper) :
    (t.indexStem column).toList <+: k.text.toList ↔ ∃ value, k = .index t column value := by
  have hstem (rest : List Char) : (t.indexStem column).toList ++ rest =
      '\x7b' :: (t.full.toList ++ '\x7d' :: ':' :: ("idx:".toList ++ column.toList ++ ':' :: rest)) := by
    simp [TableName.indexStem, braced]
  constructor
  · rintro ⟨rest, hrest⟩
    -- such a key is the index key of the value that is left
    have hindex : (Key.index t column (String.ofList rest)).text.toList = k.text.toList := by
      rw [← hrest, hstem]
      simp [text, braced]
    have hproper : (Key.index t column (String.ofList rest)).Proper := ⟨ht, hcolumn⟩
    exact ⟨String.ofList rest, (text_injective hproper hk (String.toList_inj.mp hindex)).symm⟩
  · rintro ⟨value, rfl⟩
    refine ⟨value.toList, ?_⟩
    rw [hstem]
    simp [text, braced]

/-! ### Schema keys read back -/

theorem schemaTag?_eq_some_iff {key : String} {tag : List Char} :
    schemaTag? key = some tag ↔ key.toList = "schema:\x7b".toList ++ tag ++ ['\x7d'] := by
  unfold schemaTag?
  constructor
  · intro h
    simp only [] at h
    split at h
    · next hprefix =>
        obtain ⟨rest, hrest⟩ := List.isPrefixOf_iff_prefix.mp hprefix
        rw [← hrest, List.drop_left] at h
        split at h
        · next hlast =>
            obtain rfl := Option.some.inj h
            obtain ⟨tag, rfl⟩ := List.getLast?_eq_some_iff.mp hlast
            rw [← hrest, List.dropLast_concat, List.append_assoc]
        · cases h
    · cases h
  · intro h
    rw [h, List.append_assoc]
    simp

/-- A schema key gives back its table, and no other key gives any. -/
theorem schemaTable?_eq_some_iff {key : String} {t : TableName} :
    schemaTable? key = some t ↔ t.Proper ∧ key = (Key.schema t).text := by
  have htext : key = (Key.schema t).text ↔
      key.toList = "schema:\x7b".toList ++ t.full.toList ++ ['\x7d'] := by
    rw [← String.toList_inj, text]
    simp [braced]
  rw [schemaTable?, Option.bind_eq_bind, Option.bind_eq_some_iff, htext]
  constructor
  · rintro ⟨tag, htag, ht⟩
    obtain ⟨hns, hne, hne', heq⟩ := TableName.ofText?_eq_some_iff.mp ht
    rw [schemaTag?_eq_some_iff] at htag
    refine ⟨⟨hns, hne, hne'⟩, ?_⟩
    rw [htag, ← heq]
    exact congrArg ("schema:\x7b".toList ++ · ++ ['\x7d']) String.toList_ofList.symm
  · rintro ⟨hproper, heq⟩
    refine ⟨t.full.toList, schemaTag?_eq_some_iff.mpr heq, ?_⟩
    rw [String.ofList_toList]
    exact TableName.ofText?_full_iff.mpr hproper

end Key

end Tabular
