import Tabular.Proofs.KeyLayout
import Tabular.Proofs.Search

/-!
What the patterns of the key layout match. An escaped text matches itself only
(`matchesKey_denoted`), and with a final star the keys that begin with it (`matchesKey_star`), on
bytes as on characters, since the encoding of one text is a prefix of another's only if the text is.
-/

namespace Tabular.Glob

/-- A star alone matches every key. -/
theorem matches_only_star (key : List UInt8) : Matches [.star] key :=
  matches_star.mpr ⟨key.length, by rw [List.drop_length, matches_nil]⟩

/-- Literal bytes stand for themselves. -/
theorem takes_literals (bytes : List UInt8) : Takes (bytes.map .literal) bytes := by
  induction bytes with
  | nil => exact .nil
  | cons b bytes ih => exact .cons rfl ih

/-- Literal bytes match themselves, and the tokens behind them what is left of the key. -/
theorem matches_literals_append (bytes key : List UInt8) (ts : List Token) :
    Matches (bytes.map .literal ++ ts) key ↔ ∃ rest, key = bytes ++ rest ∧ Matches ts rest := by
  constructor
  · intro h
    induction bytes generalizing key with
    | nil => exact ⟨key, rfl, h⟩
    | cons b bytes ih =>
        rw [List.map_cons, List.cons_append] at h
        obtain ⟨c, tail, rfl, rfl, htail⟩ := (matches_one (by simp)).mp h
        obtain ⟨rest, rfl, hrest⟩ := ih tail htail
        exact ⟨rest, rfl, hrest⟩
  · rintro ⟨rest, rfl, hrest⟩
    exact (takes_literals bytes).matches_append.mpr hrest

/-- Literal bytes match themselves only. -/
theorem matches_literals (bytes key : List UInt8) :
    Matches (bytes.map .literal) key ↔ key = bytes := by
  have h := matches_literals_append bytes key []
  simpa only [List.append_nil, matches_nil, exists_eq_right] using h

/-- Literal bytes and a star match what begins with these bytes. -/
theorem matches_literals_star (bytes key : List UInt8) :
    Matches (bytes.map .literal ++ [.star]) key ↔ bytes <+: key := by
  rw [matches_literals_append]
  constructor
  · rintro ⟨rest, rfl, -⟩
    exact List.prefix_append bytes rest
  · rintro ⟨rest, rfl⟩
    exact ⟨rest, rfl, matches_only_star rest⟩

/-! ### Escaped texts -/

/-- A byte that stands for itself in a pattern. -/
def IsPlain (b : UInt8) : Prop := b ≠ 0x2a ∧ b ≠ 0x3f ∧ b ≠ 0x5c ∧ b ≠ 0x5b

theorem tokens_plain {b : UInt8} (h : IsPlain b) (rest : List UInt8) :
    tokens (b :: rest) = .literal b :: tokens rest := by
  obtain ⟨hstar, hany, hescape, hclass⟩ := h
  exact tokens_literal hstar hany (fun hb => (hescape hb).elim) hclass

theorem tokens_append_plain {bytes : List UInt8} (h : ∀ b ∈ bytes, IsPlain b) (rest : List UInt8) :
    tokens (bytes ++ rest) = bytes.map .literal ++ tokens rest := by
  induction bytes with
  | nil => rfl
  | cons b bytes ih =>
      obtain ⟨hb, hbytes⟩ := List.forall_mem_cons.mp h
      rw [List.cons_append, tokens_plain hb, ih hbytes, List.map_cons, List.cons_append]

theorem utf8_eq_flatMap (s : String) : Text.utf8 s = s.toList.flatMap String.utf8EncodeChar := by
  rw [Text.utf8, ← String.utf8Encode_toList, List.utf8Encode, List.data_toByteArray]

/-- One text is a prefix of another if its encoding is. -/
theorem utf8_prefix_iff {s t : String} : Text.utf8 s <+: Text.utf8 t ↔ s.toList <+: t.toList := by
  rw [utf8_eq_flatMap, utf8_eq_flatMap]
  constructor
  · rintro ⟨rest, hrest⟩
    apply List.isPrefix_of_utf8Encode_append_eq_utf8Encode rest.toByteArray
    rw [List.utf8Encode, List.utf8Encode, ← hrest, List.toByteArray_append]
  · rintro ⟨rest, hrest⟩
    rw [← hrest, List.flatMap_append]
    exact List.prefix_append ..

/-- The characters that a pattern must escape. -/
def special : List Char := ['*', '?', '[', ']', '\\']

theorem isPlain_of_toNat {b : UInt8}
    (h : b.toNat ≠ 0x2a ∧ b.toNat ≠ 0x3f ∧ b.toNat ≠ 0x5c ∧ b.toNat ≠ 0x5b) : IsPlain b := by
  obtain ⟨hstar, hany, hescape, hclass⟩ := h
  refine ⟨?_, ?_, ?_, ?_⟩ <;> rintro rfl <;> contradiction

theorem isPlain_of_mem_utf8EncodeChar {c : Char} (hc : c ∉ special) {b : UInt8}
    (hb : b ∈ String.utf8EncodeChar c) : IsPlain b := by
  have hne (d : Char) (hd : d ∈ special) : c.val.toNat ≠ d.val.toNat := fun heq =>
    hc ((Char.ext (UInt32.toNat_inj.mp heq) : c = d) ▸ hd)
  have hstar := hne '*' (by decide)
  have hany := hne '?' (by decide)
  have hescape := hne '\\' (by decide)
  have hclass := hne '[' (by decide)
  simp only [Char.reduceVal, UInt32.reduceToNat] at hstar hany hescape hclass
  apply isPlain_of_toNat
  simp only [String.utf8EncodeChar] at hb
  -- beyond ASCII all bytes have their highest bit set
  split at hb
  · simp only [List.mem_singleton] at hb
    subst hb
    simp only [UInt8.toNat_ofNat']
    omega
  · split at hb
    · simp only [List.mem_cons, List.not_mem_nil, or_false] at hb
      rcases hb with rfl | rfl <;> simp only [UInt8.toNat_ofNat'] <;> omega
    · split at hb <;> simp only [List.mem_cons, List.not_mem_nil, or_false] at hb
      · rcases hb with rfl | rfl | rfl <;> simp only [UInt8.toNat_ofNat'] <;> omega
      · rcases hb with rfl | rfl | rfl | rfl <;> simp only [UInt8.toNat_ofNat'] <;> omega

/-- An escaped character is read as the bytes it is encoded by. -/
theorem tokens_escaped {c : Char} (hc : c ∈ special) (rest : List UInt8) :
    tokens (String.utf8EncodeChar '\\' ++ (String.utf8EncodeChar c ++ rest)) =
      (String.utf8EncodeChar c).map .literal ++ tokens rest := by
  simp only [special, List.mem_cons, List.not_mem_nil, or_false] at hc
  rcases hc with rfl | rfl | rfl | rfl | rfl <;> exact tokens.eq_4 ..

theorem escape_eq (s : String) : (escape s).toList =
    s.toList.flatMap fun c => if c ∈ special then ['\\', c] else [c] := by
  rw [escape, String.toList_ofList]
  rfl

theorem utf8_append (s t : String) : Text.utf8 (s ++ t) = Text.utf8 s ++ Text.utf8 t := by
  simp [utf8_eq_flatMap]

/-- A part of a pattern that is read as the bytes of a text, whatever comes after it. -/
def Denotes (part text : String) : Prop :=
  ∀ rest, tokens (Text.utf8 part ++ rest) = (Text.utf8 text).map .literal ++ tokens rest

theorem Denotes.append {part part' text text' : String} (h : Denotes part text)
    (h' : Denotes part' text') : Denotes (part ++ part') (text ++ text') := by
  intro rest
  rw [utf8_append, List.append_assoc, h, h', utf8_append, List.map_append, List.append_assoc]

/-- An escaped text is read as itself. -/
theorem denotes_escape (s : String) : Denotes (escape s) s := by
  intro rest
  rw [utf8_eq_flatMap, utf8_eq_flatMap, escape_eq]
  induction s.toList with
  | nil => rfl
  | cons c cs ih =>
      simp only [List.flatMap_cons, List.flatMap_append, List.map_append, List.append_assoc]
      by_cases hc : c ∈ special
      · rw [if_pos hc, ← ih, ← tokens_escaped hc]
        simp
      · rw [if_neg hc, ← ih, ← tokens_append_plain fun b => isPlain_of_mem_utf8EncodeChar hc]
        simp

/-- A text without special characters is read as itself. -/
theorem denotes_plain {s : String} (h : s.toList.all (· ∉ special) = true) : Denotes s s := by
  intro rest
  apply tokens_append_plain
  intro b hb
  rw [utf8_eq_flatMap, List.mem_flatMap] at hb
  obtain ⟨c, hc, hb⟩ := hb
  have hplain : c ∉ special := of_decide_eq_true (List.all_eq_true.mp h c hc)
  exact isPlain_of_mem_utf8EncodeChar hplain hb

theorem utf8_inj {s t : String} : Text.utf8 s = Text.utf8 t ↔ s = t := by
  refine ⟨fun h => ?_, congrArg Text.utf8⟩
  have hread := congrArg Text.ofUtf8? h
  rw [Text.ofUtf8?_utf8, Text.ofUtf8?_utf8] at hread
  exact Option.some.inj hread

/-- Alone, a part of a pattern matches its text and no other. -/
theorem matchesKey_denoted {part text : String} (h : Denotes part text) (key : String) :
    matchesKey part key = true ↔ key = text := by
  have hpart := h []
  rw [tokens, List.append_nil, List.append_nil] at hpart
  rw [matchesKey_iff_matches, hpart, matches_literals, utf8_inj]

/-- With a star behind it, a part of a pattern matches what begins with its text. -/
theorem matchesKey_star {part text : String} (h : Denotes part text) (key : String) :
    matchesKey (part ++ "*") key = true ↔ text.toList <+: key.toList := by
  have hstar : tokens (Text.utf8 "*") = [.star] := by
    rw [show Text.utf8 "*" = [0x2a] by decide, tokens, tokens]
  rw [matchesKey_iff_matches, utf8_append, h, hstar, matches_literals_star, utf8_prefix_iff]

/-! ### Stars in the midst of a pattern -/

/-- A part of a pattern that matches a text, whatever comes after both. -/
def Accepts (part text : String) : Prop :=
  ∀ rest key, Matches (tokens rest) key →
    Matches (tokens (Text.utf8 part ++ rest)) (Text.utf8 text ++ key)

theorem Accepts.append {part part' text text' : String} (h : Accepts part text)
    (h' : Accepts part' text') : Accepts (part ++ part') (text ++ text') := by
  intro rest key hrest
  rw [utf8_append, utf8_append, List.append_assoc, List.append_assoc]
  exact h _ _ (h' rest key hrest)

theorem Denotes.accepts {part text : String} (h : Denotes part text) : Accepts part text := by
  intro rest key hrest
  rw [h rest]
  exact (takes_literals (Text.utf8 text)).matches_append.mpr hrest

/-- A star matches any text. -/
theorem accepts_star (text : String) : Accepts "*" text := by
  intro rest key hrest
  have hstar : tokens (Text.utf8 "*" ++ rest) = .star :: tokens rest := by
    rw [show Text.utf8 "*" = [0x2a] by decide, List.singleton_append, tokens]
  rw [hstar]
  exact matches_star.mpr ⟨(Text.utf8 text).length, by rwa [List.drop_left]⟩

theorem matchesKey_of_accepts {part text : String} (h : Accepts part text) :
    matchesKey part text = true := by
  have hend := h [] [] (by rw [tokens, matches_nil])
  rw [List.append_nil, List.append_nil] at hend
  exact matchesKey_iff_matches.mpr hend

end Tabular.Glob

namespace Tabular.TableName

open Glob

/-- The pattern of a table's keys matches what begins with its name in braces and a colon. -/
theorem matchesKey_keyPattern (t : TableName) (key : String) :
    matchesKey t.keyPattern key = true ↔ (braced t.full ++ ":").toList <+: key.toList := by
  have hpattern : t.keyPattern = braced (escape t.full) ++ ":" ++ "*" := by
    rw [keyPattern, show ":*" = ":" ++ "*" from rfl, ← String.append_assoc]
  rw [hpattern]
  apply matchesKey_star
  exact (((denotes_plain (by decide)).append (denotes_escape t.full)).append
    (denotes_plain (by decide))).append (denotes_plain (by decide))

/-- The pattern of a column's index keys matches what begins with their stem. -/
theorem matchesKey_indexPattern (t : TableName) (column key : String) :
    matchesKey (t.indexPattern column) key = true ↔ (t.indexStem column).toList <+: key.toList := by
  have hpattern : t.indexPattern column =
      braced (escape t.full) ++ ":idx:" ++ escape column ++ ":" ++ "*" := by
    rw [indexPattern, show ":*" = ":" ++ "*" from rfl, ← String.append_assoc]
  rw [hpattern]
  apply matchesKey_star
  exact (((((denotes_plain (by decide)).append (denotes_escape t.full)).append
    (denotes_plain (by decide))).append (denotes_plain (by decide))).append
    (denotes_escape column)).append (denotes_plain (by decide))

/-- The pattern of all schemas matches the schema of every table. -/
theorem matchesKey_anySchemaPattern (t : TableName) :
    matchesKey anySchemaPattern (Key.schema t).text = true := by
  have hpattern : anySchemaPattern = "schema:\x7b" ++ "*" ++ "." ++ "*" ++ "\x7d" := by decide
  have htext : (Key.schema t).text = "schema:\x7b" ++ t.ns ++ "." ++ t.table ++ "\x7d" := by
    rw [← String.toList_inj]
    simp [Key.text, braced, full]
  rw [hpattern, htext]
  apply matchesKey_of_accepts
  exact ((((denotes_plain (by decide)).accepts.append (accepts_star t.ns)).append
    (denotes_plain (by decide)).accepts).append (accepts_star t.table)).append
    (denotes_plain (by decide)).accepts

/-- The pattern of a namespace matches the schemas of its tables. -/
theorem matchesKey_namespacePattern (t : TableName) :
    matchesKey (namespacePattern t.ns) (Key.schema t).text = true := by
  have hpattern : namespacePattern t.ns =
      "schema:\x7b" ++ escape t.ns ++ "." ++ "*" ++ "\x7d" := by
    rw [← String.toList_inj]
    simp [namespacePattern, braced]
  have htext : (Key.schema t).text = "schema:\x7b" ++ t.ns ++ "." ++ t.table ++ "\x7d" := by
    rw [← String.toList_inj]
    simp [Key.text, braced, full]
  rw [hpattern, htext]
  apply matchesKey_of_accepts
  exact ((((denotes_plain (by decide)).accepts.append (denotes_escape t.ns).accepts).append
    (denotes_plain (by decide)).accepts).append (accepts_star t.table)).append
    (denotes_plain (by decide)).accepts

end Tabular.TableName

namespace Tabular.Glob

theorem prefix_iff_exists {s key : String} :
    s.toList <+: key.toList ↔ ∃ rest, key = s ++ rest := by
  constructor
  · rintro ⟨rest, hrest⟩
    refine ⟨String.ofList rest, String.toList_inj.mp ?_⟩
    rw [String.toList_append, String.toList_ofList, hrest]
  · rintro ⟨rest, rfl⟩
    rw [String.toList_append]
    exact List.prefix_append ..

/-- An escaped text matches itself and nothing else, and the patterns of a table and of an index
match what begins with the name of the table, or also of the column, as the keys spell it. What
stands in the names, special characters or not, makes no difference. -/
theorem patterns_literal :
    (∀ s key : String, matchesKey (escape s) key = true ↔ key = s) ∧
    (∀ (t : TableName) (column key : String), matchesKey (t.indexPattern column) key = true ↔
      ∃ rest, key = "\x7b" ++ t.full ++ "\x7d:idx:" ++ column ++ ":" ++ rest) ∧
    ∀ (t : TableName) (key : String), matchesKey t.keyPattern key = true ↔
      ∃ rest, key = "\x7b" ++ t.full ++ "\x7d:" ++ rest := by
  refine ⟨fun s => matchesKey_denoted (denotes_escape s), fun t column key => ?_, fun t key => ?_⟩
  · have hstem : t.indexStem column = "\x7b" ++ t.full ++ "\x7d:idx:" ++ column ++ ":" := by
      rw [← String.toList_inj]
      simp [TableName.indexStem, braced]
    rw [TableName.matchesKey_indexPattern, hstem, prefix_iff_exists]
  · have hstem : braced t.full ++ ":" = "\x7b" ++ t.full ++ "\x7d:" := by
      rw [← String.toList_inj]
      simp [braced]
    rw [TableName.matchesKey_keyPattern, hstem, prefix_iff_exists]

end Tabular.Glob
