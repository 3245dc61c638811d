import Tabular.Proofs.Search

/-!
The grammar of patterns as rules, apart from any function that reads them. The rules for the next
token exclude one another and one of them always applies, so that a pattern has exactly one reading
(`reads_iff`); the keys that the search finds are those that this reading matches
(`matchesKey_iff_reads`).
-/

namespace Tabular.Glob

/-! ### The rules -/

/-- How a byte is written in a class: as it is, or behind a backslash. -/
inductive WritesByte : UInt8 → List UInt8 → Prop
  | plain {b : UInt8} (hclose : b ≠ 0x5d) (hescape : b ≠ 0x5c) : WritesByte b [b]
  | escaped (b : UInt8) : WritesByte b [0x5c, b]

/-- A hyphen and the far end of a range stand here. -/
def GoesOn (pattern : List UInt8) : Prop := ∃ hi rest, pattern = 0x2d :: hi :: rest ∧ hi ≠ 0x5d

/-- The members of a class up to its closing bracket, and the pattern behind the bracket. -/
inductive ReadsMembers : List UInt8 → List (UInt8 × UInt8) → List UInt8 → Prop
  | close (rest : List UInt8) : ReadsMembers (0x5d :: rest) [] rest
  | range {lo hi : UInt8} {written more rest : List UInt8} {ranges : List (UInt8 × UInt8)}
      (hlo : WritesByte lo written) (hhi : hi ≠ 0x5d) (h : ReadsMembers more ranges rest) :
      ReadsMembers (written ++ 0x2d :: hi :: more) ((lo, hi) :: ranges) rest
  | single {b : UInt8} {written more rest : List UInt8} {ranges : List (UInt8 × UInt8)}
      (hb : WritesByte b written) (hend : ¬ GoesOn more) (h : ReadsMembers more ranges rest) :
      ReadsMembers (written ++ more) ((b, b) :: ranges) rest

/-- A class behind its opening bracket. -/
inductive ReadsClass : List UInt8 → Token → List UInt8 → Prop
  | members {pattern rest : List UInt8} {ranges : List (UInt8 × UInt8)}
      (hplain : pattern.head? ≠ some 0x5e) (h : ReadsMembers pattern ranges rest) :
      ReadsClass pattern (.oneOf false ranges) rest
  | negated {pattern rest : List UInt8} {ranges : List (UInt8 × UInt8)}
      (h : ReadsMembers pattern ranges rest) :
      ReadsClass (0x5e :: pattern) (.oneOf true ranges) rest

/-- What a pattern reads as. -/
inductive Reads : List UInt8 → List Token → Prop
  | nil : Reads [] []
  | star {rest : List UInt8} {ts : List Token} (h : Reads rest ts) :
      Reads (0x2a :: rest) (.star :: ts)
  | any {rest : List UInt8} {ts : List Token} (h : Reads rest ts) :
      Reads (0x3f :: rest) (.any :: ts)
  | escaped {b : UInt8} {rest : List UInt8} {ts : List Token} (h : Reads rest ts) :
      Reads (0x5c :: b :: rest) (.literal b :: ts)
  /-- A backslash at the very end is literal. -/
  | backslash : Reads [0x5c] [.literal 0x5c]
  | oneOf {pattern rest : List UInt8} {t : Token} {ts : List Token}
      (hclass : ReadsClass pattern t rest) (h : Reads rest ts) :
      Reads (0x5b :: pattern) (t :: ts)
  /-- A bracket that is never closed is literal. -/
  | bracket {rest : List UInt8} {ts : List Token}
      (hopen : ∀ t behind, ¬ ReadsClass rest t behind) (h : Reads rest ts) :
      Reads (0x5b :: rest) (.literal 0x5b :: ts)
  | plain {b : UInt8} {rest : List UInt8} {ts : List Token}
      (hb : b ∉ [0x2a, 0x3f, 0x5c, 0x5b]) (h : Reads rest ts) :
      Reads (b :: rest) (.literal b :: ts)

/-! ### Classes -/

theorem unescape_of_ne {b : UInt8} (h : b ≠ 0x5c) (rest : List UInt8) :
    unescape b rest = (b, rest) := by
  rw [unescape]
  exact fun _ _ hb => (h hb).elim

theorem rangeFrom_of_goesOn {lo hi : UInt8} (h : hi ≠ 0x5d) (rest : List UInt8) :
    rangeFrom lo (0x2d :: hi :: rest) = ((lo, hi), rest) := by
  rw [rangeFrom, if_neg h]

theorem rangeFrom_of_not_goesOn {lo : UInt8} {rest : List UInt8} (h : ¬ GoesOn rest) :
    rangeFrom lo rest = ((lo, lo), rest) := by
  unfold rangeFrom
  split
  next hi rest => rw [if_pos (not_not.mp fun hhi => h ⟨hi, rest, rfl, hhi⟩)]
  next => rfl

/-- A byte that is written in a class begins a member there. -/
theorem classRanges_of_writesByte {b : UInt8} {written : List UInt8} (h : WritesByte b written)
    (more : List UInt8) : classRanges (written ++ more) =
      (classRanges (rangeFrom b more).2).map fun found =>
        ((rangeFrom b more).1 :: found.1, found.2) := by
  cases h with
  | plain hclose hescape =>
      rw [List.singleton_append, classRanges_cons hclose, member, unescape_of_ne hescape]
  | escaped =>
      rw [List.cons_append, List.singleton_append, classRanges_cons (by decide), member, unescape]

theorem classRanges_of_readsMembers {pattern rest : List UInt8} {ranges : List (UInt8 × UInt8)}
    (h : ReadsMembers pattern ranges rest) : classRanges pattern = some (ranges, rest) := by
  induction h with
  | close rest => rw [classRanges]
  | range hlo hhi _ ih =>
      rw [classRanges_of_writesByte hlo, rangeFrom_of_goesOn hhi, ih, Option.map_some]
  | single hb hend _ ih =>
      rw [classRanges_of_writesByte hb, rangeFrom_of_not_goesOn hend, ih, Option.map_some]

/-- Every byte but the closing bracket is written in one of the two ways, unless it is a backslash
with nothing behind it. -/
theorem exists_writesByte {b : UInt8} (h : b ≠ 0x5d) (rest : List UInt8) :
    (b = 0x5c ∧ rest = []) ∨ ∃ lo written more, WritesByte lo written ∧
      b :: rest = written ++ more ∧ member b rest = rangeFrom lo more := by
  by_cases hescape : b = 0x5c
  · subst hescape
    cases rest with
    | nil => exact Or.inl ⟨rfl, rfl⟩
    | cons c rest => exact Or.inr ⟨c, _, rest, .escaped c, rfl, rfl⟩
  · refine Or.inr ⟨b, [b], rest, .plain h hescape, rfl, ?_⟩
    rw [member, unescape_of_ne hescape]

theorem readsMembers_of_classRanges {pattern rest : List UInt8} {ranges : List (UInt8 × UInt8)}
    (h : classRanges pattern = some (ranges, rest)) : ReadsMembers pattern ranges rest := by
  fun_induction classRanges pattern generalizing ranges with
  | case1 => cases h
  | case2 behind =>
      cases h
      exact ReadsMembers.close _
  | case3 b behind hb ih =>
      obtain ⟨⟨more, left⟩, hmore, heq⟩ := Option.map_eq_some_iff.mp h
      cases heq
      have hrest := ih hmore
      obtain ⟨rfl, rfl⟩ | ⟨lo, written, after, hlo, hwritten, hmember⟩ :=
        exists_writesByte hb behind
      · -- the pattern ends before the class does
        have hnone : classRanges (member 0x5c []).2 = none := by
          show classRanges [] = none
          rw [classRanges]
        rw [hnone] at hmore
        cases hmore
      rw [hmember] at hrest ⊢
      rw [hwritten]
      by_cases hgoes : GoesOn after
      · obtain ⟨hi, after, rfl, hhi⟩ := hgoes
        rw [rangeFrom_of_goesOn hhi] at hrest ⊢
        exact ReadsMembers.range hlo hhi hrest
      · rw [rangeFrom_of_not_goesOn hgoes] at hrest ⊢
        exact ReadsMembers.single hlo hgoes hrest

theorem readsMembers_iff {pattern rest : List UInt8} {ranges : List (UInt8 × UInt8)} :
    ReadsMembers pattern ranges rest ↔ classRanges pattern = some (ranges, rest) :=
  ⟨classRanges_of_readsMembers, readsMembers_of_classRanges⟩

theorem readsClass_iff {pattern rest : List UInt8} {t : Token} :
    ReadsClass pattern t rest ↔ class? pattern = some (t, rest) := by
  constructor
  · rintro (⟨hplain, h⟩ | h)
    · simp [class?, hplain, readsMembers_iff.mp h]
    · simp [class?, readsMembers_iff.mp h]
  · intro h
    obtain ⟨⟨ranges, behind⟩, hranges, heq⟩ := Option.map_eq_some_iff.mp h
    cases heq
    by_cases hhead : pattern.head? = some 0x5e
    · obtain ⟨more, rfl⟩ := List.head?_eq_some_iff.mp hhead
      rw [decide_eq_true hhead]
      rw [if_pos (decide_eq_true hhead)] at hranges
      exact ReadsClass.negated (readsMembers_iff.mpr hranges)
    · rw [decide_eq_false hhead]
      rw [if_neg (by simpa using hhead)] at hranges
      exact ReadsClass.members hhead (readsMembers_iff.mpr hranges)

/-! ### Patterns -/

theorem tokens_of_reads {pattern : List UInt8} {ts : List Token} (h : Reads pattern ts) :
    tokens pattern = ts := by
  induction h with
  | nil => rw [tokens]
  | star _ ih => rw [tokens, ih]
  | any _ ih => rw [tokens, ih]
  | escaped _ ih => rw [tokens, ih]
  | backslash => rw [tokens_literal (by decide) (by decide) (fun _ => rfl) (by decide), tokens]
  | oneOf hclass _ ih =>
      rw [tokens, readsClass_iff.mp hclass]
      dsimp only
      rw [ih]
  | @bracket rest ts hopen _ ih =>
      have hnone : class? rest = none := by
        rw [Option.eq_none_iff_forall_ne_some]
        exact fun found hfound => hopen found.1 found.2 (readsClass_iff.mpr hfound)
      rw [tokens, hnone]
      dsimp only
      rw [ih]
  | plain hb _ ih =>
      simp only [List.mem_cons, List.not_mem_nil, or_false, not_or] at hb
      obtain ⟨hstar, hany, hescape, hclass⟩ := hb
      rw [tokens_literal hstar hany (fun hb => (hescape hb).elim) hclass, ih]

theorem reads_tokens (pattern : List UInt8) : Reads pattern (tokens pattern) := by
  fun_induction tokens pattern with
  | case1 => exact .nil
  | case2 rest ih => exact .star ih
  | case3 rest ih => exact .any ih
  | case4 b rest ih => exact .escaped ih
  | case5 rest found hclosed ih => exact .oneOf (readsClass_iff.mpr hclosed) ih
  | case6 rest hopen ih =>
      refine .bracket (fun t behind h => ?_) ih
      rw [readsClass_iff.mp h] at hopen
      cases hopen
  | case7 b rest hstar hany hescape hclass ih =>
      by_cases hb : b = 0x5c
      · subst hb
        cases rest with
        | nil =>
            rw [tokens]
            exact .backslash
        | cons c rest => exact (hescape c rest rfl rfl).elim
      · refine .plain ?_ ih
        simp only [List.mem_cons, List.not_mem_nil, or_false, not_or]
        exact ⟨hstar, hany, hb, hclass⟩

/-- The grammar reads every pattern in exactly one way. -/
theorem reads_iff {pattern : List UInt8} {ts : List Token} :
    Reads pattern ts ↔ ts = tokens pattern :=
  ⟨fun h => (tokens_of_reads h).symm, fun h => h ▸ reads_tokens pattern⟩

/-- A pattern has one reading, and the search, which ends whatever the pattern and the key are,
finds the keys that can be split into pieces which the tokens of that reading stand for, one piece
for each token in order. -/
theorem matchesKey_iff_reads (pattern : String) :
    ∃ ts, (∀ ts', Reads (Text.utf8 pattern) ts' ↔ ts' = ts) ∧
      ∀ key : String, matchesKey pattern key = true ↔
        ∃ pieces : List (List UInt8), pieces.flatten = Text.utf8 key ∧
          List.Forall₂ Token.Fits ts pieces :=
  ⟨tokens (Text.utf8 pattern), fun _ => reads_iff, fun _ => matchesKey_iff_matches⟩

end Tabular.Glob
