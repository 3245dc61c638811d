import Mathlib.Data.List.Forall2
import Tabular.Glob

/-!
What a pattern means, apart from any search. Its bytes are read as a list of tokens, and it matches
a key that can be split into pieces, one for each token in order (`Matches`). The search decides
this although it never goes back beyond the last star (`search_iff_goal`): what stands between two
stars takes one byte for each token, so the earlier star could only leave the later one less of the
key.
-/

namespace Tabular.Glob

/-! ### Tokens -/

/-- One element of a pattern. -/
inductive Token
  /-- Any run of bytes. -/
  | star
  /-- Any one byte. -/
  | any
  | literal (byte : UInt8)
  /-- One byte that lies in one of the ranges, or in none of them if `negated`. -/
  | oneOf (negated : Bool) (ranges : List (UInt8 × UInt8))
  deriving DecidableEq, Repr

/-- Whether a byte lies between the ends of a range, in whichever order they stand. -/
def Between (c : UInt8) (range : UInt8 × UInt8) : Prop :=
  range.1 ≤ c ∧ c ≤ range.2 ∨ range.2 ≤ c ∧ c ≤ range.1

/-- Whether a token other than `star` stands for a byte. -/
def Token.Accepts : Token → UInt8 → Prop
  | star, _ => False
  | any, _ => True
  | literal b, c => c = b
  | oneOf false ranges, c => ∃ range ∈ ranges, Between c range
  | oneOf true ranges, c => ∀ range ∈ ranges, ¬ Between c range

instance (c : UInt8) (range : UInt8 × UInt8) : Decidable (Between c range) :=
  inferInstanceAs (Decidable (_ ∨ _))

instance (t : Token) (c : UInt8) : Decidable (t.Accepts c) :=
  match t with
  | .star => inferInstanceAs (Decidable False)
  | .any => inferInstanceAs (Decidable True)
  | .literal b => inferInstanceAs (Decidable (c = b))
  | .oneOf false ranges => inferInstanceAs (Decidable (∃ range ∈ ranges, Between c range))
  | .oneOf true ranges => inferInstanceAs (Decidable (∀ range ∈ ranges, ¬ Between c range))

/-- Whether a token stands for a piece of a key. -/
def Token.Fits (t : Token) (piece : List UInt8) : Prop :=
  t = .star ∨ ∃ b, t.Accepts b ∧ piece = [b]

/-- Whether a key can be split into pieces, one for each token in order. -/
def Matches (ts : List Token) (key : List UInt8) : Prop :=
  ∃ pieces : List (List UInt8), pieces.flatten = key ∧ List.Forall₂ Token.Fits ts pieces

theorem matches_nil {key : List UInt8} : Matches [] key ↔ key = [] := by
  constructor
  · rintro ⟨pieces, rfl, h⟩
    rw [List.forall₂_nil_left_iff.mp h, List.flatten_nil]
  · rintro rfl
    exact ⟨[], rfl, List.Forall₂.nil⟩

theorem matches_cons {t : Token} {ts : List Token} {key : List UInt8} :
    Matches (t :: ts) key ↔ ∃ piece rest, key = piece ++ rest ∧ t.Fits piece ∧ Matches ts rest := by
  constructor
  · rintro ⟨pieces, rfl, h⟩
    obtain ⟨piece, more, hfits, hmore, rfl⟩ := List.forall₂_cons_left_iff.mp h
    exact ⟨piece, more.flatten, List.flatten_cons, hfits, more, rfl, hmore⟩
  · rintro ⟨piece, rest, rfl, hfits, more, rfl, hmore⟩
    exact ⟨piece :: more, List.flatten_cons, List.Forall₂.cons hfits hmore⟩

/-- A star matches if what follows it matches some end of the key. -/
theorem matches_star {ts : List Token} {key : List UInt8} :
    Matches (.star :: ts) key ↔ ∃ n, Matches ts (key.drop n) := by
  rw [matches_cons]
  constructor
  · rintro ⟨piece, rest, rfl, -, hrest⟩
    exact ⟨piece.length, by rwa [List.drop_left]⟩
  · rintro ⟨n, h⟩
    exact ⟨key.take n, key.drop n, (List.take_append_drop n key).symm, Or.inl rfl, h⟩

theorem Matches.star {ts : List Token} {key : List UInt8} (h : Matches ts key) :
    Matches (.star :: ts) key := matches_star.mpr ⟨0, h⟩

theorem matches_star_nil {ts : List Token} : Matches (.star :: ts) [] ↔ Matches ts [] := by
  rw [matches_star]
  simp only [List.drop_nil, exists_const]

theorem matches_star_cons {ts : List Token} {b : UInt8} {key : List UInt8} :
    Matches (.star :: ts) (b :: key) ↔ Matches ts (b :: key) ∨ Matches (.star :: ts) key := by
  rw [matches_star, matches_star]
  constructor
  · rintro ⟨_ | n, h⟩
    · exact Or.inl h
    · exact Or.inr ⟨n, h⟩
  · rintro (h | ⟨n, h⟩)
    · exact ⟨0, h⟩
    · exact ⟨n + 1, h⟩

/-- A second star adds nothing. -/
theorem matches_star_star {ts : List Token} {key : List UInt8} :
    Matches (.star :: .star :: ts) key ↔ Matches (.star :: ts) key := by
  refine ⟨fun h => ?_, Matches.star⟩
  obtain ⟨n, h⟩ := matches_star.mp h
  obtain ⟨m, h⟩ := matches_star.mp h
  rw [List.drop_drop] at h
  exact matches_star.mpr ⟨_, h⟩

section
variable {t : Token} (ht : t ≠ .star) {ts : List Token}
include ht

theorem matches_one {key : List UInt8} :
    Matches (t :: ts) key ↔ ∃ b rest, key = b :: rest ∧ t.Accepts b ∧ Matches ts rest := by
  rw [matches_cons]
  constructor
  · rintro ⟨piece, rest, rfl, h | ⟨b, hb, rfl⟩, hrest⟩
    · exact (ht h).elim
    · exact ⟨b, rest, rfl, hb, hrest⟩
  · rintro ⟨b, rest, rfl, hb, hrest⟩
    exact ⟨[b], rest, rfl, Or.inr ⟨b, hb, rfl⟩, hrest⟩

theorem matches_one_cons {b : UInt8} {key : List UInt8} :
    Matches (t :: ts) (b :: key) ↔ t.Accepts b ∧ Matches ts key := by
  rw [matches_one ht]
  constructor
  · rintro ⟨_, _, heq, h⟩
    obtain ⟨rfl, rfl⟩ := List.cons.inj heq
    exact h
  · exact fun h => ⟨b, key, rfl, h⟩

end

/-! ### Between two stars -/

/-- Tokens that stand for the bytes of a text, one for each. None of them is a star. -/
abbrev Takes (ts : List Token) (bytes : List UInt8) : Prop := List.Forall₂ Token.Accepts ts bytes

namespace Takes

variable {taken ts : List Token} {bytes key : List UInt8}

theorem ne_star (h : Takes taken bytes) : ∀ t ∈ taken, t ≠ .star := by
  induction h with
  | nil => simp
  | cons hb _ ih =>
      refine List.forall_mem_cons.mpr ⟨?_, ih⟩
      rintro rfl
      exact hb

/-- What has been taken may be left out on both sides. -/
theorem matches_append (h : Takes taken bytes) :
    Matches (taken ++ ts) (bytes ++ key) ↔ Matches ts key := by
  induction h with
  | nil => rfl
  | @cons t b taken bytes hb _ ih =>
      have ht : t ≠ .star := by
        rintro rfl
        exact hb
      rw [List.cons_append, List.cons_append, matches_one_cons ht, ih, and_iff_right hb]

/-- Tokens without a star match by taking one byte each. -/
theorem drop_of_matches (h : ∀ t ∈ taken, t ≠ .star) (hkey : Matches (taken ++ ts) key) :
    Matches ts (key.drop taken.length) := by
  induction taken generalizing key with
  | nil => exact hkey
  | cons t taken ih =>
      obtain ⟨ht, htaken⟩ := List.forall_mem_cons.mp h
      obtain ⟨b, rest, rfl, -, hrest⟩ := (matches_one ht).mp hkey
      exact ih htaken hrest

/-- However much a star takes before them, the same tokens never end before the key that they have
left already. -/
theorem matches_star (h : Takes taken bytes)
    (hkey : Matches (.star :: (taken ++ ts)) (bytes ++ key)) : Matches (.star :: ts) key := by
  obtain ⟨n, hn⟩ := Glob.matches_star.mp hkey
  have hleft := drop_of_matches h.ne_star hn
  rw [List.drop_drop, Nat.add_comm, ← List.drop_drop, h.length_eq, List.drop_left] at hleft
  exact Glob.matches_star.mpr ⟨n, hleft⟩

end Takes

/-! ### Reading the tokens -/

/-- The ranges of a class up to its closing bracket, and what follows the bracket. -/
def classRanges : List UInt8 → Option (List (UInt8 × UInt8) × List UInt8)
  | [] => none
  | 0x5d :: rest => some ([], rest)
  | b :: rest =>
      (classRanges (member b rest).2).map fun more => ((member b rest).1 :: more.1, more.2)
termination_by pattern => pattern.length
decreasing_by exact Nat.lt_succ_of_le (length_member_le b rest)

theorem classRanges_cons {b : UInt8} (h : b ≠ 0x5d) (rest : List UInt8) :
    classRanges (b :: rest) = (classRanges (member b rest).2).map fun more =>
      ((member b rest).1 :: more.1, more.2) := by
  rw [classRanges]
  exact h

/-- The class whose opening bracket has just been read, and what follows it. -/
def class? (pattern : List UInt8) : Option (Token × List UInt8) :=
  let negated : Bool := pattern.head? = some 0x5e
  (classRanges (if negated then pattern.tail else pattern)).map fun found =>
    (.oneOf negated found.1, found.2)

theorem length_classRanges_lt {pattern : List UInt8} {found : List (UInt8 × UInt8) × List UInt8}
    (h : classRanges pattern = some found) : found.2.length < pattern.length := by
  fun_induction classRanges pattern generalizing found with
  | case1 => simp at h
  | case2 rest => obtain rfl := Option.some.inj h; simp
  | case3 b rest _ ih =>
      obtain ⟨more, hmore, rfl⟩ := Option.map_eq_some_iff.mp h
      have := ih hmore
      have := length_member_le b rest
      simp only [List.length_cons]
      omega

theorem length_class?_lt {pattern : List UInt8} {found : Token × List UInt8}
    (h : class? pattern = some found) : found.2.length < pattern.length := by
  obtain ⟨ranges, hranges, rfl⟩ := Option.map_eq_some_iff.mp h
  have := length_classRanges_lt hranges
  split at this
  · simp only [List.length_tail] at this ⊢; omega
  · exact this

/-- The tokens of a pattern. -/
def tokens : List UInt8 → List Token
  | [] => []
  | 0x2a :: rest => .star :: tokens rest
  | 0x3f :: rest => .any :: tokens rest
  | 0x5c :: b :: rest => .literal b :: tokens rest
  | 0x5b :: rest =>
      match _closed : class? rest with
      | some found => found.1 :: tokens found.2
      | none => .literal 0x5b :: tokens rest
  | b :: rest => .literal b :: tokens rest
termination_by pattern => pattern.length
decreasing_by
  all_goals first
    | exact Nat.lt_succ_self _
    | exact Nat.lt_succ_of_lt (Nat.lt_succ_self _)
    | exact Nat.lt_succ_of_lt (length_class?_lt (by assumption))

theorem tokens_literal {b : UInt8} {rest : List UInt8} (hstar : b ≠ 0x2a) (hany : b ≠ 0x3f)
    (hescape : b = 0x5c → rest = []) (hclass : b ≠ 0x5b) :
    tokens (b :: rest) = .literal b :: tokens rest := by
  rw [tokens]
  · exact hstar
  · exact hany
  · intro c more hb hrest
    exact List.cons_ne_nil c more (hrest.symm.trans (hescape hb))
  · exact hclass

theorem covers_iff {range : UInt8 × UInt8} {c : UInt8} :
    covers range c = true ↔ Between c range := by
  obtain ⟨a, b⟩ := range
  unfold covers Between
  rw [Bool.and_eq_true, decide_eq_true_iff, decide_eq_true_iff]
  have hmin : min a b = if a ≤ b then a else b := rfl
  have hmax : max a b = if a ≤ b then b else a := rfl
  simp only [hmin, hmax, UInt8.le_iff_toNat_le]
  split <;> omega

/-- Where a class ends does not depend on the byte that is looked for in it. -/
theorem findMember_eq (c : UInt8) (found : Bool) (pattern : List UInt8) :
    findMember c found pattern =
      (classRanges pattern).map fun ranges => (found || ranges.1.any (covers · c), ranges.2) := by
  fun_induction findMember c found pattern with
  | case1 => rw [classRanges, Option.map_none]
  | case2 found rest => simp [classRanges]
  | case3 found b rest hb ih =>
      rw [ih, classRanges_cons hb, Option.map_map]
      simp only [Function.comp_def, List.any_cons, Bool.or_assoc]

theorem accepts_oneOf {negated : Bool} {ranges : List (UInt8 × UInt8)} {c : UInt8} :
    (Token.oneOf negated ranges).Accepts c ↔ (ranges.any (covers · c) != negated) = true := by
  cases negated with
  | false => simp [Token.Accepts, List.any_eq_true, covers_iff]
  | true => simp [Token.Accepts, covers_iff]

/-- The class in which a byte is looked for is the one that is read. -/
theorem inClass?_eq (c : UInt8) (pattern : List UInt8) :
    inClass? c pattern =
      (class? pattern).map fun found => (decide (found.1.Accepts c), found.2) := by
  simp only [inClass?, class?, findMember_eq, Option.map_map]
  congr 1
  funext found
  simp only [Function.comp_apply, Bool.false_or, Prod.mk.injEq, and_true]
  rw [Bool.eq_iff_iff, ← accepts_oneOf, decide_eq_true_iff]

theorem ne_star_of_class? {pattern : List UInt8} {found : Token × List UInt8}
    (h : class? pattern = some found) : found.1 ≠ .star := by
  obtain ⟨ranges, -, rfl⟩ := Option.map_eq_some_iff.mp h
  exact Token.noConfusion

/-! ### One move -/

/-- A pattern begins with a star, or with a token that stands for one byte. Which one, and where
the pattern goes on, does not depend on the byte. -/
theorem head_cases (pattern : List UInt8) :
    pattern = [] ∨
    (∃ rest, pattern = 0x2a :: rest ∧ tokens pattern = .star :: tokens rest ∧
      ∀ c, move c pattern = .star rest) ∨
    ∃ t rest, t ≠ .star ∧ tokens pattern = t :: tokens rest ∧
      ∀ c, move c pattern = if t.Accepts c then .fit rest else .fail := by
  fun_cases tokens pattern with
  | case1 => exact Or.inl rfl
  | case2 rest => exact Or.inr (Or.inl ⟨rest, rfl, rfl, fun c => rfl⟩)
  | case3 rest =>
      refine Or.inr (Or.inr ⟨.any, rest, by simp, rfl, fun c => ?_⟩)
      simp [move, Token.Accepts]
  | case4 b rest =>
      refine Or.inr (Or.inr ⟨.literal b, rest, by simp, rfl, fun c => ?_⟩)
      simp [move, Token.Accepts, eq_comm]
  | case5 rest found hclosed =>
      refine Or.inr (Or.inr ⟨found.1, found.2, ne_star_of_class? hclosed, rfl, fun c => ?_⟩)
      simp only [move, inClass?_eq, hclosed, Option.map_some]
      by_cases h : found.1.Accepts c <;> simp [h]
  | case6 rest hopen =>
      refine Or.inr (Or.inr ⟨.literal 0x5b, rest, by simp, rfl, fun c => ?_⟩)
      simp only [move, inClass?_eq, hopen, Option.map_none]
      exact if_congr Iff.rfl rfl rfl
  | case7 b rest hstar hany hescape hclass =>
      refine Or.inr (Or.inr ⟨.literal b, rest, by simp, rfl, fun c => ?_⟩)
      rw [move]
      · simp [Token.Accepts, eq_comm]
      · exact hstar
      · exact hany
      · exact hescape
      · exact hclass

theorem tokens_of_move_star {c : UInt8} {pattern behind : List UInt8}
    (h : move c pattern = .star behind) : tokens pattern = .star :: tokens behind := by
  obtain rfl | ⟨rest, rfl, htokens, hmove⟩ | ⟨t, rest, -, -, hmove⟩ := head_cases pattern
  · cases h
  · obtain rfl := Move.star.inj ((hmove c).symm.trans h)
    exact htokens
  · rw [hmove] at h
    split at h <;> cases h

theorem tokens_of_move_fit {c : UInt8} {pattern behind : List UInt8}
    (h : move c pattern = .fit behind) :
    ∃ t : Token, t.Accepts c ∧ tokens pattern = t :: tokens behind := by
  obtain rfl | ⟨rest, rfl, -, hmove⟩ | ⟨t, rest, -, htokens, hmove⟩ := head_cases pattern
  · cases h
  · cases (hmove c).symm.trans h
  · rw [hmove] at h
    split at h
    next hc =>
      obtain rfl := Move.fit.inj h
      exact ⟨t, hc, htokens⟩
    next => cases h

theorem not_matches_of_move_fail {c : UInt8} {pattern : List UInt8} (h : move c pattern = .fail)
    (key : List UInt8) : ¬ Matches (tokens pattern) (c :: key) := by
  obtain rfl | ⟨rest, rfl, -, hmove⟩ | ⟨t, rest, ht, htokens, hmove⟩ := head_cases pattern
  · rw [tokens, matches_nil]
    exact List.cons_ne_nil c key
  · cases (hmove c).symm.trans h
  · rw [hmove] at h
    rw [htokens, matches_one_cons ht]
    split at h
    next => cases h
    next hc => exact fun hmatches => hc hmatches.1

/-- At the end of the key nothing but stars may be left. -/
theorem all_star_iff (pattern : List UInt8) :
    pattern.all (· = 0x2a) = true ↔ Matches (tokens pattern) [] := by
  induction pattern with
  | nil => simp [tokens, matches_nil]
  | cons b rest ih =>
      rw [List.all_cons, Bool.and_eq_true, decide_eq_true_iff, ih]
      obtain h | ⟨_, h, htokens, -⟩ | ⟨t, more, ht, htokens, -⟩ := head_cases (b :: rest)
      · cases h
      · obtain ⟨rfl, rfl⟩ := List.cons.inj h
        rw [htokens, matches_star_nil, and_iff_right rfl]
      · rw [htokens, matches_one ht]
        constructor
        · rintro ⟨rfl, -⟩
          rw [tokens] at htokens
          exact (ht (List.cons.inj htokens).1.symm).elim
        · rintro ⟨_, _, h, -⟩
          cases h

/-! ### The whole search -/

/-- What the search has to decide: whether the pattern behind the last star matches some end of the
key that this star has not taken, and before any star, whether the pattern matches the key. -/
def Goal (pattern key : List UInt8) : Option Retry → Prop
  | none => Matches (tokens pattern) key
  | some last => Matches (.star :: tokens last.pattern) last.key

/-- What has been read since the last star stands for the bytes that have been passed. -/
def Reached (pattern key : List UInt8) (retry : Option Retry) : Prop :=
  ∀ last ∈ retry, ∃ taken bytes, Takes taken bytes ∧
    tokens last.pattern = taken ++ tokens pattern ∧ last.key = bytes ++ key

namespace Reached

variable {pattern key : List UInt8} {retry : Option Retry}

theorem start (pattern key : List UInt8) : Reached pattern key none := by
  rintro _ ⟨⟩

/-- The search passes a star, or begins anew behind it. -/
theorem again (pattern key : List UInt8) : Reached pattern key (some ⟨pattern, key⟩) := by
  rintro _ ⟨⟩
  exact ⟨[], [], List.Forall₂.nil, rfl, rfl⟩

theorem fit {c : UInt8} {behind : List UInt8} {t : Token} (h : Reached pattern (c :: key) retry)
    (hc : t.Accepts c) (htokens : tokens pattern = t :: tokens behind) :
    Reached behind key retry := by
  intro last hlast
  obtain ⟨taken, bytes, htakes, hpattern, hkey⟩ := h last hlast
  refine ⟨taken ++ [t], bytes ++ [c], List.rel_append htakes (List.Forall₂.cons hc .nil), ?_, ?_⟩
  · rw [hpattern, htokens, List.append_assoc, List.singleton_append]
  · rw [hkey, List.append_assoc, List.singleton_append]

theorem goal_of_matches (h : Reached pattern key retry) (hkey : Matches (tokens pattern) key) :
    Goal pattern key retry := by
  cases retry with
  | none => exact hkey
  | some last =>
      obtain ⟨taken, bytes, htakes, hpattern, hbytes⟩ := h last rfl
      rw [Goal, hpattern, hbytes]
      exact (htakes.matches_append.mpr hkey).star

/-- With another star the last one need not be gone back to. -/
theorem matches_star_of_goal (h : Reached pattern key retry) (hgoal : Goal pattern key retry) :
    Matches (.star :: tokens pattern) key := by
  cases retry with
  | none => exact hgoal.star
  | some last =>
      obtain ⟨taken, bytes, htakes, hpattern, hbytes⟩ := h last rfl
      rw [Goal, hpattern, hbytes] at hgoal
      exact htakes.matches_star hgoal

end Reached

theorem search_iff_goal {pattern key : List UInt8} {retry : Option Retry}
    (h : Reached pattern key retry) : search pattern key retry = true ↔ Goal pattern key retry := by
  fun_induction search pattern key retry with
  | case1 pattern retry =>
      rw [all_star_iff]
      exact ⟨h.goal_of_matches, fun hgoal => matches_star_nil.mp (h.matches_star_of_goal hgoal)⟩
  | case2 pattern retry c rest behind hmove ih =>
      have htokens := tokens_of_move_star hmove
      rw [ih (Reached.again behind (c :: rest)), Goal, ← htokens]
      refine ⟨h.goal_of_matches, fun hgoal => ?_⟩
      have hstar := h.matches_star_of_goal hgoal
      rw [htokens] at hstar ⊢
      exact matches_star_star.mp hstar
  | case3 pattern retry c rest behind hmove ih =>
      obtain ⟨t, hc, htokens⟩ := tokens_of_move_fit hmove
      rw [ih (h.fit hc htokens)]
      cases retry with
      | none =>
          have ht : t ≠ .star := by
            rintro rfl
            exact hc
          rw [Goal, Goal, htokens, matches_one_cons ht, and_iff_right hc]
      | some last => rfl
  | case4 pattern c rest hmove behind b left ih =>
      rw [ih (Reached.again behind left), Goal, Goal, matches_star_cons]
      refine ⟨Or.inr, fun hgoal => hgoal.resolve_left fun hmatches => ?_⟩
      obtain ⟨taken, bytes, htakes, hpattern, hbytes⟩ := h _ rfl
      dsimp only at hpattern hbytes
      rw [hpattern, hbytes, htakes.matches_append] at hmatches
      exact not_matches_of_move_fail hmove rest hmatches
  | case5 pattern retry c rest hmove hretry =>
      refine iff_of_false Bool.false_ne_true fun hgoal => ?_
      cases retry with
      | none => exact not_matches_of_move_fail hmove rest hgoal
      | some last =>
          obtain ⟨taken, bytes, -, -, hbytes⟩ := h last rfl
          obtain ⟨b, left, hleft⟩ := List.exists_cons_of_ne_nil
            (hbytes ▸ List.append_ne_nil_of_right_ne_nil bytes (List.cons_ne_nil c rest))
          exact hretry last.pattern b left (by rw [← hleft])

/-- The search decides what the pattern means. -/
theorem matchesKey_iff_matches {pattern key : String} :
    matchesKey pattern key = true ↔ Matches (tokens (Text.utf8 pattern)) (Text.utf8 key) :=
  search_iff_goal (Reached.start _ _)

end Tabular.Glob
