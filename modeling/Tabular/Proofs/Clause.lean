import Mathlib
import Tabular.Proofs.Condition
import Tabular.Proofs.Planning

/-!
Clauses and the words that spell them: conditions at the even places and, between them, connectives
in any case. The words that spell a clause are read as this clause, among them the words that it is
written out with; any other words are refused for the leftmost place at fault, where the end of the
words is at fault if a condition is missing there (`WhereClause.clause_exact`).
-/

namespace Tabular

/-! ### Capital and small letters -/

namespace Text

/-- A letter that becomes this capital is the capital or its small letter. -/
theorem toUpper_eq_iff {letter capital : Char} (h : capital.isUpper = true) :
    letter.toUpper = capital ↔ letter = capital ∨ letter = capital.toLower := by
  constructor
  · rintro rfl
    by_cases hlower : letter.isLower = true
    · have hself := Char.toLower_eq_of_not_isUpper (Char.not_isUpper_of_isLower hlower)
      exact Or.inr (by rw [Char.toLower_toUpper_eq_toLower, hself])
    · exact Or.inl (Char.toUpper_eq_of_not_isLower hlower).symm
  · have hself := Char.toUpper_eq_of_not_isLower (Char.not_isLower_of_isUpper h)
    rintro (rfl | rfl)
    · exact hself
    · rw [Char.toUpper_toLower_eq_toUpper, hself]

end Text

namespace Connective

/-- The word of a connective, each of its letters capital or small. -/
def Spelled (c : Connective) (word : String) : Prop :=
  List.Forall₂ (fun capital letter => letter = capital ∨ letter = capital.toLower)
    c.word.toList word.toList

instance (c : Connective) (word : String) : Decidable (c.Spelled word) :=
  inferInstanceAs (Decidable (List.Forall₂ _ _ _))

theorem spelled_iff {c : Connective} {word : String} : c.Spelled word ↔ c.word = word.toUpper := by
  have hcapitals : ∀ capital ∈ c.word.toList, capital.isUpper = true := by
    cases c <;> simp [Connective.word]
  have hletters {capitals letters : List Char}
      (h : ∀ capital ∈ capitals, capital.isUpper = true) :
      List.Forall₂ (fun capital letter => letter = capital ∨ letter = capital.toLower)
        capitals letters ↔ capitals = letters.map Char.toUpper := by
    induction capitals generalizing letters with
    | nil => cases letters <;> simp
    | cons capital capitals ih =>
        obtain ⟨hcapital, hrest⟩ := List.forall_mem_cons.mp h
        cases letters with
        | nil => simp
        | cons letter letters =>
            rw [List.forall₂_cons, ih hrest, ← Text.toUpper_eq_iff hcapital, List.map_cons,
              List.cons.injEq, eq_comm]
  rw [Spelled, hletters hcapitals, ← String.toList_inj, String.toUpper, String.toList_map]

theorem spelled_word (c : Connective) : c.Spelled c.word := by cases c <;> decide

theorem ofWord?_eq_some_iff {c : Connective} {word : String} :
    ofWord? word = some c ↔ c.Spelled word := by
  rw [spelled_iff, ofWord?]
  constructor
  · intro h
    have hfound := List.find?_some h
    exact of_decide_eq_true hfound
  · intro h
    have hne : Connective.and.word ≠ Connective.or.word := by decide
    cases c <;> simp [← h, hne]

theorem ofWord?_eq_none_iff {word : String} :
    ofWord? word = none ↔ ∀ c : Connective, ¬ c.Spelled word := by
  simp only [← ofWord?_eq_some_iff, Option.eq_none_iff_forall_ne_some, ne_eq]

end Connective

namespace WhereClause

/-! ### Words that spell a clause -/

/-- The words of what follows the first condition. -/
inductive SpelledRest : List (Connective × Condition) → List String → Prop
  | nil : SpelledRest [] []
  | cons {connective : Connective} {condition : Condition} {word text : String}
      {rest : List (Connective × Condition)} {words : List String}
      (hword : connective.Spelled word) (htext : Condition.parse text = .ok condition)
      (h : SpelledRest rest words) :
      SpelledRest ((connective, condition) :: rest) (word :: text :: words)

/-- The words of a clause. -/
inductive Spelled : WhereClause → List String → Prop
  | mk {first : Condition} {text : String} {rest : List (Connective × Condition)}
      {words : List String} (hfirst : Condition.parse text = .ok first)
      (h : SpelledRest rest words) : Spelled ⟨first, rest⟩ (text :: words)

variable {w : WhereClause} {words : List String} {rest : List (Connective × Condition)}

theorem parseRest_of_ofWord?_eq_none {word : String} (h : Connective.ofWord? word = none) :
    parseRest (word :: words) = .error (.badSyntax (.expectedConnective word)) := by
  cases words <;> simp [parseRest, h, throw, throwThe, MonadExceptOf.throw]

theorem parseRest_of_ofWord?_eq_some {connective : Connective} {word text : String}
    (h : Connective.ofWord? word = some connective) :
    parseRest (word :: text :: words) = do
      let condition ← Condition.parse text
      return (connective, condition) :: (← parseRest words) := by
  simp only [parseRest, h]

theorem parseRest_of_spelled (h : SpelledRest rest words) : parseRest words = .ok rest := by
  induction h with
  | nil => rfl
  | cons hword htext _ ih =>
      rw [parseRest_of_ofWord?_eq_some (Connective.ofWord?_eq_some_iff.mpr hword), htext, ih]
      rfl

theorem spelledRest_of_parse (h : parseRest words = .ok rest) : SpelledRest rest words := by
  induction words using List.twoStepInduction generalizing rest with
  | nil =>
      cases h
      exact .nil
  | singleton word =>
      unfold parseRest at h
      split at h <;> cases h
  | cons_cons word text words ih _ =>
      cases hword : Connective.ofWord? word with
      | none =>
          rw [parseRest_of_ofWord?_eq_none hword] at h
          cases h
      | some connective =>
          rw [parseRest_of_ofWord?_eq_some hword] at h
          obtain ⟨condition, htext, h⟩ := bind_eq_ok.mp h
          obtain ⟨rest', hrest, h⟩ := bind_eq_ok.mp h
          cases h
          exact .cons (Connective.ofWord?_eq_some_iff.mp hword) htext (ih hrest)

theorem parse_eq_ok_iff : parse words = .ok w ↔ w.Spelled words := by
  constructor
  · intro h
    cases words with
    | nil => cases h
    | cons text words =>
        obtain ⟨first, hfirst, h⟩ := bind_eq_ok.mp h
        obtain ⟨rest, hrest, h⟩ := bind_eq_ok.mp h
        cases h
        exact .mk hfirst (spelledRest_of_parse hrest)
  · rintro ⟨hfirst, hrest⟩
    rw [parse, hfirst, parseRest_of_spelled hrest]
    rfl

/-- The words that a clause is written out with spell it. -/
theorem Spelled.render (h : w.Spelled words) : w.Spelled w.render := by
  have hcondition {text : String} {c : Condition} (h : Condition.parse text = .ok c) :
      Condition.parse c.render = .ok c := by rw [Condition.render_of_parse h, h]
  obtain ⟨hfirst, hrest⟩ := h
  refine .mk (hcondition hfirst) ?_
  induction hrest with
  | nil => exact .nil
  | cons _ htext _ ih => exact .cons (Connective.spelled_word _) (hcondition htext) ih

/-! ### Places -/

/-- The connectives between the conditions, in order. -/
def connectives (w : WhereClause) : List Connective := w.rest.map (·.1)

/-- A connective and a condition stand at two places of the words that follow the first. -/
theorem SpelledRest.at (h : SpelledRest rest words) (i : Nat) :
    Option.Rel (fun c word => c.1.Spelled word) rest[i]? words[2 * i]? ∧
      Option.Rel (fun c text => Condition.parse text = .ok c.2) rest[i]? words[2 * i + 1]? := by
  induction h generalizing i with
  | nil => exact ⟨.none, .none⟩
  | cons hword htext _ ih =>
      cases i with
      | zero => exact ⟨.some hword, .some htext⟩
      | succ i => exact ih i

theorem rel_map {α β γ : Type} {r : β → γ → Prop} {f : α → β} {a : Option α} {c : Option γ}
    (h : Option.Rel (fun x y => r (f x) y) a c) : Option.Rel r (a.map f) c := by
  cases h with
  | none => exact .none
  | some h => exact .some h

theorem map_eq_of_rel {α β γ : Type} {r : α → β → Prop} {f : α → γ} {g : β → γ} {a : Option α}
    {b : Option β} (h : Option.Rel r a b) (hr : ∀ x y, r x y → f x = g y) : a.map f = b.map g := by
  cases h with
  | none => rfl
  | some h => exact congrArg some (hr _ _ h)

/-- The conditions stand at the even places. -/
theorem Spelled.conditions_at (h : w.Spelled words) (i : Nat) :
    Option.Rel (fun c text => Condition.parse text = .ok c) w.conditions[i]? words[2 * i]? := by
  obtain @⟨first, text, rest, words, hfirst, hrest⟩ := h
  cases i with
  | zero => exact .some hfirst
  | succ i =>
      have hplace : (text :: words)[2 * (i + 1)]? = words[2 * i + 1]? := rfl
      rw [hplace, conditions, List.getElem?_cons_succ, List.getElem?_map]
      exact rel_map (hrest.at i).2

/-- The connectives stand at the odd places. -/
theorem Spelled.connectives_at (h : w.Spelled words) (i : Nat) :
    Option.Rel Connective.Spelled w.connectives[i]? words[2 * i + 1]? := by
  obtain @⟨first, text, rest, words, hfirst, hrest⟩ := h
  rw [List.getElem?_cons_succ, connectives, List.getElem?_map]
  exact rel_map (hrest.at i).1

/-- Two lists of words that spell one clause differ in the case of the connectives only. -/
theorem Spelled.agree {words' : List String} (h : w.Spelled words) (h' : w.Spelled words')
    (i : Nat) : words[2 * i]? = words'[2 * i]? ∧
      (words[2 * i + 1]?).map String.toUpper = (words'[2 * i + 1]?).map String.toUpper := by
  have hcondition {l : List String} (h : w.Spelled l) :
      (w.conditions[i]?).map Condition.render = l[2 * i]? := by
    rw [map_eq_of_rel (h.conditions_at i) fun _ _ => Condition.render_of_parse, Option.map_id']
  have hconnective {l : List String} (h : w.Spelled l) :
      (w.connectives[i]?).map Connective.word = (l[2 * i + 1]?).map String.toUpper :=
    map_eq_of_rel (h.connectives_at i) fun _ _ => Connective.spelled_iff.mp
  rw [← hcondition h, ← hcondition h', ← hconnective h, ← hconnective h']
  exact ⟨rfl, rfl⟩

/-! ### The place at fault -/

/-- What is wrong at a place among these words, or behind the last of them. -/
def faultAt? (words : List String) (i : Nat) : Option Error :=
  match words[i]? with
  | some word =>
      if i % 2 = 0 then
        match Condition.parse word with
        | .ok _ => none
        | .error e => some e
      else if Connective.and.Spelled word ∨ Connective.or.Spelled word then none
      else some (.badSyntax (.expectedConnective word))
  | none =>
      -- a condition is missing
      if i = words.length ∧ i % 2 = 0 then
        some (.badSyntax (if i = 0 then .emptyWhere else .danglingConnective))
      else none

section
variable {text word text' : String} {e : Error} {i : Nat}

/-- The place of a connective is at fault if the word there is none. -/
theorem faultAt?_odd_eq_none_iff (hi : i % 2 = 1) (hword : words[i]? = some word) :
    faultAt? words i = none ↔ ∃ c : Connective, c.Spelled word := by
  have hone : (∃ c : Connective, c.Spelled word) ↔
      Connective.and.Spelled word ∨ Connective.or.Spelled word :=
    ⟨fun ⟨c, h⟩ => by cases c <;> simp [h], fun h => h.elim (⟨_, ·⟩) (⟨_, ·⟩)⟩
  simp [faultAt?, hword, hi, hone, or_iff_not_imp_left]

theorem faultAt?_odd_of_not_spelled (hi : i % 2 = 1) (hword : words[i]? = some word)
    (h : ∀ c : Connective, ¬ c.Spelled word) :
    faultAt? words i = some (.badSyntax (.expectedConnective word)) := by
  simp [faultAt?, hword, hi, h]

/-- The place of a condition is at fault if the word there is none. -/
theorem faultAt?_even_eq_some_iff (hi : i % 2 = 0) (hword : words[i]? = some word) :
    faultAt? words i = some e ↔ Condition.parse word = .error e := by
  simp only [faultAt?, hword, hi, if_true]
  cases Condition.parse word <;> simp

theorem faultAt?_even_eq_none_iff (hi : i % 2 = 0) (hword : words[i]? = some word) :
    faultAt? words i = none ↔ ∃ c, Condition.parse word = .ok c := by
  rw [exists_eq_ok_iff, Option.eq_none_iff_forall_ne_some]
  exact forall_congr' fun e => not_congr (faultAt?_even_eq_some_iff hi hword)

/-- Two words in front change nothing behind them. -/
theorem faultAt?_add_three (i : Nat) :
    faultAt? (text :: word :: text' :: words) (i + 3) = faultAt? (text' :: words) (i + 1) := by
  have hparity : (i + 3) % 2 = (i + 1) % 2 := by omega
  simp [faultAt?, hparity]

/-- The leftmost fault behind the first word is that of the connective, or else that of the
condition, or else one behind these two. -/
theorem leftmost_tail_iff : Leftmost (fun i => faultAt? words (i + 1)) e ↔
    faultAt? words 1 = some e ∨ faultAt? words 1 = none ∧
      (faultAt? words 2 = some e ∨ faultAt? words 2 = none ∧
        Leftmost (fun i => faultAt? words (i + 3)) e) := by
  rw [leftmost_iff, leftmost_iff]

/-- A word that is no connective is at fault where a connective should stand. -/
theorem parseRest_eq_error_iff_of_not_connective (hword : Connective.ofWord? word = none) :
    parseRest (word :: words) = .error e ↔
      Leftmost (fun i => faultAt? (text :: word :: words) (i + 1)) e := by
  have hexpected : faultAt? (text :: word :: words) 1 =
      some (.badSyntax (.expectedConnective word)) :=
    faultAt?_odd_of_not_spelled rfl rfl (Connective.ofWord?_eq_none_iff.mp hword)
  rw [parseRest_of_ofWord?_eq_none hword, leftmost_tail_iff, hexpected]
  simp

theorem parseRest_eq_error_iff : parseRest words = .error e ↔
    Leftmost (fun i => faultAt? (text :: words) (i + 1)) e := by
  induction words using List.twoStepInduction generalizing text with
  | nil =>
      refine iff_of_false (fun h => by cases h) ?_
      rintro ⟨i, hi, -⟩
      have hnone : faultAt? [text] (i + 1) = none := by
        have hodd : ¬ (i = 0 ∧ (i + 1) % 2 = 0) := by omega
        simp [faultAt?, hodd]
      cases hnone.symm.trans hi
  | singleton word =>
      cases hword : Connective.ofWord? word with
      | none => exact parseRest_eq_error_iff_of_not_connective hword
      | some connective =>
          have hconnective : faultAt? [text, word] 1 = none :=
            (faultAt?_odd_eq_none_iff rfl rfl).mpr
              ⟨connective, Connective.ofWord?_eq_some_iff.mp hword⟩
          have hend : faultAt? [text, word] 2 = some (.badSyntax .danglingConnective) := rfl
          rw [leftmost_tail_iff, hconnective, hend]
          simp [parseRest, hword, throw, throwThe, MonadExceptOf.throw]
  | cons_cons word text' words ih _ =>
      cases hword : Connective.ofWord? word with
      | none => exact parseRest_eq_error_iff_of_not_connective hword
      | some connective =>
          have hconnective : faultAt? (text :: word :: text' :: words) 1 = none :=
            (faultAt?_odd_eq_none_iff rfl rfl).mpr
              ⟨connective, Connective.ofWord?_eq_some_iff.mp hword⟩
          rw [parseRest_of_ofWord?_eq_some hword, leftmost_tail_iff, hconnective,
            faultAt?_even_eq_some_iff rfl rfl, faultAt?_even_eq_none_iff rfl rfl, bind_eq_error]
          simp only [faultAt?_add_three, ← ih, bind_pure_eq_error, exists_and_right, reduceCtorEq,
            false_or, true_and]

theorem parse_eq_error_iff : parse words = .error e ↔ Leftmost (faultAt? words) e := by
  rw [leftmost_iff]
  cases words with
  | nil =>
      have hempty : faultAt? [] 0 = some (.badSyntax .emptyWhere) := rfl
      rw [hempty]
      simp [parse, throw, throwThe, MonadExceptOf.throw]
  | cons text words =>
      rw [parse, bind_eq_error, faultAt?_even_eq_some_iff rfl rfl,
        faultAt?_even_eq_none_iff rfl rfl, ← parseRest_eq_error_iff]
      simp only [bind_pure_eq_error, exists_and_right]

end

/-- No place is at fault if the number of the words is odd and all of them are in order. -/
theorem forall_faultAt?_eq_none_iff : (∀ i, faultAt? words i = none) ↔
    words.length % 2 = 1 ∧
    (∀ i word, words[2 * i]? = some word → ∃ c, Condition.parse word = .ok c) ∧
    ∀ i word, words[2 * i + 1]? = some word → ∃ c : Connective, c.Spelled word := by
  have heven (i : Nat) : 2 * i % 2 = 0 := by omega
  have hodd (i : Nat) : (2 * i + 1) % 2 = 1 := by omega
  constructor
  · refine fun h => ⟨?_, fun i word hword => ?_, fun i word hword => ?_⟩
    · have hend := h words.length
      rcases Nat.mod_two_eq_zero_or_one words.length with hlength | hlength
      · simp [faultAt?, hlength] at hend
      · exact hlength
    · exact (faultAt?_even_eq_none_iff (heven i) hword).mp (h (2 * i))
    · exact (faultAt?_odd_eq_none_iff (hodd i) hword).mp (h (2 * i + 1))
  · rintro ⟨hlength, hconditions, hconnectives⟩ i
    cases hword : words[i]? with
    | none =>
        have hend : ¬ (i = words.length ∧ i % 2 = 0) := by omega
        simp [faultAt?, hword, hend]
    | some word =>
        obtain ⟨k, rfl | rfl⟩ := i.even_or_odd'
        · exact (faultAt?_even_eq_none_iff (heven k) hword).mpr (hconditions k word hword)
        · exact (faultAt?_odd_eq_none_iff (hodd k) hword).mpr (hconnectives k word hword)

/-- Words are read as a clause if and only if their number is odd, those at even places are
conditions and those at odd places connectives. The clause has these conditions and connectives in
order; written out it is read as itself, and the words differ from those that were read in the case
of the connectives only. Any other words are refused for the leftmost place at fault. -/
theorem clause_exact (words : List String) :
    ((∃ w, parse words = .ok w) ↔
      words.length % 2 = 1 ∧
      (∀ i word, words[2 * i]? = some word → ∃ c, Condition.parse word = .ok c) ∧
      ∀ i word, words[2 * i + 1]? = some word → ∃ c : Connective, c.Spelled word) ∧
    (∀ w, parse words = .ok w →
      (∀ i, Option.Rel (fun c word => Condition.parse word = .ok c)
        w.conditions[i]? words[2 * i]?) ∧
      (∀ i, Option.Rel Connective.Spelled w.connectives[i]? words[2 * i + 1]?) ∧
      parse w.render = .ok w ∧
      ∀ i, w.render[2 * i]? = words[2 * i]? ∧
        (w.render[2 * i + 1]?).map String.toUpper = (words[2 * i + 1]?).map String.toUpper) ∧
    ∀ e, parse words = .error e ↔ Leftmost (faultAt? words) e := by
  refine ⟨?_, fun w h => ?_, fun e => parse_eq_error_iff⟩
  · rw [exists_eq_ok_iff, ← forall_faultAt?_eq_none_iff, ← forall_not_leftmost_iff]
    exact forall_congr' fun e => not_congr parse_eq_error_iff
  · have hspelled := parse_eq_ok_iff.mp h
    exact ⟨hspelled.conditions_at, hspelled.connectives_at, parse_eq_ok_iff.mpr hspelled.render,
      hspelled.render.agree hspelled⟩

/-- Connectives in small letters are written out in capitals. A connective may be a column. -/
theorem sample_clause_exact :
    let words := ["age>=30", "and", "name=x", "Or", "AND=OR"]
    let w : WhereClause :=
      ⟨⟨"age", .ge, "30"⟩, [(.and, ⟨"name", .eq, "x"⟩), (.or, ⟨"AND", .eq, "OR"⟩)]⟩
    parse words = .ok w ∧ w.render = ["age>=30", "AND", "name=x", "OR", "AND=OR"] ∧
      parse w.render = .ok w := by
  intro words w
  have hparse : parse words = .ok w := by cbv
  exact ⟨hparse, by decide, ((clause_exact words).2.1 w hparse).2.2.1⟩

end WhereClause

end Tabular
