import Mathlib.Data.List.Basic
import Tabular.Query.Condition

/-!
How a condition is cut out of a text. A text spells a condition if it is the column, the operator
and the value in this order and the operator is the one that wins: the first of two characters or,
if there is none of these anywhere, the first of one. No text spells two conditions, and reading
finds the one that a text spells (`Condition.reading_exact`).
-/

namespace Tabular

namespace Comparison

/-- The operators of two characters. -/
def pairs : List Comparison := [ge, le]

/-- The operators of one character. -/
def signs : List Comparison := [eq, gt, lt]

end Comparison

open Comparison (pairs signs)

namespace Condition

variable {cs before after : List Char} {c : Char} {op : Comparison} {ops : List Comparison}

/-! ### The first operator -/

/-- One of these operators starts at this place. -/
def StartsAt (ops : List Comparison) (cs : List Char) (i : Nat) : Prop :=
  ∃ op ∈ ops, op.symbol.toList <+: cs.drop i

theorem startsAt_zero :
    StartsAt ops cs 0 ↔ ∃ op ∈ ops, ∃ after, cs = op.symbol.toList ++ after := by
  simp only [StartsAt, List.drop_zero, List.IsPrefix, eq_comm]

theorem startsAt_succ {i : Nat} : StartsAt ops (c :: cs) (i + 1) ↔ StartsAt ops cs i := Iff.rfl

theorem symbol_append_ne_nil (op : Comparison) (after : List Char) :
    op.symbol.toList ++ after ≠ [] := by
  cases op <;> exact List.cons_ne_nil _ _

/-- A function that looks for these operators at one place after the other. -/
structure CutsAt (ops : List Comparison)
    (cut : List Char → Option (List Char × Comparison × List Char)) : Prop where
  nil : cut [] = none
  here : ∀ op ∈ ops, ∀ after, cut (op.symbol.toList ++ after) = some ([], op, after)
  later : ∀ c cs, ¬ StartsAt ops (c :: cs) 0 →
    cut (c :: cs) = (cut cs).map fun found => (c :: found.1, found.2)

theorem cutsAt_pair : CutsAt pairs cutAtPair where
  nil := rfl
  here op hop after := by
    simp only [pairs, List.mem_cons, List.not_mem_nil, or_false] at hop
    rcases hop with rfl | rfl <;> rfl
  later c cs h := by
    rw [cutAtPair]
    · rintro rest rfl rfl
      exact h ⟨.ge, by decide, List.prefix_append _ _⟩
    · rintro rest rfl rfl
      exact h ⟨.le, by decide, List.prefix_append _ _⟩

theorem cutsAt_sign : CutsAt signs cutAtSign where
  nil := rfl
  here op hop after := by
    simp only [signs, List.mem_cons, List.not_mem_nil, or_false] at hop
    rcases hop with rfl | rfl | rfl <;> rfl
  later c cs h := by
    rw [cutAtSign]
    · rintro rfl
      exact h ⟨.eq, by decide, List.prefix_append _ _⟩
    · rintro rfl
      exact h ⟨.gt, by decide, List.prefix_append _ _⟩
    · rintro rfl
      exact h ⟨.lt, by decide, List.prefix_append _ _⟩

namespace CutsAt

variable {cut : List Char → Option (List Char × Comparison × List Char)}

/-- The cut is at an operator before which none starts. -/
theorem eq_some_iff (hcut : CutsAt ops cut) : cut cs = some (before, op, after) ↔
    op ∈ ops ∧ cs = before ++ op.symbol.toList ++ after ∧
      ∀ i < before.length, ¬ StartsAt ops cs i := by
  induction cs generalizing before with
  | nil =>
      rw [hcut.nil]
      refine iff_of_false (fun h => by cases h) ?_
      rintro ⟨-, h, -⟩
      rw [List.append_assoc, eq_comm, List.append_eq_nil_iff] at h
      exact symbol_append_ne_nil op after h.2
  | cons c rest ih =>
      by_cases hzero : StartsAt ops (c :: rest) 0
      · obtain ⟨op', hop', after', heq⟩ := startsAt_zero.mp hzero
        rw [heq, hcut.here op' hop']
        constructor
        · intro h
          cases h
          exact ⟨hop', rfl, fun i hi => (Nat.not_lt_zero i hi).elim⟩
        · rintro ⟨hop, h, hfirst⟩
          cases before with
          | nil =>
              rw [← hcut.here op' hop', h]
              exact hcut.here op hop after
          | cons b before => exact (hfirst 0 (Nat.succ_pos _) (heq ▸ hzero)).elim
      · rw [hcut.later c rest hzero]
        cases before with
        | nil =>
            refine iff_of_false (fun h => ?_) fun ⟨hop, h, _⟩ => ?_
            · obtain ⟨found, -, h⟩ := Option.map_eq_some_iff.mp h
              cases h
            · exact hzero (startsAt_zero.mpr ⟨op, hop, after, h⟩)
        | cons b before =>
            -- a cut of the rest, with the character before it
            have hmap : (cut rest).map (fun found => (c :: found.1, found.2)) =
                some (b :: before, op, after) ↔ c = b ∧ cut rest = some (before, op, after) := by
              cases cut rest <;> simp [Prod.ext_iff, and_assoc]
            simp only [hmap, ih, List.cons_append, List.cons.injEq, List.length_cons,
              Nat.forall_lt_succ_left, startsAt_succ, hzero, not_false_iff, true_and]
            tauto

theorem eq_none_iff (hcut : CutsAt ops cut) : cut cs = none ↔ ∀ i, ¬ StartsAt ops cs i := by
  induction cs with
  | nil =>
      refine iff_of_true hcut.nil ?_
      rintro i ⟨op, -, h⟩
      rw [List.drop_nil, List.prefix_nil] at h
      cases op <;> cases h
  | cons c rest ih =>
      by_cases hzero : StartsAt ops (c :: rest) 0
      · obtain ⟨op, hop, after, heq⟩ := startsAt_zero.mp hzero
        rw [heq, hcut.here op hop]
        exact iff_of_false (fun h => by cases h) fun h => h 0 (heq ▸ hzero)
      · rw [hcut.later c rest hzero, Option.map_eq_none_iff, ih]
        refine ⟨fun h i => ?_, fun h i => h (i + 1)⟩
        cases i with
        | zero => exact hzero
        | succ i => exact h i

end CutsAt

/-! ### The operator that wins -/

/-- The operator at which a text is cut, behind this part of the text. -/
inductive Wins (cs before : List Char) (op : Comparison) : Prop
  /-- None of two characters starts earlier. -/
  | pair (hop : op ∈ pairs) (hfirst : ∀ i < before.length, ¬ StartsAt pairs cs i)
  /-- The text has none of two characters, and the part none of one. -/
  | sign (hop : op ∈ signs) (hnone : ∀ i, ¬ StartsAt pairs cs i)
      (hfirst : ∀ c ∈ before, c ∉ ['=', '>', '<'])

theorem forall_not_startsAt_signs (cs : List Char) :
    (∀ i < before.length, ¬ StartsAt signs (before ++ cs) i) ↔
      ∀ c ∈ before, c ∉ ['=', '>', '<'] := by
  have hzero (c : Char) (cs : List Char) :
      StartsAt signs (c :: cs) 0 ↔ c ∈ ['=', '>', '<'] := by
    simp [StartsAt, signs, Comparison.symbol, eq_comm]
  induction before with
  | nil => simp
  | cons c before ih =>
      rw [List.cons_append, List.length_cons, Nat.forall_lt_succ_left, List.forall_mem_cons, hzero]
      exact and_congr_right fun _ => ih

theorem cut_eq_some_iff : (cutAtPair cs <|> cutAtSign cs) = some (before, op, after) ↔
    cs = before ++ op.symbol.toList ++ after ∧ Wins cs before op := by
  rw [Option.orElse_eq_orElse, Option.orElse_eq_or, Option.or_eq_some_iff, cutsAt_pair.eq_some_iff,
    cutsAt_pair.eq_none_iff, cutsAt_sign.eq_some_iff]
  constructor
  · rintro (⟨hop, hcs, hfirst⟩ | ⟨hnone, hop, hcs, hfirst⟩)
    · exact ⟨hcs, .pair hop hfirst⟩
    · rw [hcs, List.append_assoc, forall_not_startsAt_signs] at hfirst
      exact ⟨hcs, .sign hop hnone hfirst⟩
  · rintro ⟨hcs, ⟨hop, hfirst⟩ | ⟨hop, hnone, hfirst⟩⟩
    · exact Or.inl ⟨hop, hcs, hfirst⟩
    · refine Or.inr ⟨hnone, hop, hcs, ?_⟩
      rw [hcs, List.append_assoc, forall_not_startsAt_signs]
      exact hfirst

/-- A text is a condition written out, cut at the operator that wins. -/
structure Spelled (c : Condition) (text : String) : Prop where
  text_eq : text = c.column ++ c.op.symbol ++ c.value
  column_ne : c.column ≠ ""
  value_ne : c.value ≠ ""
  wins : Wins text.toList c.column.toList c.op

variable {text : String}

theorem ofText?_eq_some_iff {c : Condition} : ofText? text = some c ↔ c.Spelled text := by
  obtain ⟨column, op, value⟩ := c
  have hcut (before after : List Char) :
      (cutAtPair text.toList <|> cutAtSign text.toList) = some (before, op, after) ↔
        text = String.ofList before ++ op.symbol ++ String.ofList after ∧
          Wins text.toList before op := by
    rw [cut_eq_some_iff, ← String.toList_inj]
    simp only [String.toList_append, String.toList_ofList]
  constructor
  · intro h
    obtain ⟨⟨before, op', after⟩, hfound, h⟩ := Option.bind_eq_some_iff.mp h
    obtain ⟨hempty, h⟩ := Option.ite_none_left_eq_some.mp h
    cases h
    obtain ⟨htext, hwins⟩ := (hcut before after).mp hfound
    simp only [Bool.or_eq_true, List.isEmpty_iff, not_or] at hempty
    refine ⟨htext, ?_, ?_, ?_⟩
    · simpa using hempty.1
    · simpa using hempty.2
    · simpa using hwins
  · rintro ⟨htext, hcolumn, hvalue, hwins⟩
    have hfound := (hcut column.toList value.toList).mpr
      ⟨by rw [String.ofList_toList, String.ofList_toList, htext], hwins⟩
    unfold ofText?
    rw [hfound]
    simp [hcolumn, hvalue]

theorem parse_eq_ok_iff {c : Condition} : parse text = .ok c ↔ c.Spelled text := by
  rw [← ofText?_eq_some_iff, parse]
  cases ofText? text <;> simp

/-- A condition written out is the text it was read from. -/
theorem render_of_parse {c : Condition} (h : parse text = .ok c) : c.render = text :=
  (parse_eq_ok_iff.mp h).text_eq.symm

theorem parse_eq_error_iff {e : Error} : parse text = .error e ↔
    e = .malformedCondition text ∧ ∀ c : Condition, ¬ c.Spelled text := by
  simp only [← ofText?_eq_some_iff, ← Option.eq_none_iff_forall_ne_some, parse]
  cases ofText? text <;> simp [eq_comm]

/-- An assignment is read as the condition with the same text. -/
theorem parseAssignment_eq_ok_iff {column value : String} :
    parseAssignment text = .ok (column, value) ↔
      (⟨column, .eq, value⟩ : Condition).Spelled text := by
  rw [← ofText?_eq_some_iff]
  constructor
  · intro h
    unfold parseAssignment at h
    split at h
    · next column' value' hread =>
        cases h
        exact hread
    · cases h
  · intro h
    rw [parseAssignment, h]

/-- A text is read as a condition if and only if it is that condition written out, column and value
are not empty, and no operator but the one between them wins; any other text is malformed, and the
text can be got back from the condition. A column and a value joined by an equality sign are read as
an assignment of the value to the column if and only if there is no operator of two characters in
the text. -/
theorem reading_exact (text : String) :
    (∀ c : Condition, parse text = .ok c ↔ c.Spelled text) ∧
    (∀ e, parse text = .error e ↔ e = .malformedCondition text ∧
      ∀ c : Condition, ¬ c.Spelled text) ∧
    (∀ c : Condition, parse text = .ok c → c.render = text) ∧
    ∀ column value, column ≠ "" → (∀ c ∈ column.toList, c ∉ ['=', '>', '<']) → value ≠ "" →
      text = column ++ "=" ++ value →
      (parseAssignment text = .ok (column, value) ↔ ∀ i, ¬ StartsAt pairs text.toList i) := by
  refine ⟨fun c => parse_eq_ok_iff, fun e => parse_eq_error_iff, fun c => render_of_parse,
    fun column value hcolumn hplain hvalue htext => ?_⟩
  rw [parseAssignment_eq_ok_iff]
  constructor
  · rintro ⟨-, -, -, ⟨hop, -⟩ | ⟨-, hnone, -⟩⟩
    · exact absurd hop (show Comparison.eq ∉ pairs by decide)
    · exact hnone
  · have hop : Comparison.eq ∈ signs := by decide
    exact fun hnone => ⟨htext, hcolumn, hvalue, .sign hop hnone hplain⟩

/-- Signs in the value of an assignment are part of it. -/
theorem sample_reading_exact :
    parseAssignment "note=a>b=c" = .ok ("note", "a>b=c") ∧
      (⟨"note=a", .ge, "b<=c"⟩ : Condition).render = "note=a>=b<=c" := by
  have hplain : ∀ c ∈ "note".toList, c ∉ ['=', '>', '<'] := by simp
  have hnone : ∀ i, ¬ StartsAt pairs "note=a>b=c".toList i := cutsAt_pair.eq_none_iff.mp rfl
  refine ⟨?_, ?_⟩
  · exact ((reading_exact "note=a>b=c").2.2.2 "note" "a>b=c" (by decide) hplain (by decide)
      rfl).mpr hnone
  · exact (reading_exact "note=a>=b<=c").2.2.1 _ rfl

/-- Two characters win over an earlier one. -/
example : parse "a=b>=c" = .ok ⟨"a=b", .ge, "c"⟩ := by rfl

end Condition

end Tabular
