import Mathlib.Data.String.Basic
import Mathlib.Order.Compare
import Mathlib.Tactic.Linarith
import Mathlib.Tactic.Ring
import Tabular.Proofs.Numeral
import Tabular.Proofs.Spelling

/-!
The order of values. Runs of digits without leading zeros are in the order of their numbers if the
longer one counts as the greater and runs of one length are read from the left, so two texts that
denote integers compare as the integers do (`Value.compareIntegers_eq`). The values of every type
have places in a linear order, by which they compare (`ColumnType.exists_rank`); whatever is said of
the places holds of the comparisons, however the values are spelled.
-/

namespace Tabular

/-! ### Runs of digits -/

namespace Text

variable {l r cs : List Char} {c : Char}

theorem foldl_digits_add (cs : List Char) (n : Nat) :
    cs.foldl (fun n c => 10 * n + (c.toNat - '0'.toNat)) n = n * 10 ^ cs.length + ofDigits cs := by
  unfold ofDigits
  induction cs generalizing n with
  | nil => simp
  | cons c cs ih =>
      rw [List.foldl_cons, List.foldl_cons, ih, ih (10 * 0 + _), List.length_cons, pow_succ]
      ring

theorem ofDigits_cons (c : Char) (cs : List Char) :
    ofDigits (c :: cs) = (c.toNat - '0'.toNat) * 10 ^ cs.length + ofDigits cs := by
  rw [ofDigits, List.foldl_cons, Nat.mul_zero, Nat.zero_add, foldl_digits_add]

theorem toNat_of_isDigit (h : c.isDigit = true) : 48 ≤ c.toNat ∧ c.toNat ≤ 57 := by
  simp only [Char.isDigit, Bool.and_eq_true, decide_eq_true_iff] at h
  exact h

theorem ofDigits_lt (h : ∀ c ∈ cs, c.isDigit = true) : ofDigits cs < 10 ^ cs.length := by
  induction cs with
  | nil => exact Nat.one_pos
  | cons c cs ih =>
      have hc := (toNat_of_isDigit (h c List.mem_cons_self)).2
      have hrest := ih fun c' hc' => h c' (List.mem_cons_of_mem c hc')
      have hdigit : (c.toNat - '0'.toNat) * 10 ^ cs.length ≤ 9 * 10 ^ cs.length :=
        Nat.mul_le_mul_right _ (Nat.sub_le_sub_right hc 48)
      rw [ofDigits_cons, List.length_cons, pow_succ]
      omega

/-- A run that starts with another digit than zero is no less than the power of its length. -/
theorem le_ofDigits (hc : c.isDigit = true) (hne : c ≠ '0') :
    10 ^ cs.length ≤ ofDigits (c :: cs) := by
  have hle := (toNat_of_isDigit hc).1
  have hne' : c.toNat ≠ 48 := fun heq => hne (Char.toNat_inj.mp heq)
  have hone : 1 ≤ c.toNat - '0'.toNat := by
    show 1 ≤ c.toNat - 48
    omega
  rw [ofDigits_cons]
  exact Nat.le_add_right_of_le (Nat.le_mul_of_pos_left _ hone)

/-- Leading zeros do not count. -/
theorem ofDigits_dropWhile (cs : List Char) : ofDigits (cs.dropWhile (· = '0')) = ofDigits cs := by
  induction cs with
  | nil => rfl
  | cons c cs ih =>
      by_cases hc : c = '0'
      · subst hc
        exact ih
      · rw [List.dropWhile_cons_of_neg (by simpa using hc)]

/-- A run of digits, none of which is a leading zero. -/
structure Shortest (cs : List Char) : Prop where
  digits : ∀ c ∈ cs, c.isDigit = true
  head : cs.head? ≠ some '0'

theorem Shortest.of_length_lt (hl : Shortest l) (hr : Shortest r) (h : l.length < r.length) :
    ofDigits l < ofDigits r := by
  cases r with
  | nil => exact (Nat.not_lt_zero _ h).elim
  | cons c rest =>
      have hne : c ≠ '0' := fun hc => hr.head (congrArg some hc)
      calc ofDigits l < 10 ^ l.length := ofDigits_lt hl.digits
        _ ≤ 10 ^ rest.length := Nat.pow_le_pow_right (by decide) (Nat.le_of_lt_succ h)
        _ ≤ ofDigits (c :: rest) := le_ofDigits (hr.digits c List.mem_cons_self) hne

theorem Shortest.nil : Shortest [] := ⟨fun _ h => (List.not_mem_nil h).elim, by simp⟩

theorem Shortest.dropWhile (h : ∀ c ∈ cs, c.isDigit = true) :
    Shortest (cs.dropWhile (· = '0')) := by
  refine ⟨fun c hc => h c (List.dropWhile_subset _ hc), fun hhead => ?_⟩
  have hnot := List.head?_dropWhile_not (· = '0') cs
  rw [hhead] at hnot
  cases hnot

/-- Of two runs of one length the first difference decides. -/
theorem ofDigits_lt_of_lt (hl : ∀ c ∈ l, c.isDigit = true) (hr : ∀ c ∈ r, c.isDigit = true)
    (hlength : l.length = r.length) (h : l < r) : ofDigits l < ofDigits r := by
  induction l generalizing r with
  | nil =>
      obtain rfl := List.length_eq_zero_iff.mp hlength.symm
      exact (List.lt_irrefl _ h).elim
  | cons c l ih =>
      cases r with
      | nil => cases hlength
      | cons d r =>
          have hrests : l.length = r.length := Nat.succ.inj hlength
          have hl' : ∀ c' ∈ l, c'.isDigit = true := fun c' hc' => hl c' (List.mem_cons_of_mem c hc')
          have hr' : ∀ c' ∈ r, c'.isDigit = true := fun c' hc' => hr c' (List.mem_cons_of_mem d hc')
          rw [ofDigits_cons, ofDigits_cons, hrests]
          rcases List.cons_lt_cons_iff.mp h with hlt | ⟨rfl, hlt⟩
          · have hdigit : c.toNat - '0'.toNat + 1 ≤ d.toNat - '0'.toNat := by
              have hc := (toNat_of_isDigit (hl c List.mem_cons_self)).1
              have hlt : c.toNat < d.toNat := hlt
              show c.toNat - 48 + 1 ≤ d.toNat - 48
              omega
            have hrest := ofDigits_lt hl'
            rw [hrests] at hrest
            calc (c.toNat - '0'.toNat) * 10 ^ r.length + ofDigits l
                < (c.toNat - '0'.toNat + 1) * 10 ^ r.length := by rw [Nat.succ_mul]; omega
              _ ≤ (d.toNat - '0'.toNat) * 10 ^ r.length := Nat.mul_le_mul_right _ hdigit
              _ ≤ (d.toNat - '0'.toNat) * 10 ^ r.length + ofDigits r := Nat.le_add_right _ _
          · exact Nat.add_lt_add_left (ih hl' hr' hrests hlt) _

/-- So two runs of one length are in the order of their numbers. -/
theorem compareOfLessAndEq_digits (hl : ∀ c ∈ l, c.isDigit = true)
    (hr : ∀ c ∈ r, c.isDigit = true) (hlength : l.length = r.length) :
    compareOfLessAndEq l r = compare (ofDigits l) (ofDigits r) := by
  rcases lt_trichotomy l r with h | rfl | h
  · have hlt := ofDigits_lt_of_lt hl hr hlength h
    rw [compareOfLessAndEq_eq_lt.mpr h, Nat.compare_eq_lt.mpr hlt]
  · rw [Nat.compare_eq_eq.mpr rfl, (compareOfLessAndEq_eq_eq le_refl not_le).mpr rfl]
  · have hlt := ofDigits_lt_of_lt hr hl hlength.symm h
    have hgt := (compareOfLessAndEq_eq_gt le_antisymm le_total not_le l r).mpr h
    rw [hgt, Nat.compare_eq_gt.mpr hlt]

end Text

/-! ### Integers -/

namespace Value

open Text (splitSign ofDigits Shortest)

variable {l r cs : List Char}

/-- Runs of digits without leading zeros are in the order of their numbers. -/
theorem compareMagnitudes_eq (hl : Shortest l) (hr : Shortest r) :
    compareMagnitudes l r = compare (ofDigits l) (ofDigits r) := by
  unfold compareMagnitudes
  rcases Nat.lt_trichotomy l.length r.length with h | h | h
  · rw [Nat.compare_eq_lt.mpr h, Nat.compare_eq_lt.mpr (hl.of_length_lt hr h)]
    rfl
  · rw [Nat.compare_eq_eq.mpr h, Text.compareOfLessAndEq_digits hl.digits hr.digits h]
    rfl
  · rw [Nat.compare_eq_gt.mpr h, Nat.compare_eq_gt.mpr (hr.of_length_lt hl h)]
    rfl

/-- The integer that a sign and a run of digits denote. -/
def Signed.toInt (n : Signed) : Int := if n.negative then -ofDigits n.digits else ofDigits n.digits

/-- The shortest form of an integer: no leading zero, and no sign without a digit. -/
structure Signed.Canonical (n : Signed) : Prop where
  shortest : Shortest n.digits
  sign : n.negative = true → n.digits ≠ []

theorem Signed.Canonical.toInt_neg {n : Signed} (h : n.Canonical) (hneg : n.negative = true) :
    n.toInt < 0 := by
  obtain ⟨negative, digits⟩ := n
  dsimp only at hneg
  subst hneg
  have hpos : 0 < ofDigits digits := by
    cases digits with
    | nil => exact (h.sign rfl rfl).elim
    | cons c rest => exact Shortest.nil.of_length_lt h.shortest (Nat.succ_pos _)
  show -(ofDigits digits : Int) < 0
  omega

theorem Signed.toInt_nonneg {n : Signed} (hneg : n.negative = false) : 0 ≤ n.toInt := by
  rw [toInt, hneg]
  exact Int.natCast_nonneg _

/-- The sign decides first, and below zero the greater magnitude is the less. -/
theorem Signed.compare_eq {l r : Signed} (hl : l.Canonical) (hr : r.Canonical) :
    l.compare r = Ord.compare l.toInt r.toInt := by
  have hpos : Ord.compare (ofDigits l.digits : Int) (ofDigits r.digits : Int) =
      compareMagnitudes l.digits r.digits := by
    rw [compareMagnitudes_eq hl.shortest hr.shortest, ← cmp_eq_compare, ← cmp_eq_compare,
      Nat.strictMono_cast.cmp_map_eq]
  have hneg : Ord.compare (-ofDigits l.digits : Int) (-ofDigits r.digits : Int) =
      (compareMagnitudes l.digits r.digits).swap := by
    rw [← hpos, ← cmp_eq_compare, ← cmp_eq_compare, cmp_swap]
    have hanti : StrictAnti fun n : Int => -n := fun _ _ h => Int.neg_lt_neg h
    exact hanti.cmp_map_eq _ _
  unfold Signed.compare
  cases hln : l.negative <;> cases hrn : r.negative <;> dsimp only
  · rw [toInt, toInt, hln, hrn]
    exact hpos.symm
  · exact (compare_gt_iff_gt.mpr (Int.lt_of_lt_of_le (hr.toInt_neg hrn) (toInt_nonneg hln))).symm
  · exact (compare_lt_iff_lt.mpr (Int.lt_of_lt_of_le (hl.toInt_neg hln) (toInt_nonneg hrn))).symm
  · rw [toInt, toInt, hln, hrn]
    exact hneg.symm

/-- The integer that a text denotes. -/
def integerOf (cs : List Char) : Int :=
  if (splitSign cs).1 then -ofDigits (splitSign cs).2 else ofDigits (splitSign cs).2

/-- The shortest form denotes the same integer. -/
theorem Signed.exists_of_isInteger (h : isInteger cs = true) :
    ∃ n, Signed.ofText? cs = some n ∧ n.Canonical ∧ n.toInt = integerOf cs := by
  refine ⟨_, if_pos h, ?_, ?_⟩
  · have hdigits : ∀ c ∈ (splitSign cs).2, c.isDigit = true :=
      List.all_eq_true.mp (Bool.and_eq_true_iff.mp h).2
    refine ⟨Shortest.dropWhile hdigits, fun hneg => ?_⟩
    rw [Bool.and_eq_true, Bool.not_eq_true', List.isEmpty_eq_false_iff] at hneg
    exact hneg.2
  · have hvalue := Text.ofDigits_dropWhile (splitSign cs).2
    unfold Signed.toInt integerOf
    dsimp only
    rw [hvalue]
    cases hempty : ((splitSign cs).2.dropWhile (· = '0')).isEmpty with
    | false => simp
    | true =>
        -- a run of zeros denotes zero, whatever its sign
        rw [List.isEmpty_iff.mp hempty] at hvalue
        rw [← hvalue]
        simp [ofDigits]

/-- Texts that denote integers compare as the integers do. -/
theorem compareIntegers_eq (hl : isInteger l = true) (hr : isInteger r = true) :
    compareIntegers l r = some (compare (integerOf l) (integerOf r)) := by
  obtain ⟨m, hm, hmc, hmi⟩ := Signed.exists_of_isInteger hl
  obtain ⟨n, hn, hnc, hni⟩ := Signed.exists_of_isInteger hr
  unfold compareIntegers
  rw [hm, hn, ← hmi, ← hni, ← Signed.compare_eq hmc hnc]
  rfl

/-! ### Decimal numbers -/

/-- Every value of a float column denotes a number, so that no two are without an order. -/
theorem exists_rank_of_fixedPoint (h : isFixedPoint cs = true) :
    ∃ rank, binary64Rank? cs = some rank := by
  obtain ⟨d, hd, -⟩ := Decimal.ofText?_padded h
  exact ⟨Binary64.rank d, by rw [binary64Rank?_of_fixedPoint h, hd]; rfl⟩

end Value

namespace ColumnType

/-- The values of a type have places in a linear order, by which they compare. -/
theorem exists_rank (type : ColumnType) : ∃ (α : Type) (_ : LinearOrder α) (rank : String → α),
    ∀ {l r}, type.accepts l = true → type.accepts r = true →
      type.compare l r = some (Ord.compare (rank l) (rank r)) := by
  have htext (l r : String) : some (compareOfLessAndEq l r) = some (Ord.compare l r) := by
    rw [LinearOrder.compare_eq_compareOfLessAndEq]
  cases type with
  | string => exact ⟨String, inferInstance, id, fun _ _ => htext _ _⟩
  | date => exact ⟨String, inferInstance, id, fun _ _ => htext _ _⟩
  | integer =>
      exact ⟨Int, inferInstance, fun v => Value.integerOf v.toList, Value.compareIntegers_eq⟩
  | float =>
      refine ⟨Int, inferInstance, fun v => (Value.binary64Rank? v.toList).getD 0, ?_⟩
      refine fun {l r} hl hr => ?_
      obtain ⟨m, hm⟩ := Value.exists_rank_of_fixedPoint hl
      obtain ⟨n, hn⟩ := Value.exists_rank_of_fixedPoint hr
      unfold compare Value.compareFloats
      simp only [hm, hn, Option.getD_some]
      rfl

end ColumnType

end Tabular
