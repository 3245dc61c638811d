import Mathlib.Data.List.TakeWhile
import Tabular.Value.ColumnType

/-!
Values and their spellings. A text or a date is equal to no other one, while a number with one more
leading zero is another text and the same number. So equality of texts and equality of values are
the same thing for some types only, the types that are `Verbatim`.
-/

namespace Tabular

namespace Value

open Text (splitSign isDigits ofDigits)

/-- The same number with one more leading zero. -/
def padded : List Char → List Char
  | '-' :: rest => '-' :: '0' :: rest
  | '+' :: rest => '+' :: '0' :: rest
  | cs => '0' :: cs

theorem length_padded (cs : List Char) : (padded cs).length = cs.length + 1 := by
  unfold padded
  split <;> rfl

theorem splitSign_padded (cs : List Char) :
    splitSign (padded cs) = ((splitSign cs).1, '0' :: (splitSign cs).2) := by
  unfold padded
  split
  · rfl
  · rfl
  · next hminus hplus =>
      have hsign : splitSign cs = (false, cs) := by
        unfold splitSign
        split
        · exact (hminus _ rfl).elim
        · exact (hplus _ rfl).elim
        · rfl
      rw [hsign]
      rfl

/-! ### Integers -/

theorem isInteger_padded {cs : List Char} (h : isInteger cs = true) :
    isInteger (padded cs) = true := by
  unfold isInteger isDigits at *
  rw [Bool.and_eq_true] at h
  rw [splitSign_padded, List.all_cons, h.2]
  rfl

theorem Signed.ofText?_padded {cs : List Char} (h : isInteger cs = true) :
    Signed.ofText? (padded cs) = Signed.ofText? cs := by
  have hdrop (ds : List Char) : ('0' :: ds).dropWhile (· = '0') = ds.dropWhile (· = '0') := rfl
  unfold Signed.ofText?
  rw [if_pos h, if_pos (isInteger_padded h), splitSign_padded]
  dsimp only
  rw [hdrop]

theorem Signed.compare_self (n : Signed) : n.compare n = .eq := by
  have hmagnitude : compareMagnitudes n.digits n.digits = .eq := by
    simp [compareMagnitudes, compareOfLessAndEq]
  unfold Signed.compare
  cases n.negative <;> simp [hmagnitude]

theorem compareIntegers_padded {cs : List Char} (h : isInteger cs = true) :
    compareIntegers cs (padded cs) = some .eq := by
  unfold compareIntegers
  rw [Signed.ofText?_padded h]
  unfold Signed.ofText?
  rw [if_pos h]
  exact congrArg some (Signed.compare_self _)

/-! ### Decimal numbers -/

theorem isFixedPoint_padded {cs : List Char} (h : isFixedPoint cs = true) :
    isFixedPoint (padded cs) = true := by
  unfold isFixedPoint at *
  simp only [Bool.and_eq_true, decide_eq_true_iff] at h ⊢
  rw [splitSign_padded]
  obtain ⟨⟨hall, hany⟩, hcount⟩ := h
  refine ⟨⟨?_, ?_⟩, ?_⟩
  · rw [List.all_cons, hall]
    rfl
  · rw [List.any_cons, hany, Bool.or_true]
  · rw [List.count_cons_of_ne (by decide)]
    exact hcount

/-- A run of digits with at most one point is digits, and digits after the point if there is one. -/
theorem dropWhile_of_fixedPoint {body : List Char}
    (hall : ∀ c ∈ body, c.isDigit = true ∨ c = '.') (hcount : body.count '.' ≤ 1) :
    body.dropWhile Char.isDigit = [] ∨
      ∃ fraction : List Char, body.dropWhile Char.isDigit = '.' :: fraction ∧
        ∀ c ∈ fraction, c.isDigit = true := by
  induction body with
  | nil => exact Or.inl rfl
  | cons c rest ih =>
      have hrest : ∀ c ∈ rest, c.isDigit = true ∨ c = '.' :=
        fun c' hc' => hall c' (List.mem_cons_of_mem c hc')
      rcases hall c List.mem_cons_self with hc | rfl
      · rw [List.dropWhile_cons_of_pos hc]
        exact ih hrest (Nat.le_trans List.count_le_count_cons hcount)
      · refine Or.inr ⟨rest, List.dropWhile_cons_of_neg (by decide), fun c' hc' => ?_⟩
        have hzero : rest.count '.' = 0 := by
          rw [List.count_cons_self] at hcount
          omega
        rcases hrest c' hc' with h | rfl
        · exact h
        · exact (List.count_eq_zero.mp hzero hc').elim

theorem Decimal.ofText?_padded {cs : List Char} (h : isFixedPoint cs = true) :
    ∃ d : Decimal, ofText? cs = some d ∧ ofText? (padded cs) = some d := by
  unfold isFixedPoint at h
  simp only [Bool.and_eq_true, decide_eq_true_iff, List.all_eq_true, List.any_eq_true,
    Bool.or_eq_true] at h
  obtain ⟨⟨hall, digit, hmem, hdigit⟩, hcount⟩ := h
  have hdigits (ds : List Char) : ofDigits ('0' :: ds) = ofDigits ds := rfl
  have htake (ds : List Char) : ('0' :: ds).takeWhile Char.isDigit =
      '0' :: ds.takeWhile Char.isDigit := rfl
  have hdrop (ds : List Char) : ('0' :: ds).dropWhile Char.isDigit =
      ds.dropWhile Char.isDigit := rfl
  have hsplit := List.takeWhile_append_dropWhile (p := Char.isDigit) (l := (splitSign cs).2)
  unfold ofText?
  rw [splitSign_padded]
  dsimp only
  rw [htake, hdrop]
  rcases dropWhile_of_fixedPoint hall hcount with hrest | ⟨fraction, hrest, hfraction⟩
  · rw [hrest, List.append_nil] at hsplit
    have hne : (splitSign cs).2.takeWhile Char.isDigit ≠ [] := by
      rw [hsplit]
      exact List.ne_nil_of_mem hmem
    rw [hrest]
    simp [exponent?, hne, hdigits]
  · have hwhole : fraction.takeWhile Char.isDigit = fraction :=
      List.takeWhile_eq_self_iff.mpr hfraction
    have hend : fraction.dropWhile Char.isDigit = [] := List.dropWhile_eq_nil_iff.mpr hfraction
    have hne : (splitSign cs).2.takeWhile Char.isDigit ++ fraction ≠ [] := by
      intro hnil
      -- then there is nothing but the point, which is no digit
      obtain ⟨hbefore, rfl⟩ := List.append_eq_nil_iff.mp hnil
      rw [hbefore, hrest] at hsplit
      rw [← hsplit, List.nil_append, List.mem_singleton] at hmem
      subst hmem
      cases hdigit
    rw [hrest]
    simp only [hwhole, hend, List.cons_append, hdigits]
    simp [exponent?, hne]

/-- The word for infinity has no digit and no point. -/
theorem binary64Rank?_of_fixedPoint {cs : List Char} (h : isFixedPoint cs = true) :
    binary64Rank? cs = (Decimal.ofText? cs).map Binary64.rank := by
  have hword : (splitSign cs).2.map Char.toLower ∉ ["inf".toList, "infinity".toList] := by
    unfold isFixedPoint at h
    simp only [Bool.and_eq_true, List.all_eq_true, Bool.or_eq_true, decide_eq_true_iff] at h
    have hlower : ∀ c ∈ (splitSign cs).2, c.toLower ≠ 'i' := by
      intro c hc
      rcases h.1.1 c hc with hdigit | rfl
      · have hle : c.val ≤ '9'.val := (Bool.and_eq_true_iff.mp hdigit).2 |> of_decide_eq_true
        have hself : c.toLower = c :=
          dif_neg fun hupper => absurd (UInt32.le_trans hupper.1 hle) (by decide)
        rw [hself]
        rintro rfl
        cases hdigit
      · decide
    intro hmem
    have hi : 'i' ∈ (splitSign cs).2.map Char.toLower := by
      rcases List.mem_cons.mp hmem with heq | hmem
      · rw [heq]
        decide
      · rw [List.mem_singleton.mp hmem]
        decide
    obtain ⟨c, hc, heq⟩ := List.mem_map.mp hi
    exact hlower c hc heq
  unfold binary64Rank?
  dsimp only
  rw [if_neg hword]

theorem compareFloats_padded {cs : List Char} (h : isFixedPoint cs = true) :
    compareFloats cs (padded cs) = some .eq := by
  obtain ⟨d, hd, hpadded⟩ := Decimal.ofText?_padded h
  unfold compareFloats
  rw [binary64Rank?_of_fixedPoint h, binary64Rank?_of_fixedPoint (isFixedPoint_padded h), hd,
    hpadded]
  exact congrArg some Std.ReflCmp.compare_self

end Value

namespace ColumnType

/-- The types whose values are equal only if their texts are. -/
def Verbatim (type : ColumnType) : Prop := type = .string ∨ type = .date

instance (type : ColumnType) : Decidable type.Verbatim :=
  inferInstanceAs (Decidable (_ ∨ _))

theorem compare_eq_iff {type : ColumnType} (h : type.Verbatim) {l r : String} :
    type.compare l r = some .eq ↔ l = r := by
  have hiff : compareOfLessAndEq l r = .eq ↔ l = r :=
    compareOfLessAndEq_eq_eq Std.le_refl Std.not_le
  rcases h with rfl | rfl <;> exact Option.some_inj.trans hiff

/-- A value of any other type can be written in another way. -/
theorem exists_spelling {type : ColumnType} (h : ¬ type.Verbatim) {value : String}
    (hvalue : type.accepts value = true) :
    ∃ value', value' ≠ value ∧ type.accepts value' = true ∧
      type.compare value value' = some .eq := by
  refine ⟨String.ofList (Value.padded value.toList), ?_, ?_⟩
  · intro heq
    have hlength := congrArg (List.length ∘ String.toList) heq
    simp only [Function.comp_apply, String.toList_ofList, Value.length_padded] at hlength
    omega
  · cases type with
    | string => exact (h (Or.inl rfl)).elim
    | date => exact (h (Or.inr rfl)).elim
    | integer =>
        unfold accepts compare
        rw [String.toList_ofList]
        exact ⟨Value.isInteger_padded hvalue, Value.compareIntegers_padded hvalue⟩
    | float =>
        unfold accepts compare
        rw [String.toList_ofList]
        exact ⟨Value.isFixedPoint_padded hvalue, Value.compareFloats_padded hvalue⟩

end ColumnType

end Tabular
