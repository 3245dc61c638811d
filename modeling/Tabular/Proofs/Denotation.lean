import Mathlib.Data.List.Induction
import Tabular.Proofs.Order

/-!
The numbers and dates that texts write, as rules apart from any function that reads them, and the
order of values against the order of what they write. A text compares as an integer if the rules
give it one, and then as that integer does; two dates compare as their years, then as their months,
then as their days (`ColumnType.order_exact`).
-/

namespace Tabular

/-! ### Digits -/

namespace Text

variable {cs : List Char} {n : Nat}

/-- A run of digits and its number: one digit is a number below ten, and a further digit makes ten
times the number and that digit. -/
inductive WritesNat : List Char → Nat → Prop
  | digit {d : Nat} (hd : d < 10) : WritesNat [d.digitChar] d
  | snoc {cs : List Char} {n d : Nat} (h : WritesNat cs n) (hd : d < 10) :
      WritesNat (cs ++ [d.digitChar]) (10 * n + d)

theorem exists_digitChar {c : Char} (h : c.isDigit = true) : ∃ d < 10, c = d.digitChar := by
  obtain ⟨hlow, hhigh⟩ := toNat_of_isDigit h
  have hd : c.toNat - 48 < 10 := by omega
  refine ⟨c.toNat - 48, hd, Char.toNat_inj.mp ?_⟩
  rw [Nat.toNat_digitChar_of_lt_ten hd]
  omega

theorem ofDigits_snoc (cs : List Char) {d : Nat} (hd : d < 10) :
    ofDigits (cs ++ [d.digitChar]) = 10 * ofDigits cs + d := by
  have hvalue : d.digitChar.toNat - '0'.toNat = d := Nat.toNat_digitChar_sub_48_of_lt_ten hd
  rw [ofDigits, List.foldl_append, List.foldl_cons, List.foldl_nil, hvalue]
  rfl

theorem isDigits_iff : isDigits cs = true ↔ cs ≠ [] ∧ ∀ c ∈ cs, c.isDigit = true := by
  simp [isDigits]

theorem WritesNat.isDigits (h : WritesNat cs n) : isDigits cs = true := by
  induction h with
  | digit hd => simp [isDigits_iff, Nat.isDigit_digitChar, hd]
  | snoc _ hd ih =>
      have hrest := (isDigits_iff.mp ih).2
      simpa [isDigits_iff, Nat.isDigit_digitChar, hd, or_imp, forall_and] using hrest

theorem WritesNat.ofDigits_eq (h : WritesNat cs n) : ofDigits cs = n := by
  induction h with
  | digit hd => exact (ofDigits_snoc [] hd).trans (Nat.zero_add _)
  | snoc _ hd ih => rw [ofDigits_snoc _ hd, ih]

theorem writesNat_ofDigits (h : isDigits cs = true) : WritesNat cs (ofDigits cs) := by
  induction cs using List.reverseRecOn with
  | nil => cases h
  | append_singleton cs c ih =>
      simp only [isDigits_iff, List.forall_mem_append, List.forall_mem_singleton] at h
      obtain ⟨-, hcs, hc⟩ := h
      obtain ⟨d, hd, rfl⟩ := exists_digitChar hc
      -- no digits write no number, so that the first digit is a case of its own
      by_cases hne : cs = []
      · subst hne
        rw [ofDigits_snoc [] hd, show 10 * ofDigits [] + d = d from Nat.zero_add d]
        exact .digit hd
      · rw [ofDigits_snoc cs hd]
        exact .snoc (ih (isDigits_iff.mpr ⟨hne, hcs⟩)) hd

theorem writesNat_iff : WritesNat cs n ↔ isDigits cs = true ∧ ofDigits cs = n :=
  ⟨fun h => ⟨h.isDigits, h.ofDigits_eq⟩, fun ⟨h, hn⟩ => hn ▸ writesNat_ofDigits h⟩

instance (cs : List Char) (n : Nat) : Decidable (WritesNat cs n) :=
  decidable_of_iff _ writesNat_iff.symm

/-- Two runs of one length are in the order of their numbers. -/
theorem WritesNat.compare_eq {l r : List Char} {m n : Nat} (hl : WritesNat l m)
    (hr : WritesNat r n) (hlength : l.length = r.length) :
    compareOfLessAndEq l r = compare m n := by
  rw [← hl.ofDigits_eq, ← hr.ofDigits_eq]
  exact compareOfLessAndEq_digits (isDigits_iff.mp hl.isDigits).2
    (isDigits_iff.mp hr.isDigits).2 hlength

end Text

namespace Value

open Text (splitSign ofDigits WritesNat writesNat_iff)

/-! ### Integers -/

section
variable {l r cs : List Char} {n : Int}

/-- An integer is a run of digits, with or without a sign. -/
inductive WritesInt : List Char → Int → Prop
  | plain {cs : List Char} {n : Nat} (h : WritesNat cs n) : WritesInt cs n
  | plus {cs : List Char} {n : Nat} (h : WritesNat cs n) : WritesInt ('+' :: cs) n
  | minus {cs : List Char} {n : Nat} (h : WritesNat cs n) : WritesInt ('-' :: cs) (-n)

theorem writesInt_iff : WritesInt cs n ↔ isInteger cs = true ∧ integerOf cs = n := by
  constructor
  · intro h
    cases h with
    | plain h =>
        obtain ⟨hdigits, rfl⟩ := writesNat_iff.mp h
        have hsign : splitSign cs = (false, cs) :=
          Text.splitSign_of_isDigit (Text.isDigits_iff.mp hdigits).2
        rw [isInteger, integerOf, hsign]
        exact ⟨hdigits, rfl⟩
    | plus h =>
        obtain ⟨hdigits, rfl⟩ := writesNat_iff.mp h
        exact ⟨hdigits, rfl⟩
    | minus h =>
        obtain ⟨hdigits, rfl⟩ := writesNat_iff.mp h
        exact ⟨hdigits, rfl⟩
  · rintro ⟨h, rfl⟩
    unfold isInteger at h
    unfold integerOf
    unfold splitSign at h ⊢
    split at h
    · exact .minus (Text.writesNat_ofDigits h)
    · exact .plus (Text.writesNat_ofDigits h)
    · exact .plain (Text.writesNat_ofDigits h)

instance (cs : List Char) (n : Int) : Decidable (WritesInt cs n) :=
  decidable_of_iff _ writesInt_iff.symm

theorem exists_writesInt_iff : (∃ n, WritesInt cs n) ↔ isInteger cs = true := by
  simp [writesInt_iff]

/-- There is an order only between texts that both denote integers. -/
theorem exists_compareIntegers_iff : (∃ o, compareIntegers l r = some o) ↔
    isInteger l = true ∧ isInteger r = true := by
  constructor
  · rintro ⟨o, h⟩
    obtain ⟨m, hm, h⟩ := Option.bind_eq_some_iff.mp h
    obtain ⟨n, hn, -⟩ := Option.bind_eq_some_iff.mp h
    exact ⟨(Option.ite_none_right_eq_some.mp hm).1, (Option.ite_none_right_eq_some.mp hn).1⟩
  · rintro ⟨hl, hr⟩
    exact ⟨_, compareIntegers_eq hl hr⟩

end

/-! ### Dates -/

/-- The numbers of a date. -/
structure Date where
  year : Nat
  month : Nat
  day : Nat

/-- The earlier year comes first, in one year the earlier month, in one month the earlier day. -/
def Date.compare (l r : Date) : Ordering :=
  (Ord.compare l.year r.year).then
    ((Ord.compare l.month r.month).then (Ord.compare l.day r.day))

/-- A date is written as four digits for the year, two for the month and two for the day, joined by
hyphens. -/
inductive WritesDate : List Char → Date → Prop
  | join {y m d : List Char} {date : Date} (hyear : WritesNat y date.year) (hy : y.length = 4)
      (hmonth : WritesNat m date.month) (hm : m.length = 2)
      (hday : WritesNat d date.day) (hd : d.length = 2) :
      WritesDate (y ++ '-' :: (m ++ '-' :: d)) date

theorem exists_writesDate_iff {cs : List Char} :
    (∃ date, WritesDate cs date) ↔ isDate cs = true := by
  constructor
  · rintro ⟨date, @⟨y, m, d, _, hyear, hy, hmonth, hm, hday, hd⟩⟩
    obtain ⟨y₁, y₂, y₃, y₄, rfl⟩ := List.length_eq_four.mp hy
    obtain ⟨m₁, m₂, rfl⟩ := List.length_eq_two.mp hm
    obtain ⟨d₁, d₂, rfl⟩ := List.length_eq_two.mp hd
    have hy := hyear.isDigits
    have hm := hmonth.isDigits
    have hd := hday.isDigits
    simp_all [isDate, Text.isDigits]
  · intro h
    unfold isDate at h
    split at h
    · next y₁ y₂ y₃ y₄ h₁ m₁ m₂ h₂ d₁ d₂ =>
        simp only [Bool.and_eq_true, decide_eq_true_iff] at h
        obtain ⟨⟨rfl, rfl⟩, hdigits⟩ := h
        have hdigits := List.all_eq_true.mp hdigits
        -- each part is a run of characters out of the eight that are known to be digits
        have hwrites (cs : List Char) (hne : cs ≠ [])
            (hcs : ∀ c ∈ cs, c ∈ [y₁, y₂, y₃, y₄, m₁, m₂, d₁, d₂]) : WritesNat cs (ofDigits cs) :=
          Text.writesNat_ofDigits (Text.isDigits_iff.mpr ⟨hne, fun c hc => hdigits c (hcs c hc)⟩)
        refine ⟨⟨_, _, _⟩, @WritesDate.join [y₁, y₂, y₃, y₄] [m₁, m₂] [d₁, d₂] _
          (hwrites _ (by simp) ?_) rfl (hwrites _ (by simp) ?_) rfl (hwrites _ (by simp) ?_) rfl⟩
        all_goals simp +contextual
    · cases h

theorem compareOfLessAndEq_cons_self (c : Char) (l r : List Char) :
    compareOfLessAndEq (c :: l) (c :: r) = compareOfLessAndEq l r := by
  simp [compareOfLessAndEq]

/-- Of two texts that begin with parts of one length these parts decide first. -/
theorem compareOfLessAndEq_append {l l' r r' : List Char} (h : l.length = r.length) :
    compareOfLessAndEq (l ++ l') (r ++ r') =
      (compareOfLessAndEq l r).then (compareOfLessAndEq l' r') := by
  induction l generalizing r with
  | nil =>
      obtain rfl := List.length_eq_zero_iff.mp h.symm
      rfl
  | cons c l ih =>
      cases r with
      | nil => cases h
      | cons d r =>
          rw [List.cons_append, List.cons_append]
          rcases lt_trichotomy c d with hlt | rfl | hgt
          · simp [compareOfLessAndEq, List.cons_lt_cons_iff, hlt]
          · rw [compareOfLessAndEq_cons_self, compareOfLessAndEq_cons_self, ih (Nat.succ.inj h)]
          · simp [compareOfLessAndEq, List.cons_lt_cons_iff, hgt.not_gt, hgt.ne']

theorem WritesDate.compare_eq {l r : List Char} {d e : Date} (hl : WritesDate l d)
    (hr : WritesDate r e) : compareOfLessAndEq l r = d.compare e := by
  obtain @⟨_, _, _, _, hyear, hy, hmonth, hm, hday, hd⟩ := hl
  obtain @⟨_, _, _, _, hyear', hy', hmonth', hm', hday', hd'⟩ := hr
  rw [compareOfLessAndEq_append (hy.trans hy'.symm), compareOfLessAndEq_cons_self,
    compareOfLessAndEq_append (hm.trans hm'.symm), compareOfLessAndEq_cons_self,
    hyear.compare_eq hyear' (hy.trans hy'.symm), hmonth.compare_eq hmonth' (hm.trans hm'.symm),
    hday.compare_eq hday' (hd.trans hd'.symm)]
  rfl

end Value

namespace ColumnType

open Value (WritesInt WritesDate)

/-- There is an order of two texts as integers if and only if both are digits with or without a
sign, and then it is that of the integers they write; the values of date columns are the texts that
write dates, and they are in the order of these. -/
theorem order_exact (l r : String) :
    ((∃ o, integer.compare l r = some o) ↔
      (∃ m, WritesInt l.toList m) ∧ ∃ n, WritesInt r.toList n) ∧
    (∀ m n, WritesInt l.toList m → WritesInt r.toList n →
      integer.compare l r = some (Ord.compare m n)) ∧
    (date.accepts l = true ↔ ∃ d, WritesDate l.toList d) ∧
    ∀ d e, WritesDate l.toList d → WritesDate r.toList e →
      date.compare l r = some (d.compare e) := by
  refine ⟨?_, fun m n hm hn => ?_, Value.exists_writesDate_iff.symm, fun d e hd he => ?_⟩
  · rw [Value.exists_writesInt_iff, Value.exists_writesInt_iff]
    exact Value.exists_compareIntegers_iff
  · obtain ⟨hl, rfl⟩ := Value.writesInt_iff.mp hm
    obtain ⟨hr, rfl⟩ := Value.writesInt_iff.mp hn
    exact Value.compareIntegers_eq hl hr
  · have htext : compareOfLessAndEq l r = compareOfLessAndEq l.toList r.toList := by
      simp only [compareOfLessAndEq, String.lt_iff_toList_lt, String.toList_inj]
    rw [← hd.compare_eq he, ← htext]
    rfl

/-- Signs and zeros in front are no part of the number, and the year decides before the month. -/
theorem sample_order_exact :
    integer.compare "-000" "+7" = some .lt ∧ integer.compare "-31" "-007" = some .lt ∧
      date.compare "2023-12-31" "2024-02-30" = some .lt := by
  have hearlier : WritesDate "2023-12-31".toList ⟨2023, 12, 31⟩ :=
    @WritesDate.join "2023".toList "12".toList "31".toList _ (by decide) rfl (by decide) rfl
      (by decide) rfl
  have hlater : WritesDate "2024-02-30".toList ⟨2024, 2, 30⟩ :=
    @WritesDate.join "2024".toList "02".toList "30".toList _ (by decide) rfl (by decide) rfl
      (by decide) rfl
  refine ⟨?_, ?_, ?_⟩
  · exact (order_exact "-000" "+7").2.1 0 7 (by decide) (by decide)
  · exact (order_exact "-31" "-007").2.1 (-31) (-7) (by decide) (by decide)
  · exact (order_exact "2023-12-31" "2024-02-30").2.2.2 _ _ hearlier hlater

/-- Zero has no sign. -/
example : integer.compare "-000" "+0" = some .eq := by decide

end ColumnType

end Tabular
