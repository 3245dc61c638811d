import Tabular.Text.Basic

/-!
Reading back the numerals that the program writes. A number is told by its digits, to any base up to
sixteen; row numbers and counters are stored as the shortest decimal numeral, which denotes the
number it was made of.
-/

namespace Tabular.Text

/-! ### Digits -/

theorem digitChar_inj {m n : Nat} (hm : m < 16) (hn : n < 16) (h : m.digitChar = n.digitChar) :
    m = n := by
  have hall : ∀ m < 16, ∀ n < 16, Nat.digitChar m = Nat.digitChar n → m = n := by decide
  exact hall m hm n hn h

/-- A number is told by its digits. -/
theorem toDigits_inj {b m n : Nat} (hb : 1 < b) (hb' : b ≤ 16)
    (h : Nat.toDigits b m = Nat.toDigits b n) : m = n := by
  have hmod (k : Nat) : k % b < 16 := Nat.lt_of_lt_of_le (Nat.mod_lt k (by omega)) hb'
  induction m using Nat.strongRecOn generalizing n with
  | ind m ih =>
      rw [Nat.toDigits_eq_if hb, Nat.toDigits_eq_if (n := n) hb] at h
      split at h <;> split at h
      · exact digitChar_inj (by omega) (by omega) (List.cons.inj h).1
      · exact absurd (congrArg List.length h) (by simp)
      · exact absurd (congrArg List.length h) (by simp)
      · obtain ⟨hinit, hlast⟩ := List.append_inj' h rfl
        have hdiv := ih (m / b) (Nat.div_lt_self (by omega) hb) hinit
        have hrem := digitChar_inj (hmod m) (hmod n) (List.cons.inj hlast).1
        rw [← Nat.div_add_mod m b, ← Nat.div_add_mod n b, hdiv, hrem]

/-- Digits are no punctuation. -/
theorem notMem_toDigits {b n : Nat} {c : Char} (hb : 1 < b) (hb' : b ≤ 16)
    (hc : ∀ d < 16, Nat.digitChar d ≠ c) : c ∉ Nat.toDigits b n := by
  induction n using Nat.strongRecOn with
  | ind n ih =>
      rw [Nat.toDigits_eq_if hb]
      split
      · exact fun hmem => hc n (by omega) (List.mem_singleton.mp hmem).symm
      · have hlast : n % b < 16 := Nat.lt_of_lt_of_le (Nat.mod_lt n (by omega)) hb'
        have hinit := ih (n / b) (Nat.div_lt_self (by omega) hb)
        simp only [List.mem_append, List.mem_singleton, hinit, (hc _ hlast).symm, or_self,
          not_false_eq_true]

/-! ### Numerals -/

theorem foldl_digits_eq (cs : List Char) (n : Nat) :
    cs.foldl (fun n c => 10 * n + (c.toNat - '0'.toNat)) n = Nat.ofDigitChars 10 cs n := by
  induction cs generalizing n with
  | nil => rfl
  | cons c rest ih => rw [List.foldl_cons, ih, Nat.ofDigitChars_cons]

theorem toList_toString (n : Nat) : (toString n).toList = Nat.toDigits 10 n := Nat.toList_repr

theorem digits?_toDigits (n : Nat) : digits? (Nat.toDigits 10 n) = some n := by
  have hdigits : isDigits (Nat.toDigits 10 n) = true := by
    simp only [isDigits, Bool.and_eq_true, Bool.not_eq_true', List.isEmpty_eq_false_iff,
      List.all_eq_true]
    exact ⟨Nat.toDigits_ne_nil, fun c hc => Nat.isDigit_of_mem_toDigits (by decide) (by decide) hc⟩
  rw [digits?, if_pos hdigits, ofDigits, foldl_digits_eq, Nat.ofDigitChars_ten_toDigits]

theorem splitSign_of_isDigit {cs : List Char} (h : ∀ c ∈ cs, c.isDigit) :
    splitSign cs = (false, cs) := by
  cases cs with
  | nil => rfl
  | cons c rest =>
      have hc := h c (by simp)
      unfold splitSign
      split
      · simp_all
      · simp_all
      · rfl

theorem splitSign_toDigits (n : Nat) :
    splitSign (Nat.toDigits 10 n) = (false, Nat.toDigits 10 n) :=
  splitSign_of_isDigit fun _ hc => Nat.isDigit_of_mem_toDigits (by decide) (by decide) hc

theorem nat64?_toString {n : Nat} (h : n ≤ maxNat64) : nat64? (toString n) = some n := by
  simp [nat64?, splitSign_toDigits, digits?_toDigits, h]

theorem int64?_of_parts {s : String} {negative : Bool} {cs : List Char} {m : Nat} {n : Int}
    (hsign : splitSign s.toList = (negative, cs)) (hdigits : digits? cs = some m)
    (hn : n = if negative then -(m : Int) else m) (hmin : minInt64 ≤ n) (hmax : n ≤ maxInt64) :
    int64? s = some n := by
  rw [int64?, hsign]
  simp only [hdigits, ← hn, Option.bind_eq_bind, Option.bind_some]
  rw [if_pos ⟨hmin, hmax⟩]

theorem int64?_toString {n : Nat} (h : (n : Int) ≤ maxInt64) : int64? (toString n) = some (n : Int) := by
  have hsign : splitSign (toString n).toList = (false, Nat.toDigits 10 n) := by
    rw [toList_toString, splitSign_toDigits]
  have hmin : minInt64 ≤ (n : Int) := by
    unfold minInt64
    omega
  exact int64?_of_parts hsign (digits?_toDigits n) (if_neg Bool.false_ne_true).symm hmin h

/-- The signed numbers of 64 bits are read back as well. -/
theorem int64?_toString_int {n : Int} (hmin : minInt64 ≤ n) (hmax : n ≤ maxInt64) :
    int64? (toString n) = some n := by
  cases n with
  | ofNat m => exact int64?_toString hmax
  | negSucc m =>
      have htext : (toString (Int.negSucc m)).toList = '-' :: Nat.toDigits 10 (m + 1) := by
        rw [← toList_toString]
        simp [toString, Int.repr]
      have hsign :
          splitSign (toString (Int.negSucc m)).toList = (true, Nat.toDigits 10 (m + 1)) := by
        rw [htext, splitSign]
      exact int64?_of_parts hsign (digits?_toDigits (m + 1)) (if_pos rfl).symm hmin hmax

theorem int64?_bounds {s : String} {n : Int} (h : int64? s = some n) :
    minInt64 ≤ n ∧ n ≤ maxInt64 := by
  obtain ⟨m, -, h⟩ := Option.bind_eq_some_iff.mp h
  obtain ⟨hrange, hn⟩ := Option.ite_none_right_eq_some.mp h
  exact Option.some.inj hn ▸ hrange

theorem toString_injective {m n : Nat} (h : toString m = toString n) : m = n := by
  have hlist : Nat.toDigits 10 m = Nat.toDigits 10 n := by
    rw [← toList_toString, ← toList_toString, h]
  exact toDigits_inj (by decide) (by decide) hlist

end Tabular.Text
