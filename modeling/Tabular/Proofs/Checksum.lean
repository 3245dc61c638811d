import Mathlib.Logic.Function.Basic
import Tabular.Snapshot.File

/-!
The checksum tells apart any two sequences of bytes that differ only within four bytes in a row
(`eq_of_checksum_eq`). A shift of the remainder is linear and loses nothing, so the remainder before
the four bytes and that after them determine the word they make.
-/

namespace Tabular.Snapshot

/-- What the lowest bit of a remainder adds to it when it is shifted out. -/
def feedback (bit : Bool) : BitVec 32 := if bit then generator else 0

theorem crcShift_eq (r : BitVec 32) : crcShift r = (r >>> 1) ^^^ feedback (r.getLsbD 0) := by
  unfold crcShift feedback
  cases r.getLsbD 0 <;> simp

theorem feedback_xor (b b' : Bool) : feedback (b ^^ b') = feedback b ^^^ feedback b' := by
  cases b <;> cases b' <;> decide

/-- A shift is linear. -/
theorem crcShift_xor (r r' : BitVec 32) : crcShift (r ^^^ r') = crcShift r ^^^ crcShift r' := by
  rw [crcShift_eq, crcShift_eq, crcShift_eq, BitVec.getLsbD_xor, BitVec.ushiftRight_xor_distrib,
    feedback_xor]
  ac_rfl

/-- The generator has its highest bit set, so the bit that a shift takes out can be read off. -/
theorem getLsbD_crcShift (r : BitVec 32) : (crcShift r).getLsbD 31 = r.getLsbD 0 := by
  have hfeedback : (feedback (r.getLsbD 0)).getLsbD 31 = r.getLsbD 0 := by
    cases r.getLsbD 0 <;> decide
  rw [crcShift_eq, BitVec.getLsbD_xor, hfeedback, BitVec.getLsbD_ushiftRight,
    BitVec.getLsbD_of_ge _ _ (by decide), Bool.false_xor]

theorem crcShift_injective : Function.Injective crcShift := by
  intro r r' h
  have hlow : r.getLsbD 0 = r'.getLsbD 0 := by
    rw [← getLsbD_crcShift, ← getLsbD_crcShift, h]
  have hhigh : r >>> 1 = r' >>> 1 := by
    rw [crcShift_eq, crcShift_eq, hlow] at h
    exact (BitVec.xor_left_inj _).mp h
  apply BitVec.eq_of_getLsbD_eq
  intro i _
  cases i with
  | zero => exact hlow
  | succ i =>
      rw [Nat.add_comm, ← BitVec.getLsbD_ushiftRight, hhigh, BitVec.getLsbD_ushiftRight]

/-! ### Shifts one after another -/

section
variable (n : Nat) (r r' : BitVec 32)

theorem repeat_crcShift_xor :
    Nat.repeat crcShift n (r ^^^ r') = Nat.repeat crcShift n r ^^^ Nat.repeat crcShift n r' := by
  induction n with
  | zero => rfl
  | succ n ih => rw [Nat.repeat, ih, crcShift_xor, Nat.repeat, Nat.repeat]

theorem repeat_crcShift_injective : Function.Injective (Nat.repeat crcShift n) := by
  induction n with
  | zero => exact fun _ _ h => h
  | succ n ih => exact crcShift_injective.comp ih

theorem repeat_crcShift_add (m : Nat) :
    Nat.repeat crcShift (m + n) r = Nat.repeat crcShift m (Nat.repeat crcShift n r) := by
  induction m with
  | zero => rw [Nat.zero_add, Nat.repeat]
  | succ m ih => rw [Nat.succ_add, Nat.repeat, ih, Nat.repeat]

variable {n r}

/-- Bits that are not set come out without an effect. -/
theorem repeat_crcShift_of_low (h : ∀ i < n, r.getLsbD i = false) :
    Nat.repeat crcShift n r = r >>> n := by
  induction n with
  | zero => rw [Nat.repeat, BitVec.ushiftRight_zero]
  | succ n ih =>
      have hbit : (r >>> n).getLsbD 0 = false := by
        rw [BitVec.getLsbD_ushiftRight]
        exact h n (Nat.lt_succ_self n)
      rw [Nat.repeat, ih fun i hi => h i (Nat.lt_succ_of_lt hi), crcShift_eq, hbit,
        BitVec.shiftRight_add]
      exact BitVec.xor_zero

end

/-! ### Four bytes at once -/

/-- Up to four bytes as one word, the first byte lowest. -/
def word : List UInt8 → BitVec 32
  | [] => 0
  | b :: rest => b.toBitVec.setWidth 32 ^^^ (word rest <<< 8)

theorem getLsbD_word {bytes : List UInt8} {i : Nat} (h : 8 * bytes.length ≤ i) :
    (word bytes).getLsbD i = false := by
  induction bytes generalizing i with
  | nil => exact BitVec.getLsbD_zero
  | cons b rest ih =>
      rw [List.length_cons] at h
      have hbyte : b.toBitVec.getLsbD i = false := BitVec.getLsbD_of_ge _ _ (by omega)
      rw [word, BitVec.getLsbD_xor, BitVec.getLsbD_setWidth, hbyte, BitVec.getLsbD_shiftLeft,
        ih (by omega)]
      simp

/-- Fewer than four bytes leave room for one more. -/
theorem word_shiftLeft {bytes : List UInt8} (h : bytes.length < 4) :
    word bytes <<< 8 >>> 8 = word bytes := by
  apply BitVec.eq_of_getLsbD_eq
  intro i hi
  rw [BitVec.getLsbD_ushiftRight, BitVec.getLsbD_shiftLeft, Nat.add_sub_cancel_left]
  by_cases hlow : 8 + i < 32
  · simp [hlow]
  · rw [getLsbD_word (by omega), Bool.and_false]

theorem word_injective {bytes bytes' : List UInt8} (hlength : bytes.length = bytes'.length)
    (hfour : bytes.length ≤ 4) (h : word bytes = word bytes') : bytes = bytes' := by
  induction bytes generalizing bytes' with
  | nil => exact (List.length_eq_zero_iff.mp hlength.symm).symm
  | cons b rest ih =>
      obtain ⟨b', rest', rfl⟩ := List.exists_cons_of_length_eq_add_one hlength.symm
      rw [List.length_cons, List.length_cons] at hlength
      rw [List.length_cons] at hfour
      have hlow (b : UInt8) (rest : List UInt8) : (word (b :: rest)).setWidth 8 = b.toBitVec := by
        apply BitVec.eq_of_getLsbD_eq
        intro i hi
        rw [BitVec.getLsbD_setWidth, word, BitVec.getLsbD_xor, BitVec.getLsbD_setWidth,
          BitVec.getLsbD_shiftLeft]
        have hi' : i < 32 := by omega
        simp [hi, hi']
      have hb : b = b' := by
        apply UInt8.eq_of_toBitVec_eq
        rw [← hlow b rest, ← hlow b' rest', h]
      subst hb
      have hrest : word rest <<< 8 = word rest' <<< 8 := (BitVec.xor_right_inj _).mp h
      congr 1
      apply ih (by omega) (by omega)
      rw [← word_shiftLeft (by omega), hrest, word_shiftLeft (by omega)]

/-- Up to four bytes are taken in as if their word were added at once and shifted out. -/
theorem foldl_crcByte {bytes : List UInt8} (h : bytes.length ≤ 4) (r : BitVec 32) :
    bytes.foldl crcByte r = Nat.repeat crcShift (8 * bytes.length) (r ^^^ word bytes) := by
  induction bytes generalizing r with
  | nil => exact BitVec.xor_zero.symm
  | cons b rest ih =>
      rw [List.length_cons] at h
      have hrest : word rest = Nat.repeat crcShift 8 (word rest <<< 8) := by
        rw [repeat_crcShift_of_low, word_shiftLeft (by omega)]
        intro i hi
        rw [BitVec.getLsbD_shiftLeft]
        simp [hi]
      calc (b :: rest).foldl crcByte r
          = Nat.repeat crcShift (8 * rest.length) (crcByte r b ^^^ word rest) := ih (by omega) _
        _ = Nat.repeat crcShift (8 * rest.length)
              (Nat.repeat crcShift 8 (r ^^^ word (b :: rest))) := by
            rw [word, ← BitVec.xor_assoc, repeat_crcShift_xor 8, ← hrest, crcByte]
        _ = Nat.repeat crcShift (8 * (b :: rest).length) (r ^^^ word (b :: rest)) := by
            rw [← repeat_crcShift_add, List.length_cons, Nat.mul_succ]

theorem foldl_crcByte_injective (bytes : List UInt8) :
    Function.Injective (bytes.foldl crcByte) := by
  induction bytes with
  | nil => exact fun _ _ h => h
  | cons b rest ih =>
      intro r r' h
      have hbyte : crcByte r b = crcByte r' b := ih h
      exact (BitVec.xor_left_inj _).mp (repeat_crcShift_injective 8 hbyte)

/-- Two sequences of bytes that differ within four bytes in a row do not have the same checksum. -/
theorem eq_of_checksum_eq {before old new after : List UInt8} (hlength : new.length = old.length)
    (hfour : old.length ≤ 4)
    (h : checksum (before ++ (new ++ after)) = checksum (before ++ (old ++ after))) :
    new = old := by
  have hfold := BitVec.not_inj.mp h
  rw [List.foldl_append, List.foldl_append, List.foldl_append, List.foldl_append] at hfold
  have hburst := foldl_crcByte_injective after hfold
  rw [foldl_crcByte (by omega), foldl_crcByte hfour, hlength] at hburst
  have hword := (BitVec.xor_right_inj _).mp (repeat_crcShift_injective _ hburst)
  exact word_injective hlength (by omega) hword

end Tabular.Snapshot
