import Tabular.Proofs.Checksum
import Tabular.Proofs.Loading

/-!
Snapshot files that are altered after they have been saved. An alteration of the header, or of no
more than four bytes in a row of the payload, is found before the payload is read (`load_altered`):
what is left is no right header for what comes after it, since the checksum tells the two payloads
apart.
-/

namespace Tabular.Snapshot

/-! ### Headers -/

/-- What comes before a payload in its file. -/
def header (payload : List UInt8) : List UInt8 :=
  magic ++ putNat 4 version ++ putNat 4 (checksum payload).toNat

/-- The length of a header. -/
def headerLength : Nat := 12

theorem length_header (payload : List UInt8) : (header payload).length = headerLength := by
  have hmagic : magic.length = 4 := by decide +kernel
  simp only [header, List.length_append, length_putNat, hmagic, headerLength]

theorem take_wrap (payload : List UInt8) : (wrap payload).take headerLength = header payload :=
  List.take_left' (length_header payload)

theorem drop_wrap (payload : List UInt8) : (wrap payload).drop headerLength = payload :=
  List.drop_left' (length_header payload)

theorem putNat_injective {width m n : Nat} (hm : m < 256 ^ width) (hn : n < 256 ^ width)
    (h : putNat width m = putNat width n) : m = n := by
  have hread := (inverts_nat width).eq_some_iff.mpr ⟨hm, (List.append_nil _).symm⟩
  rw [h, (inverts_nat width).eq_some_iff.mpr ⟨hn, (List.append_nil _).symm⟩] at hread
  exact (congrArg Prod.fst (Option.some.inj hread)).symm

theorem checksum_eq_of_header_eq {payload payload' : List UInt8}
    (h : header payload = header payload') : checksum payload = checksum payload' := by
  apply BitVec.eq_of_toNat_eq
  have hchecksums := List.append_cancel_left h
  exact putNat_injective (checksum payload).isLt (checksum payload').isLt hchecksums

/-! ### Alterations -/

/-- Other bytes in the same number, that differ from the first ones, but at no place before `start`
or from `stop` on. -/
structure Altered (start stop : Nat) (bytes bytes' : List UInt8) : Prop where
  length_eq : bytes'.length = bytes.length
  ne : bytes' ≠ bytes
  elsewhere : ∀ i, i < start ∨ stop ≤ i → bytes'[i]? = bytes[i]?

namespace Altered

variable {start stop : Nat} {bytes bytes' : List UInt8} (h : Altered start stop bytes bytes')
include h

theorem take_eq : bytes'.take start = bytes.take start := by
  apply List.ext_getElem?
  intro i
  rw [List.getElem?_take, List.getElem?_take]
  split
  · next hi => exact h.elsewhere i (Or.inl hi)
  · rfl

theorem drop_eq : bytes'.drop stop = bytes.drop stop := by
  apply List.ext_getElem?
  intro i
  rw [List.getElem?_drop, List.getElem?_drop]
  exact h.elsewhere (stop + i) (Or.inr (Nat.le_add_right ..))

/-- An alteration after some bytes is one of what follows them. -/
theorem drop (n : Nat) (hn : n ≤ start) :
    Altered (start - n) (stop - n) (bytes.drop n) (bytes'.drop n) where
  length_eq := by rw [List.length_drop, List.length_drop, h.length_eq]
  ne hdrop := by
    have htake : bytes'.take n = bytes.take n := by
      have htake := congrArg (List.take n) h.take_eq
      rwa [List.take_take, List.take_take, Nat.min_eq_left hn] at htake
    apply h.ne
    rw [← List.take_append_drop n bytes', htake, hdrop, List.take_append_drop]
  elsewhere i hi := by
    rw [List.getElem?_drop, List.getElem?_drop]
    exact h.elsewhere (n + i) (by omega)

/-- An alteration of four bytes in a row shows in the checksum. -/
theorem checksum_ne (hfour : stop = start + 4) : checksum bytes' ≠ checksum bytes := by
  intro hchecksum
  have hsplit (l : List UInt8) :
      l.take start ++ ((l.drop start).take 4 ++ l.drop stop) = l := by
    rw [hfour, ← List.drop_drop, List.take_append_drop, List.take_append_drop]
  have hlength : ((bytes'.drop start).take 4).length = ((bytes.drop start).take 4).length := by
    simp only [List.length_take, List.length_drop, h.length_eq]
  have hwindow := hchecksum
  rw [← hsplit bytes', ← hsplit bytes, h.take_eq, h.drop_eq] at hwindow
  have hsame := eq_of_checksum_eq hlength (List.length_take_le ..) hwindow
  apply h.ne
  rw [← hsplit bytes', ← hsplit bytes, h.take_eq, h.drop_eq, hsame]

end Altered

/-- The file of a store that is altered anywhere in its header, or in no more than four bytes in a
row of its payload, is refused before its payload is read. -/
theorem load_altered {s : Store} {file : List UInt8}
    (h : Altered 0 headerLength (encode s) file ∨
      ∃ start, headerLength ≤ start ∧ Altered start (start + 4) (encode s) file) :
    ∃ cause, cause ≠ .malformed ∧ load (some file) = .error (.snapshot cause) := by
  have hwrap : ∀ payload, file ≠ wrap payload := by
    rintro payload rfl
    rcases h with h | ⟨start, hstart, h⟩
    · -- the payload is the same, and it has but one header
      have hpayload := h.drop_eq
      rw [encode, drop_wrap, drop_wrap] at hpayload
      exact h.ne (congrArg wrap hpayload)
    · have hheader := congrArg (List.take headerLength) h.take_eq
      rw [List.take_take, List.take_take, Nat.min_eq_left hstart, encode, take_wrap, take_wrap]
        at hheader
      have hpayload := h.drop headerLength hstart
      rw [encode, drop_wrap, drop_wrap] at hpayload
      exact hpayload.checksum_ne (Nat.sub_add_comm hstart) (checksum_eq_of_header_eq hheader)
  obtain ⟨cause, hcause, hdecode⟩ := decode_of_ne_wrap hwrap
  refine ⟨cause, hcause, ?_⟩
  rw [load, hdecode]
  rfl

/-- A byte in the middle of the payload is altered. -/
theorem sample_load_altered :
    let file := (encode sample).set 40 0xff
    Altered 38 42 (encode sample) file ∧
      ∃ cause, cause ≠ .malformed ∧ load (some file) = .error (.snapshot cause) := by
  intro file
  have haltered : Altered 38 42 (encode sample) file := by
    refine ⟨List.length_set, fun heq => ?_, fun i hi => List.getElem?_set_ne (by omega)⟩
    have hpayload := congrArg (List.drop headerLength) heq
    rw [List.drop_set, if_neg (by decide), encode, drop_wrap] at hpayload
    revert hpayload
    decide +kernel
  exact ⟨haltered, load_altered (Or.inr ⟨38, by decide, haltered⟩)⟩

end Tabular.Snapshot
