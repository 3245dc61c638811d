import Mathlib
import Tabular.Snapshot.Wire

/-!
The readers of the binary format undo its writers: a reader takes from the front of some bytes
exactly what is written of a value, and leaves all that comes after it (`Inverts`). Values fit the
format if their lengths fit into the bytes that state them, at every level.
-/

namespace Tabular

/-- Bytes that encode a text are its encoding. -/
theorem Text.utf8_of_ofUtf8? {bytes : List UInt8} {s : String} (h : ofUtf8? bytes = some s) :
    utf8 s = bytes := by
  unfold ofUtf8? String.fromUTF8? at h
  split at h
  · next hvalid =>
      obtain rfl := Option.some.inj h
      rfl
  · cases h

namespace Snapshot

variable {α β : Type}

/-- The bytes that a reader takes are those written of a value that fits. -/
structure Inverts (read : Reader α) (put : α → List UInt8) (fits : α → Prop) : Prop where
  eq_some_iff : ∀ {bytes : List UInt8} {x : α} {rest : List UInt8},
    read bytes = some (x, rest) ↔ fits x ∧ bytes = put x ++ rest

/-- The length of the text fits into eight bytes. -/
def StringFits (s : String) : Prop := (Text.utf8 s).length < 256 ^ 8

def PairFits (fitsFst : α → Prop) (fitsSnd : β → Prop) (p : α × β) : Prop :=
  fitsFst p.1 ∧ fitsSnd p.2

/-- The length of the list fits into eight bytes, and its elements fit. -/
def ListFits (fits : α → Prop) (xs : List α) : Prop := xs.length < 256 ^ 8 ∧ ∀ x ∈ xs, fits x

instance : DecidablePred StringFits := fun _ => inferInstanceAs (Decidable (_ < _))

instance (fitsFst : α → Prop) (fitsSnd : β → Prop) [DecidablePred fitsFst]
    [DecidablePred fitsSnd] : DecidablePred (PairFits fitsFst fitsSnd) :=
  fun _ => inferInstanceAs (Decidable (_ ∧ _))

instance (fits : α → Prop) [DecidablePred fits] : DecidablePred (ListFits fits) :=
  fun _ => inferInstanceAs (Decidable (_ ∧ _))

/-! ### Numbers and texts -/

theorem inverts_nat (width : Nat) : Inverts (readNat width) (putNat width) (· < 256 ^ width) := by
  induction width with
  | zero =>
      constructor
      intro bytes n rest
      simp only [readNat, putNat, Option.some.injEq, Prod.mk.injEq, List.nil_append, Nat.pow_zero,
        Nat.lt_one_iff, eq_comm]
  | succ width ih =>
      constructor
      intro bytes n rest
      cases bytes with
      | nil => simp [readNat, putNat]
      | cons b bytes =>
          have hb : b.toNat < 256 := b.toNat_lt
          simp only [readNat, putNat, Option.map_eq_some_iff, Prod.exists, Prod.mk.injEq,
            List.cons_append, List.cons.injEq, Nat.pow_succ]
          -- the first byte is the remainder of the number by 256, the others are the quotient
          constructor
          · rintro ⟨high, rest', hread, rfl, rfl⟩
            obtain ⟨hhigh, rfl⟩ := ih.eq_some_iff.mp hread
            have hdiv : (b.toNat + 256 * high) / 256 = high := by omega
            refine ⟨by omega, ?_, by rw [hdiv]⟩
            apply UInt8.toNat_inj.mp
            rw [UInt8.toNat_ofNat']
            omega
          · rintro ⟨hn, rfl, rfl⟩
            refine ⟨n / 256, rest, ih.eq_some_iff.mpr ⟨by omega, rfl⟩, ?_, rfl⟩
            rw [UInt8.toNat_ofNat']
            omega

@[simp] theorem length_putNat (width n : Nat) : (putNat width n).length = width := by
  induction width generalizing n with
  | zero => rfl
  | succ width ih => rw [putNat, List.length_cons, ih]

theorem inverts_string : Inverts readString putString StringFits := by
  constructor
  intro bytes s rest
  simp only [readString, putString, Option.bind_eq_bind, Option.bind_eq_some_iff, Prod.exists,
    List.splitAt_eq]
  constructor
  · rintro ⟨length, tail, hlength, hs⟩
    obtain ⟨hfits, rfl⟩ := (inverts_nat 8).eq_some_iff.mp hlength
    split at hs
    · next htake =>
        rw [Option.bind_eq_some_iff] at hs
        obtain ⟨s', hutf8, hs⟩ := hs
        cases hs
        have hbytes := Text.utf8_of_ofUtf8? hutf8
        rw [StringFits, hbytes, htake, List.append_assoc, List.take_append_drop]
        exact ⟨hfits, rfl⟩
    · cases hs
  · rintro ⟨hfits, rfl⟩
    refine ⟨(Text.utf8 s).length, Text.utf8 s ++ rest, ?_, ?_⟩
    · exact (inverts_nat 8).eq_some_iff.mpr ⟨hfits, List.append_assoc ..⟩
    · rw [List.take_left, List.drop_left, if_pos rfl, Text.ofUtf8?_utf8]
      rfl

/-! ### Pairs and lists -/

section
variable {read : Reader α} {put : α → List UInt8} {fits : α → Prop} (h : Inverts read put fits)
include h

/-- A reader that turns its result into another one takes the same bytes. -/
theorem Inverts.map_eq_some_iff {f : α → β} {bytes : List UInt8} {y : β} {rest : List UInt8} :
    (read bytes).map (fun (x, rest) => (f x, rest)) = some (y, rest) ↔
      ∃ x, f x = y ∧ fits x ∧ bytes = put x ++ rest := by
  rw [Option.map_eq_some_iff]
  constructor
  · rintro ⟨⟨x, rest'⟩, hx, heq⟩
    cases heq
    exact ⟨x, rfl, h.eq_some_iff.mp hx⟩
  · rintro ⟨x, rfl, hx⟩
    exact ⟨(x, rest), h.eq_some_iff.mpr hx, rfl⟩

theorem Inverts.pair {readSnd : Reader β} {putSnd : β → List UInt8} {fitsSnd : β → Prop}
    (h' : Inverts readSnd putSnd fitsSnd) :
    Inverts (readPair read readSnd) (putPair put putSnd) (PairFits fits fitsSnd) := by
  constructor
  intro bytes p rest
  simp only [readPair, putPair, Option.bind_eq_bind, Option.bind_eq_some_iff, Prod.exists]
  constructor
  · rintro ⟨a, middle, ha, b, rest', hb, hp⟩
    cases hp
    obtain ⟨hfits, rfl⟩ := h.eq_some_iff.mp ha
    obtain ⟨hfits', rfl⟩ := h'.eq_some_iff.mp hb
    exact ⟨⟨hfits, hfits'⟩, (List.append_assoc ..).symm⟩
  · rintro ⟨⟨hfits, hfits'⟩, rfl⟩
    exact ⟨p.1, putSnd p.2 ++ rest, h.eq_some_iff.mpr ⟨hfits, List.append_assoc ..⟩, p.2, rest,
      h'.eq_some_iff.mpr ⟨hfits', rfl⟩, rfl⟩

/-- A given number of values is read if as many are written one after another. -/
theorem Inverts.many {n : Nat} {bytes : List UInt8} {xs : List α} {rest : List UInt8} :
    readMany read n bytes = some (xs, rest) ↔
      xs.length = n ∧ (∀ x ∈ xs, fits x) ∧ bytes = xs.flatMap put ++ rest := by
  induction n generalizing bytes xs with
  | zero =>
      rw [readMany, List.length_eq_zero_iff]
      constructor
      · intro heq
        cases heq
        exact ⟨rfl, List.forall_mem_nil _, rfl⟩
      · rintro ⟨rfl, -, rfl⟩
        rfl
  | succ n ih =>
      simp only [readMany, Option.bind_eq_bind, Option.bind_eq_some_iff, Prod.exists]
      constructor
      · rintro ⟨x, middle, hx, xs', rest', hxs, heq⟩
        cases heq
        obtain ⟨hfits, rfl⟩ := h.eq_some_iff.mp hx
        obtain ⟨rfl, hall, rfl⟩ := ih.mp hxs
        refine ⟨rfl, List.forall_mem_cons.mpr ⟨hfits, hall⟩, ?_⟩
        rw [List.flatMap_cons, List.append_assoc]
      · rintro ⟨hlength, hall, rfl⟩
        obtain ⟨x, xs', rfl⟩ := List.exists_cons_of_length_eq_add_one hlength
        obtain ⟨hfits, hall'⟩ := List.forall_mem_cons.mp hall
        refine ⟨x, xs'.flatMap put ++ rest, h.eq_some_iff.mpr ⟨hfits, ?_⟩, xs', rest,
          ih.mpr ⟨Nat.succ.inj hlength, hall', rfl⟩, rfl⟩
        rw [List.flatMap_cons, List.append_assoc]

theorem Inverts.list : Inverts (readList read) (putList put) (ListFits fits) := by
  constructor
  intro bytes xs rest
  simp only [readList, putList, Option.bind_eq_bind, Option.bind_eq_some_iff, Prod.exists]
  constructor
  · rintro ⟨length, tail, hlength, hxs⟩
    obtain ⟨hfits, rfl⟩ := (inverts_nat 8).eq_some_iff.mp hlength
    obtain ⟨rfl, hall, rfl⟩ := h.many.mp hxs
    exact ⟨⟨hfits, hall⟩, (List.append_assoc ..).symm⟩
  · rintro ⟨⟨hfits, hall⟩, rfl⟩
    refine ⟨xs.length, xs.flatMap put ++ rest, ?_, h.many.mpr ⟨rfl, hall, rfl⟩⟩
    exact (inverts_nat 8).eq_some_iff.mpr ⟨hfits, List.append_assoc ..⟩

end

end Snapshot

end Tabular
