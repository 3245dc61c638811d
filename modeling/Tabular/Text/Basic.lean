/-!
What the program does with texts of any kind: blank characters, which separate the words of a
command line and are trimmed from the lines of a session; cutting at the first occurrence of a
character (`cutAt_eq_some_iff`); bytes in UTF-8; and decimal numerals with the 64-bit numbers they
denote.
-/

namespace Tabular.Text

/-! ### Classes of characters -/

/-- Whether a character lies in one of the closed ranges. -/
def inRanges (ranges : List (Nat × Nat)) (c : Char) : Bool :=
  ranges.any fun r => r.1 ≤ c.toNat && c.toNat ≤ r.2

/-- The characters with the Unicode property `White_Space`. -/
def blankRanges : List (Nat × Nat) :=
  [(0x9, 0xd), (0x20, 0x20), (0x85, 0x85), (0xa0, 0xa0), (0x1680, 0x1680), (0x2000, 0x200a),
   (0x2028, 0x2029), (0x202f, 0x202f), (0x205f, 0x205f), (0x3000, 0x3000)]

def isBlank (c : Char) : Bool := inRanges blankRanges c

/-- A list of characters without the blanks at its two ends. -/
def trimBlank (cs : List Char) : List Char :=
  ((cs.dropWhile isBlank).reverse.dropWhile isBlank).reverse

/-- A text without the blanks at its two ends. -/
def trim (s : String) : String := String.ofList (trimBlank s.toList)

/-! ### Cutting in two -/

/-- The characters before and after the first `c`; `none` if there is none. -/
def cutAt (c : Char) : List Char → Option (List Char × List Char)
  | [] => none
  | d :: rest =>
      if d = c then some ([], rest)
      else (cutAt c rest).map fun halves => (d :: halves.1, halves.2)

theorem cutAt_eq_some_iff {c : Char} {cs before after : List Char} :
    cutAt c cs = some (before, after) ↔ c ∉ before ∧ cs = before ++ c :: after := by
  induction cs generalizing before with
  | nil => simp [cutAt]
  | cons d rest ih =>
      by_cases h : d = c
      · subst h
        cases before with
        | nil => simp [cutAt, eq_comm]
        | cons e before => simp [cutAt]; grind
      · cases before with
        | nil => simp [cutAt, h]
        | cons e before => simp [cutAt, h, ih, Prod.ext_iff]; grind

theorem cutAt_eq_none_iff {c : Char} {cs : List Char} : cutAt c cs = none ↔ c ∉ cs := by
  induction cs with
  | nil => simp [cutAt]
  | cons d rest ih => by_cases h : d = c <;> simp [cutAt, h, ih, Ne.symm]

/-- The texts before and after the first `c`; `none` if there is none. -/
def cut? (c : Char) (s : String) : Option (String × String) :=
  (cutAt c s.toList).map fun halves => (String.ofList halves.1, String.ofList halves.2)

theorem cut?_eq_some_iff {c : Char} {s before after : String} :
    cut? c s = some (before, after) ↔
      c ∉ before.toList ∧ s.toList = before.toList ++ c :: after.toList := by
  simp only [cut?, Option.map_eq_some_iff, Prod.exists, Prod.mk.injEq]
  constructor
  · rintro ⟨l, r, h, rfl, rfl⟩
    simpa using cutAt_eq_some_iff.mp h
  · exact fun h => ⟨_, _, cutAt_eq_some_iff.mpr h, by simp, by simp⟩

/-! ### Bytes -/

/-- The UTF-8 encoding of a text. -/
def utf8 (s : String) : List UInt8 := s.toByteArray.data.toList

/-- The text that bytes encode; `none` if they are no valid UTF-8. -/
def ofUtf8? (bytes : List UInt8) : Option String := String.fromUTF8? ⟨bytes.toArray⟩

theorem ofUtf8?_utf8 (s : String) : ofUtf8? (utf8 s) = some s := by
  have h : (⟨(utf8 s).toArray⟩ : ByteArray) = s.toByteArray := by simp [utf8]
  simp [ofUtf8?, h, String.fromUTF8?, s.isValidUTF8, String.fromUTF8]

/-! ### Numerals

A numeral is a non-empty run of ASCII digits, with leading zeros allowed, after an optional sign. -/

/-- The number that a run of digits denotes. -/
def ofDigits (cs : List Char) : Nat :=
  cs.foldl (fun n c => 10 * n + (c.toNat - '0'.toNat)) 0

/-- A non-empty run of ASCII digits. -/
def isDigits (cs : List Char) : Bool := !cs.isEmpty && cs.all Char.isDigit

def digits? (cs : List Char) : Option Nat :=
  if isDigits cs then some (ofDigits cs) else none

/-- The sign of a numeral, `true` for a minus, and what follows it. -/
def splitSign : List Char → Bool × List Char
  | '-' :: rest => (true, rest)
  | '+' :: rest => (false, rest)
  | cs => (false, cs)

/-- The greatest signed 64-bit number. -/
def maxInt64 : Int := 9223372036854775807

/-- The least signed 64-bit number. -/
def minInt64 : Int := -9223372036854775808

/-- The greatest unsigned 64-bit number. -/
def maxNat64 : Nat := 18446744073709551615

/-- The signed 64-bit number that a text denotes. -/
def int64? (s : String) : Option Int := do
  let (negative, cs) := splitSign s.toList
  let magnitude ← digits? cs
  let n : Int := if negative then -magnitude else magnitude
  if minInt64 ≤ n ∧ n ≤ maxInt64 then some n else none

/-- The unsigned 64-bit number that a text denotes; a minus sign is refused. -/
def nat64? (s : String) : Option Nat := do
  let (negative, cs) := splitSign s.toList
  let n ← if negative then none else digits? cs
  if n ≤ maxNat64 then some n else none

end Tabular.Text
