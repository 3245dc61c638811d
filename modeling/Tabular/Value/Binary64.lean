import Tabular.Text.Basic

/-!
Decimal numbers and the binary64 numbers nearest to them. Values of a float column are kept as
text and compared as binary64 numbers, so what matters of such a number is its place in their
order. That place is an integer: zero for both zeros, and for a positive number the integer with
the same bits.
-/

namespace Tabular.Value

open Text (splitSign isDigits ofDigits)

/-- Optional sign, digits, at most one point among them, at least one digit. -/
def isFixedPoint (cs : List Char) : Bool :=
  let body := (splitSign cs).2
  body.all (fun c => c.isDigit || c = '.') && body.any Char.isDigit && body.count '.' ≤ 1

/-- The number `coefficient * 10 ^ exponent` with a sign. -/
structure Decimal where
  negative : Bool
  coefficient : Nat
  exponent : Int
  deriving DecidableEq

namespace Binary64

/-- The number of ranks that share an exponent, two to the power of 52. -/
def rangeSize : Nat := 4503599627370496

/-- The rank of the infinities: all eleven exponent bits are set. -/
def infinity : Nat := 2047 * rangeSize

/-- The quotient rounded to the nearest integer, a half to the even one. -/
def roundDiv (num den : Nat) : Nat :=
  let q := num / den
  let r := num % den
  if 2 * r > den ∨ 2 * r = den ∧ q % 2 = 1 then q + 1 else q

/-- The greatest `k` with `2 ^ k ≤ num / den`. -/
def log2Floor (num den : Nat) : Int :=
  let k : Int := (num.log2 : Int) - den.log2
  if den <<< k.toNat ≤ num <<< (-k).toNat then k else k - 1

/-- The rank of the positive quotient `num / den`: the bits of the binary64 number nearest to it,
infinity from half a unit above the greatest one. Below the least normal exponent the spacing
stays the same. -/
def rankOfQuotient (num den : Nat) : Nat :=
  let e := max (log2Floor num den) (-1022)
  let q := roundDiv (num <<< (52 - e).toNat) (den <<< (e - 52).toNat)
  min (q + (e + 1022).toNat * rangeSize) infinity

/-- The rank of a decimal number without its sign. A number of more than 310 digits before the
point is beyond the greatest binary64 number, and one that starts more than 330 places after the
point is nearer to zero than to the least. -/
def rankOfMagnitude (coefficient : Nat) (exponent : Int) : Nat :=
  let top := (Nat.toDigits 10 coefficient).length + exponent
  if coefficient = 0 ∨ top < -330 then 0
  else if top > 310 then infinity
  else rankOfQuotient (coefficient * Nat.pow 10 exponent.toNat) (Nat.pow 10 (-exponent).toNat)

/-- The place of the nearest binary64 number among all of them. -/
def rank (d : Decimal) : Int :=
  if d.negative then -rankOfMagnitude d.coefficient d.exponent
  else rankOfMagnitude d.coefficient d.exponent

end Binary64

/-- The exponent part of a number: nothing, or `e` and an integer. -/
def exponent? : List Char → Option Int
  | [] => some 0
  | c :: rest =>
      let (negative, digits) := splitSign rest
      if (c = 'e' ∨ c = 'E') ∧ isDigits digits then
        some (if negative then -ofDigits digits else ofDigits digits)
      else none

/-- The number written as digits with an optional point and an optional exponent. -/
def Decimal.ofText? (cs : List Char) : Option Decimal := do
  let (negative, body) := splitSign cs
  let whole := body.takeWhile Char.isDigit
  let rest := body.dropWhile Char.isDigit
  let (fraction, rest) := match rest with
    | '.' :: rest => (rest.takeWhile Char.isDigit, rest.dropWhile Char.isDigit)
    | _ => ([], rest)
  let exponent ← if (whole ++ fraction).isEmpty then none else exponent? rest
  return ⟨negative, ofDigits (whole ++ fraction), exponent - fraction.length⟩

/-- The place in the order of binary64 numbers of the number a text denotes. Infinity may be
written out in any case; a text that denotes no number has no place. -/
def binary64Rank? (cs : List Char) : Option Int :=
  let (negative, body) := splitSign cs
  if body.map Char.toLower ∈ ["inf".toList, "infinity".toList] then
    some (if negative then -Binary64.infinity else Binary64.infinity)
  else (Decimal.ofText? cs).map Binary64.rank

/-- The order of the binary64 numbers that two texts denote; `none` unless both denote one. -/
def compareFloats (l r : List Char) : Option Ordering := do
  return compare (← binary64Rank? l) (← binary64Rank? r)

end Tabular.Value
