import Tabular.Value.Binary64

/-!
Column types. Every value is kept as text; the type of its column says which texts are accepted
and how two of them compare.
-/

namespace Tabular

namespace Value

/-! ### Integers

They are written in decimal, of any length. The order is read off the digits: the sign decides
first, then the number of digits without leading zeros, then the digits from the left. Minus zero is
zero. -/

open Text (splitSign isDigits)

/-- An optional sign and at least one digit. -/
def isInteger (cs : List Char) : Bool := isDigits (splitSign cs).2

/-- An integer in its shortest form: the digits start with no zero, and zero has no sign. -/
structure Signed where
  negative : Bool
  digits : List Char
  deriving DecidableEq

/-- The shortest form of the integer a text denotes. -/
def Signed.ofText? (cs : List Char) : Option Signed :=
  if isInteger cs then
    let digits := (splitSign cs).2.dropWhile (· = '0')
    some ⟨(splitSign cs).1 && !digits.isEmpty, digits⟩
  else none

/-- The order of two runs of digits without leading zeros. -/
def compareMagnitudes (l r : List Char) : Ordering :=
  (compare l.length r.length).then (compareOfLessAndEq l r)

def Signed.compare (l r : Signed) : Ordering :=
  match l.negative, r.negative with
  | false, true => .gt
  | true, false => .lt
  | false, false => compareMagnitudes l.digits r.digits
  | true, true => (compareMagnitudes l.digits r.digits).swap

/-- The order of the integers that two texts denote; `none` unless both denote one. -/
def compareIntegers (l r : List Char) : Option Ordering := do
  return (← Signed.ofText? l).compare (← Signed.ofText? r)

/-! ### Dates

They have the fixed form `YYYY-MM-DD`. Only the form is checked. The width is fixed, so the order of
two such texts is the order of the dates. -/

/-- Four digits, two digits and two digits, joined by hyphens. -/
def isDate : List Char → Bool
  | [y₁, y₂, y₃, y₄, h₁, m₁, m₂, h₂, d₁, d₂] =>
      h₁ = '-' && h₂ = '-' && [y₁, y₂, y₃, y₄, m₁, m₂, d₁, d₂].all Char.isDigit
  | _ => false

end Value

/-! ### Types -/

inductive ColumnType
  /-- Any text, ordered by code points. -/
  | string
  /-- Decimal integers of any length. -/
  | integer
  /-- Decimal numbers, ordered as the nearest binary64 numbers. -/
  | float
  /-- Texts of the form `YYYY-MM-DD`. -/
  | date
  deriving DecidableEq, Repr

namespace ColumnType

def all : List ColumnType := [string, integer, float, date]

def name : ColumnType → String
  | string => "string"
  | integer => "integer"
  | float => "float"
  | date => "date"

/-- The type of a name; the case of ASCII letters does not matter. -/
def ofName? (s : String) : Option ColumnType := all.find? fun t => t.name = s.toLower

/-- The type of a name found in a store; an unknown name stands for the type that accepts all. -/
def ofStored (s : String) : ColumnType := (ofName? s).getD string

/-- Whether a text is a value of the type. -/
def accepts (t : ColumnType) (value : String) : Bool :=
  match t with
  | string => true
  | integer => Value.isInteger value.toList
  | float => Value.isFixedPoint value.toList
  | date => Value.isDate value.toList

/-- The order of two values; `none` if one of them cannot be read. Texts and dates compare by code
points, which for dates is the order of time. -/
def compare (t : ColumnType) (l r : String) : Option Ordering :=
  match t with
  | integer => Value.compareIntegers l.toList r.toList
  | float => Value.compareFloats l.toList r.toList
  | string | date => some (compareOfLessAndEq l r)

end ColumnType

end Tabular
