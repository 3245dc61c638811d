import Tabular.Error

/-!
Conditions `column op value`. A text is cut at its first two-character operator, wherever that is;
only a text without one is cut at its first one-character operator.
-/

namespace Tabular

inductive Comparison
  | eq
  | gt
  | lt
  | ge
  | le
  deriving DecidableEq, Repr

namespace Comparison

def all : List Comparison := [eq, gt, lt, ge, le]

def symbol : Comparison → String
  | eq => "="
  | gt => ">"
  | lt => "<"
  | ge => ">="
  | le => "<="

/-- Whether the comparison holds of two values in a given order. -/
def holds : Comparison → Ordering → Bool
  | eq, o => o = .eq
  | gt, o => o = .gt
  | lt, o => o = .lt
  | ge, o => o ≠ .lt
  | le, o => o ≠ .gt

end Comparison

/-- A comparison of the values of a column with a value. -/
structure Condition where
  column : String
  op : Comparison
  value : String
  deriving DecidableEq, Repr

namespace Condition

/-- The condition as it is written. -/
def render (c : Condition) : String := c.column ++ c.op.symbol ++ c.value

/-- Cuts a text at its first `>=` or `<=`. -/
def cutAtPair : List Char → Option (List Char × Comparison × List Char)
  | [] => none
  | '>' :: '=' :: rest => some ([], .ge, rest)
  | '<' :: '=' :: rest => some ([], .le, rest)
  | c :: rest => (cutAtPair rest).map fun cut => (c :: cut.1, cut.2)

/-- Cuts a text at its first `=`, `>` or `<`. -/
def cutAtSign : List Char → Option (List Char × Comparison × List Char)
  | [] => none
  | '=' :: rest => some ([], .eq, rest)
  | '>' :: rest => some ([], .gt, rest)
  | '<' :: rest => some ([], .lt, rest)
  | c :: rest => (cutAtSign rest).map fun cut => (c :: cut.1, cut.2)

/-- The condition that a text writes out. Column and value must not be empty. -/
def ofText? (text : String) : Option Condition := do
  let (column, op, value) ← cutAtPair text.toList <|> cutAtSign text.toList
  if column.isEmpty || value.isEmpty then none
  else some ⟨String.ofList column, op, String.ofList value⟩

def parse (text : String) : Except Error Condition :=
  match ofText? text with
  | some c => .ok c
  | none => .error (.malformedCondition text)

/-- Whether a stored value of the column's type satisfies the condition. A value that cannot be
read as one of that type does not. -/
def accepts (c : Condition) (type : ColumnType) (stored : String) : Bool :=
  (type.compare stored c.value).any c.op.holds

end Condition

/-- The column and value of an assignment `column=value`. -/
def parseAssignment (text : String) : Except SyntaxError (String × String) :=
  match Condition.ofText? text with
  | some ⟨column, .eq, value⟩ => .ok (column, value)
  | _ => .error .assignment

end Tabular
