import Tabular.Query.Condition

/-!
WHERE clauses: conditions joined by AND and OR, read from left to right without precedence.
-/

namespace Tabular

inductive Connective
  | and
  | or
  deriving DecidableEq, Repr

namespace Connective

def word : Connective → String
  | and => "AND"
  | or => "OR"

/-- The connective of a word; the case of ASCII letters does not matter. -/
def ofWord? (s : String) : Option Connective := [and, or].find? fun c => c.word = s.toUpper

end Connective

/-- A condition and further ones, each joined to all before it. -/
structure WhereClause where
  first : Condition
  rest : List (Connective × Condition)
  deriving DecidableEq, Repr

namespace WhereClause

/-- All conditions in order. -/
def conditions (w : WhereClause) : List Condition := w.first :: w.rest.map (·.2)

/-- The words of a clause. -/
def render (w : WhereClause) : List String :=
  w.first.render :: w.rest.flatMap fun (c, condition) => [c.word, condition.render]

/-- Reads connectives and conditions in turn. -/
def parseRest : List String → Except Error (List (Connective × Condition))
  | [] => return []
  | [word] =>
      match Connective.ofWord? word with
      | some _ => throw (.badSyntax .danglingConnective)
      | none => throw (.badSyntax (.expectedConnective word))
  | word :: text :: rest => do
      let some connective := Connective.ofWord? word
        | throw (.badSyntax (.expectedConnective word))
      let condition ← Condition.parse text
      return (connective, condition) :: (← parseRest rest)

/-- Reads the words that follow WHERE. The error is that of the leftmost word at fault. -/
def parse : List String → Except Error WhereClause
  | [] => throw (.badSyntax .emptyWhere)
  | text :: rest => return ⟨← Condition.parse text, ← parseRest rest⟩

end WhereClause

end Tabular
