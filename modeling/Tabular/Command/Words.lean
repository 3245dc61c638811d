import Tabular.Error
import Tabular.Text.Basic

/-!
Splitting a command line into words. Blanks separate words. Between double quotes blanks belong to
the word and a backslash takes the next character as it is; a word may be quoted in part, and an
empty pair of quotes is an empty word.
-/

namespace Tabular.Words

/-- Where in a line the scanner stands, with the part of the word read so far. -/
inductive Mode
  /-- Between words. -/
  | gap
  /-- In a word, outside quotes. -/
  | bare (word : String)
  /-- Inside quotes. -/
  | quote (word : String)
  /-- After a backslash inside quotes. -/
  | escape (word : String)
  deriving DecidableEq, Repr

/-- The words read so far and the place in the line. -/
structure Scanner where
  words : List String := []
  mode : Mode := .gap
  deriving DecidableEq, Repr

/-- Takes in one character. -/
def Scanner.step (s : Scanner) (c : Char) : Scanner :=
  match s.mode with
  | .gap =>
      if c = '"' then { s with mode := .quote "" }
      else if Text.isBlank c then s
      else { s with mode := .bare (String.singleton c) }
  | .bare word =>
      if c = '"' then { s with mode := .quote word }
      else if Text.isBlank c then { words := s.words ++ [word] }
      else { s with mode := .bare (word.push c) }
  | .quote word =>
      if c = '"' then { s with mode := .bare word }
      else if c = '\\' then { s with mode := .escape word }
      else { s with mode := .quote (word.push c) }
  | .escape word => { s with mode := .quote (word.push c) }

/-- The words at the end of a line, which must not be inside quotes. -/
def Scanner.finish (s : Scanner) : Except SyntaxError (List String) :=
  match s.mode with
  | .gap => .ok s.words
  | .bare word => .ok (s.words ++ [word])
  | .quote _ | .escape _ => .error .unbalancedQuotes

/-- The words of a line. -/
def split (line : String) : Except SyntaxError (List String) :=
  (line.toList.foldl Scanner.step {}).finish

end Tabular.Words
