import Tabular.Text.Quoted

/-!
Replies to commands and the text that shows them. The items of an array are numbered from one, a
line each, with the numbers flush right; an array within an array is indented to where its first
item begins.
-/

namespace Tabular

inductive Reply
  | ok
  | integer (n : Int)
  | bulk (text : String)
  | array (items : List Reply)
  deriving Repr

namespace Reply

/-- An array of texts. -/
def strings (texts : List String) : Reply := .array (texts.map .bulk)

def decimal (n : Nat) : List Char := Nat.toDigits 10 n

/-- The number of an item, flush right in a given width, and a bracket. -/
def label (width i : Nat) : List Char :=
  List.replicate (width - (decimal i).length) ' ' ++ decimal i ++ [')', ' ']

/-- What separates two items: a new line and the indentation. -/
def itemBreak (indent : Nat) : List Char := '\n' :: List.replicate indent ' '

mutual

/-- The text of a reply whose first line begins at a given column. -/
def chars (indent : Nat) : Reply → List Char
  | ok => "OK".toList
  | integer n => "(integer) ".toList ++ (toString n).toList
  | bulk text => Text.quoted text.toList
  | array [] => "(empty array)".toList
  | array (item :: items) =>
      let width := (decimal (items.length + 1)).length
      label width 1 ++ chars (indent + width + 2) item ++ itemChars indent width 2 items

/-- The text of the items of an array from the `i`-th on, each after a break. -/
def itemChars (indent width i : Nat) : List Reply → List Char
  | [] => []
  | item :: items =>
      itemBreak indent ++ label width i ++ chars (indent + width + 2) item ++
        itemChars indent width (i + 1) items

end

/-- The text that shows a reply. -/
def render (r : Reply) : String := String.ofList (r.chars 0)

end Reply

end Tabular
