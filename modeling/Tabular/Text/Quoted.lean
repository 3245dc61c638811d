import Tabular.Text.GraphemeExtend
import Tabular.Text.Unprintable

/-!
Quoted text: between double quotes, with a backslash before a quote or a backslash, short escapes
for NUL, tab, carriage return and line feed, and the code point in hexadecimal for every other
character that cannot stand for itself.
-/

namespace Tabular.Text

/-- A character by its number, as in `\u{301}`. -/
def numberedEscape (c : Char) : List Char :=
  "\\u\x7b".toList ++ Nat.toDigits 16 c.toNat ++ "\x7d".toList

/-- The Hangul fillers: letters of which nothing is seen. -/
def isFiller (c : Char) : Bool := inRanges [(0x115f, 0x1160), (0x3164, 0x3164), (0xffa0, 0xffa0)] c

/-- The halfwidth sound marks: they extend the letter before them but take a place of their own. -/
def isHalfwidthMark (c : Char) : Bool := inRanges [(0xff9e, 0xff9f)] c

/-- Whether a character would not be seen, or not apart from the one before it. -/
def isHidden (c : Char) : Bool :=
  isUnprintable c || isFiller c || (isGraphemeExtend c && !isHalfwidthMark c)

/-- What a character is written as inside quotes. -/
def quotedChar (c : Char) : List Char :=
  if c = '\x00' then ['\\', '0']
  else if c = '\t' then ['\\', 't']
  else if c = '\r' then ['\\', 'r']
  else if c = '\n' then ['\\', 'n']
  else if c = '\\' ∨ c = '"' then ['\\', c]
  else if isHidden c then numberedEscape c
  else [c]

/-- A text between quotes. -/
def quoted (cs : List Char) : List Char :=
  '"' :: cs.flatMap quotedChar ++ ['"']

end Tabular.Text
