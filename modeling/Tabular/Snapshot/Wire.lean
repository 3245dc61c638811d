import Tabular.Text.Basic

/-!
A binary format of numbers, texts and sequences. Numbers have a fixed width and come with the
lowest byte first. Texts and sequences come after their length in eight bytes; the length of a
text is that of its UTF-8 encoding, which must be valid. A reader takes what it reads from the
front of the bytes and gives the rest.
-/

namespace Tabular.Snapshot

/-- Reads a value from the front of a sequence of bytes. -/
abbrev Reader (α : Type) := List UInt8 → Option (α × List UInt8)

/-- The `width` lowest digits of a number in base 256. -/
def putNat : Nat → Nat → List UInt8
  | 0, _ => []
  | width + 1, n => UInt8.ofNat n :: putNat width (n / 256)

def readNat : Nat → Reader Nat
  | 0, bytes => some (0, bytes)
  | _ + 1, [] => none
  | width + 1, b :: bytes => (readNat width bytes).map fun (n, rest) => (b.toNat + 256 * n, rest)

def putString (s : String) : List UInt8 :=
  let bytes := Text.utf8 s
  putNat 8 bytes.length ++ bytes

def readString : Reader String := fun bytes => do
  let (length, rest) ← readNat 8 bytes
  let (text, rest) := rest.splitAt length
  if text.length = length then
    return (← Text.ofUtf8? text, rest)
  else none

def putPair {α β : Type} (putFst : α → List UInt8) (putSnd : β → List UInt8) (p : α × β) :
    List UInt8 :=
  putFst p.1 ++ putSnd p.2

def readPair {α β : Type} (readFst : Reader α) (readSnd : Reader β) : Reader (α × β) :=
  fun bytes => do
    let (a, rest) ← readFst bytes
    let (b, rest) ← readSnd rest
    return ((a, b), rest)

def putList {α : Type} (put : α → List UInt8) (xs : List α) : List UInt8 :=
  putNat 8 xs.length ++ xs.flatMap put

/-- Reads a given number of values. -/
def readMany {α : Type} (read : Reader α) : Nat → Reader (List α)
  | 0, bytes => some ([], bytes)
  | n + 1, bytes => do
      let (x, rest) ← read bytes
      let (xs, rest) ← readMany read n rest
      return (x :: xs, rest)

def readList {α : Type} (read : Reader α) : Reader (List α) := fun bytes => do
  let (length, rest) ← readNat 8 bytes
  readMany read length rest

end Tabular.Snapshot
