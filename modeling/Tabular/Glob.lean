import Tabular.Text.Basic

/-!
Glob patterns over the UTF-8 bytes of a key. `*` is any run of bytes, `?` any byte, a backslash
makes the next byte literal, and brackets enclose a class of bytes. A class may begin with `^` for
its complement; its members are bytes and ranges `a-b`, whose ends may stand in either order. A
bracket that is never closed and a backslash at the very end are literal.

The search reads pattern and key together and never looks further back than the last star.
-/

namespace Tabular.Glob

/-! ### Classes -/

/-- Removes the backslash before an escaped byte: the byte meant, and what follows it. -/
def unescape : UInt8 → List UInt8 → UInt8 × List UInt8
  | 0x5c, b :: rest => (b, rest)
  | b, rest => (b, rest)

/-- The range that begins with `lo`, and what follows it. A hyphen that is the last byte of the
class makes no range. -/
def rangeFrom (lo : UInt8) : List UInt8 → (UInt8 × UInt8) × List UInt8
  | 0x2d :: hi :: rest => if hi = 0x5d then ((lo, lo), 0x2d :: hi :: rest) else ((lo, hi), rest)
  | rest => ((lo, lo), rest)

theorem length_unescape_le (b : UInt8) (rest : List UInt8) :
    (unescape b rest).2.length ≤ rest.length := by
  unfold unescape; split <;> simp

theorem length_rangeFrom_le (lo : UInt8) (rest : List UInt8) :
    (rangeFrom lo rest).2.length ≤ rest.length := by
  unfold rangeFrom
  split
  · split
    · exact Nat.le_refl _
    · simp only [List.length_cons]; omega
  · exact Nat.le_refl _

/-- The member of a class that begins with byte `b`, and what follows it. -/
def member (b : UInt8) (rest : List UInt8) : (UInt8 × UInt8) × List UInt8 :=
  rangeFrom (unescape b rest).1 (unescape b rest).2

theorem length_member_le (b : UInt8) (rest : List UInt8) :
    (member b rest).2.length ≤ rest.length :=
  Nat.le_trans (length_rangeFrom_le _ _) (length_unescape_le b rest)

/-- Whether a byte lies in a range. -/
def covers (range : UInt8 × UInt8) (c : UInt8) : Bool :=
  min range.1 range.2 ≤ c && c ≤ max range.1 range.2

/-- Whether a byte has been found or is among the members up to the closing bracket, and what
follows the bracket. -/
def findMember (c : UInt8) (found : Bool) : List UInt8 → Option (Bool × List UInt8)
  | [] => none
  | 0x5d :: rest => some (found, rest)
  | b :: rest => findMember c (found || covers (member b rest).1 c) (member b rest).2
termination_by pattern => pattern.length
decreasing_by exact Nat.lt_succ_of_le (length_member_le b rest)

theorem length_findMember_lt {c : UInt8} {found : Bool} {pattern : List UInt8}
    {result : Bool × List UInt8} (h : findMember c found pattern = some result) :
    result.2.length < pattern.length := by
  fun_induction findMember c found pattern with
  | case1 => cases h
  | case2 found rest =>
      obtain rfl := Option.some.inj h
      exact Nat.lt_succ_self _
  | case3 found b rest _ ih =>
      exact Nat.lt_succ_of_lt (Nat.lt_of_lt_of_le (ih h) (length_member_le b rest))

/-- Whether a byte is in the class whose opening bracket has just been read, and what follows the
class. -/
def inClass? (c : UInt8) (pattern : List UInt8) : Option (Bool × List UInt8) :=
  let negated : Bool := pattern.head? = some 0x5e
  (findMember c false (if negated then pattern.tail else pattern)).map fun result =>
    (result.1 != negated, result.2)

theorem length_inClass?_lt {c : UInt8} {pattern : List UInt8} {result : Bool × List UInt8}
    (h : inClass? c pattern = some result) : result.2.length < pattern.length := by
  obtain ⟨found, hfound, rfl⟩ := Option.map_eq_some_iff.mp h
  have hlt := length_findMember_lt hfound
  split at hlt
  · rw [List.length_tail] at hlt
    exact Nat.lt_of_lt_of_le hlt (Nat.sub_le _ _)
  · exact hlt

/-! ### The search -/

/-- What a pattern makes of the next byte of the key. -/
inductive Move
  /-- A star begins the pattern; it may take the byte or not. -/
  | star (rest : List UInt8)
  /-- The byte fits, and the pattern goes on behind what it fits. -/
  | fit (rest : List UInt8)
  | fail
  deriving DecidableEq, Repr

/-- The pattern behind what a move has read. -/
def Move.rest? : Move → Option (List UInt8)
  | star rest | fit rest => some rest
  | fail => none

def move (c : UInt8) : List UInt8 → Move
  | [] => .fail
  | 0x2a :: rest => .star rest
  | 0x3f :: rest => .fit rest
  | 0x5c :: b :: rest => if b = c then .fit rest else .fail
  | 0x5b :: rest =>
      match inClass? c rest with
      | some (true, rest) => .fit rest
      | some (false, _) => .fail
      | none => if c = 0x5b then .fit rest else .fail
  | b :: rest => if b = c then .fit rest else .fail

/-- A move reads some of the pattern. -/
theorem length_move_lt {c : UInt8} {pattern rest : List UInt8}
    (h : (move c pattern).rest? = some rest) : rest.length < pattern.length := by
  revert h
  fun_cases move c pattern with
  | case6 bracket _ hclass =>
      intro h
      obtain rfl := Option.some.inj h
      exact Nat.lt_succ_of_lt (length_inClass?_lt hclass)
  | _ =>
      intro h
      simp only [Move.rest?] at h
      grind

/-- The last star that the search has met: the pattern behind it, and the key that it has not
taken. -/
structure Retry where
  pattern : List UInt8
  key : List UInt8
  deriving DecidableEq, Repr

/-- Whether the pattern matches the key. Where a byte does not fit, the last star takes one more
byte, and the search goes on behind it. The stars before that one take no more. -/
def search (pattern key : List UInt8) (retry : Option Retry) : Bool :=
  match key with
  | [] => pattern.all (· = 0x2a)
  | c :: rest =>
      match _moved : move c pattern with
      | .star behind => search behind (c :: rest) (some ⟨behind, c :: rest⟩)
      | .fit behind => search behind rest retry
      | .fail =>
          match retry with
          | some ⟨behind, _ :: left⟩ => search behind left (some ⟨behind, left⟩)
          | _ => false
termination_by
  (max pattern.length (retry.elim 0 (·.pattern.length)), retry.elim 0 (·.key.length), key.length)
decreasing_by
  all_goals rw [Prod.lex_def, Prod.lex_def]
  · have := length_move_lt (congrArg Move.rest? _moved)
    dsimp only [Option.elim]
    omega
  · have := length_move_lt (congrArg Move.rest? _moved)
    dsimp only [List.length_cons]
    omega
  · dsimp only [Option.elim, List.length_cons]
    omega

/-- Whether a key matches a pattern. -/
def matchesKey (pattern key : String) : Bool := search (Text.utf8 pattern) (Text.utf8 key) none

/-- The pattern that matches a text and nothing else. -/
def escape (s : String) : String :=
  String.ofList <| s.toList.flatMap fun c => if c ∈ ['*', '?', '[', ']', '\\'] then ['\\', c] else [c]

end Tabular.Glob
