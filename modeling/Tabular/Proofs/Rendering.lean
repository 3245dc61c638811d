import Mathlib
import Tabular.Command.Reply
import Tabular.Proofs.KeyLayout

/-!
The text of a reply tells the reply (`Reply.render_inj`). A quoted text is read character by
character and ends at its first quote without a backslash. The items of nested arrays share lines,
and what tells them apart is the column of the first closing bracket of a line: an array has all its
brackets in one column, and an array within it has them further right. So an item is followed by the
end of the text, or by a line whose bracket stands further left than all that are the item's own
(`Reply.Closes`).
-/

namespace Tabular

namespace Text

/-! ### Quoted texts -/

variable {c d : Char} {cs ds u v : List Char}

/-- The character that a backslash and one more character stand for. -/
def unescaped : Char → Char
  | '0' => '\x00'
  | 't' => '\t'
  | 'r' => '\r'
  | 'n' => '\n'
  | c => c

/-- A character is written with a backslash and one more character, by its number, or as itself. -/
theorem quotedChar_cases (c : Char) :
    (∃ k, k ≠ 'u' ∧ quotedChar c = ['\\', k] ∧ unescaped k = c) ∨
      quotedChar c = numberedEscape c ∨ quotedChar c = [c] ∧ c ≠ '\\' ∧ c ≠ '"' := by
  unfold quotedChar
  split_ifs with hnul htab hcr hlf hself hhidden
  · exact Or.inl ⟨'0', by decide, rfl, hnul.symm⟩
  · exact Or.inl ⟨'t', by decide, rfl, htab.symm⟩
  · exact Or.inl ⟨'r', by decide, rfl, hcr.symm⟩
  · exact Or.inl ⟨'n', by decide, rfl, hlf.symm⟩
  · rcases hself with rfl | rfl
    · exact Or.inl ⟨'\\', by decide, rfl, rfl⟩
    · exact Or.inl ⟨'"', by decide, rfl, rfl⟩
  · exact Or.inr (Or.inl rfl)
  · exact Or.inr (Or.inr ⟨rfl, not_or.mp hself⟩)

theorem numberedEscape_append (c : Char) (u : List Char) :
    numberedEscape c ++ u = '\\' :: 'u' :: '\x7b' :: (Nat.toDigits 16 c.toNat ++ '\x7d' :: u) := by
  simp [numberedEscape]

theorem numberedEscape_append_inj (h : numberedEscape c ++ u = numberedEscape d ++ v) :
    c = d ∧ u = v := by
  have hbrace (n : Nat) : '\x7d' ∉ Nat.toDigits 16 n :=
    notMem_toDigits (by decide) (by decide) (by decide)
  simp only [numberedEscape_append, List.cons.injEq, true_and] at h
  obtain ⟨hdigits, htail⟩ := append_cons_inj (hbrace _) (hbrace _) h
  exact ⟨Char.toNat_inj.mp (toDigits_inj (by decide) (by decide) hdigits), htail⟩

/-- No character is written like the beginning of how another one is. -/
theorem quotedChar_append_inj (h : quotedChar c ++ u = quotedChar d ++ v) : c = d ∧ u = v := by
  rcases quotedChar_cases c with ⟨k, hk, hc, rfl⟩ | hc | ⟨hc, hslash, -⟩ <;>
    rcases quotedChar_cases d with ⟨k', hk', hd, rfl⟩ | hd | ⟨hd, hslash', -⟩ <;> rw [hc, hd] at h
  case inr.inl.inr.inl => exact numberedEscape_append_inj h
  all_goals
    simp only [numberedEscape_append, List.cons_append, List.nil_append, List.cons.injEq,
      true_and] at h
  case inl.inl => exact ⟨congrArg unescaped h.1, h.2⟩
  case inl.inr.inl => exact (hk h.1).elim
  case inl.inr.inr => exact (hslash' h.1.symm).elim
  case inr.inl.inl => exact (hk' h.1.symm).elim
  case inr.inl.inr.inr => exact (hslash' h.1.symm).elim
  case inr.inr.inl => exact (hslash h.1).elim
  case inr.inr.inr.inl => exact (hslash h.1).elim
  case inr.inr.inr.inr => exact h

/-- No character is written like the quote at the end. -/
theorem quotedChar_append_ne (c : Char) (u v : List Char) : quotedChar c ++ u ≠ '"' :: v := by
  rcases quotedChar_cases c with ⟨k, -, hc, -⟩ | hc | ⟨hc, -, hquote⟩ <;> rw [hc]
  · simp
  · simp [numberedEscape_append]
  · simp [hquote]

/-- A quoted text tells the text and where it ends. -/
theorem quoted_append_inj (h : quoted cs ++ u = quoted ds ++ v) : cs = ds ∧ u = v := by
  have hbody : cs.flatMap quotedChar ++ '"' :: u = ds.flatMap quotedChar ++ '"' :: v := by
    simpa [quoted] using h
  clear h
  induction cs generalizing ds with
  | nil =>
      cases ds with
      | nil => exact ⟨rfl, (List.cons.inj hbody).2⟩
      | cons d ds =>
          rw [List.flatMap_cons, List.append_assoc] at hbody
          exact (quotedChar_append_ne _ _ _ hbody.symm).elim
  | cons c cs ih =>
      rw [List.flatMap_cons, List.append_assoc] at hbody
      cases ds with
      | nil => exact (quotedChar_append_ne _ _ _ hbody).elim
      | cons d ds =>
          rw [List.flatMap_cons, List.append_assoc] at hbody
          obtain ⟨rfl, hrest⟩ := quotedChar_append_inj hbody
          obtain ⟨rfl, htail⟩ := ih hrest
          exact ⟨rfl, htail⟩

end Text

namespace Reply

open Text (append_cons_inj quoted_append_inj)

variable {indent width width' i : Nat} {u v : List Char}

/-! ### Lines and labels -/

/-- What follows an item of an array: nothing, or a line whose first closing bracket stands before a
column. -/
def Closes (column : Nat) (u : List Char) : Prop :=
  u = [] ∨ ∃ margin rest, u = '\n' :: (margin ++ ')' :: rest) ∧ ')' ∉ margin ∧
    margin.length < column

theorem Closes.mono {column column' : Nat} (h : Closes column u) (hle : column ≤ column') :
    Closes column' u :=
  h.imp_right fun ⟨margin, rest, hu, hmargin, hlt⟩ =>
    ⟨margin, rest, hu, hmargin, Nat.lt_of_lt_of_le hlt hle⟩

/-- What has no line break ends at the first one. -/
theorem Closes.append_inj {column : Nat} {xs ys : List Char} (hxs : '\n' ∉ xs) (hys : '\n' ∉ ys)
    (hu : Closes column u) (hv : Closes column v) (h : xs ++ u = ys ++ v) : xs = ys ∧ u = v := by
  rcases hu with rfl | ⟨margin, rest, rfl, -⟩ <;> rcases hv with rfl | ⟨margin', rest', rfl, -⟩
  · simpa using h
  · rw [List.append_nil] at h
    exact (hxs (h ▸ by simp)).elim
  · rw [List.append_nil] at h
    exact (hys (h ▸ by simp)).elim
  · obtain ⟨hxs, hrest⟩ := append_cons_inj hxs hys h
    exact ⟨hxs, congrArg _ hrest⟩

theorem bracket_notMem_decimal (n : Nat) : ')' ∉ decimal n :=
  Text.notMem_toDigits (by decide) (by decide) (by decide)

theorem decimal_one : decimal 1 = ['1'] := Nat.toDigits_of_lt_base (by decide)

/-- The characters of a line of an array that stand before its first closing bracket. -/
def margin (indent width i : Nat) : List Char :=
  List.replicate indent ' ' ++ (List.replicate (width - (decimal i).length) ' ' ++ decimal i)

theorem bracket_notMem_margin (indent width i : Nat) : ')' ∉ margin indent width i := by
  simp [margin, bracket_notMem_decimal]

theorem le_length_margin (indent width i : Nat) :
    indent + width ≤ (margin indent width i).length := by
  simp only [margin, List.length_append, List.length_replicate]
  omega

theorem length_margin (h : (decimal i).length ≤ width) :
    (margin indent width i).length = indent + width := by
  simp only [margin, List.length_append, List.length_replicate]
  omega

theorem itemBreak_label (indent width i : Nat) (u : List Char) :
    itemBreak indent ++ label width i ++ u =
      '\n' :: (margin indent width i ++ ')' :: ' ' :: u) := by
  simp [itemBreak, label, margin]

/-- An item that is still to come closes what stands before it, if its number is not too long. -/
theorem closes_itemChars {items : List Reply} (hwidth : 0 < width)
    (hfit : i + items.length ≤ 10 ^ width) (hu : Closes indent u) :
    Closes (indent + width + 2) (itemChars indent width i items ++ u) := by
  cases items with
  | nil => exact hu.mono (by omega)
  | cons item items =>
      have hlen : (decimal i).length ≤ width := by
        rw [List.length_cons] at hfit
        exact (Nat.length_toDigits_le_iff (by decide) hwidth).mpr (by omega)
      rw [itemChars, List.append_assoc, List.append_assoc, itemBreak_label]
      refine Or.inr ⟨margin indent width i, _, rfl, bracket_notMem_margin _ _ _, ?_⟩
      rw [length_margin hlen]
      omega

/-- An item of an array does not close what stands left of the array. -/
theorem not_closes_itemChars (item : Reply) (items : List Reply) :
    ¬ Closes indent (itemChars indent width i (item :: items) ++ u) := by
  rw [itemChars, List.append_assoc, List.append_assoc, itemBreak_label]
  rintro (h | ⟨margin', rest, h, hmargin, hlt⟩)
  · cases h
  · obtain ⟨heq, -⟩ := append_cons_inj (bracket_notMem_margin _ _ _) hmargin (List.cons.inj h).2
    have hle := le_length_margin indent width i
    rw [heq] at hle
    omega

/-- The first label of an array tells how wide its labels are. -/
theorem label_one_append_inj (hwidth : 0 < width) (hwidth' : 0 < width')
    (h : label width 1 ++ u = label width' 1 ++ v) : width = width' ∧ u = v := by
  have hlabel (width : Nat) (u : List Char) :
      label width 1 ++ u = List.replicate (width - 1) ' ' ++ '1' :: ')' :: ' ' :: u := by
    simp [label, decimal_one]
  have hone (n : Nat) : '1' ∉ List.replicate n ' ' := by simp
  rw [hlabel, hlabel] at h
  obtain ⟨hspaces, htail⟩ := append_cons_inj (hone _) (hone _) h
  have hlen := congrArg List.length hspaces
  rw [List.length_replicate, List.length_replicate] at hlen
  simp only [List.cons.injEq, true_and] at htail
  exact ⟨by omega, htail⟩

/-! ### Replies -/

@[simp] theorem chars_ok : chars indent ok = "OK".toList := rfl

@[simp] theorem chars_integer (n : Int) :
    chars indent (integer n) = "(integer) ".toList ++ (toString n).toList := rfl

@[simp] theorem chars_bulk (text : String) :
    chars indent (bulk text) = Text.quoted text.toList := rfl

@[simp] theorem chars_array_nil : chars indent (array []) = "(empty array)".toList := rfl

/-- The labels of an array are as wide as its greatest number. -/
theorem chars_array_cons (item : Reply) (items : List Reply)
    (hwidth : (decimal (items.length + 1)).length = width) :
    chars indent (array (item :: items)) =
      label width 1 ++ chars (indent + width + 2) item ++ itemChars indent width 2 items := by
  subst hwidth
  rfl

/-- The forms that the text of a reply may have. -/
inductive Form
  | ok
  | integer
  | bulk
  | array (empty : Bool)

def form : Reply → Form
  | ok => .ok
  | integer _ => .integer
  | bulk _ => .bulk
  | array items => .array items.isEmpty

/-- The form of a text by its first two characters. -/
def formOf : List Char → Form
  | 'O' :: _ => .ok
  | '"' :: _ => .bulk
  | '(' :: 'i' :: _ => .integer
  | '(' :: _ => .array true
  | _ => .array false

theorem formOf_chars (r : Reply) (indent : Nat) (u : List Char) :
    formOf (r.chars indent ++ u) = r.form := by
  match r with
  | ok => simp [formOf, form]
  | integer n => simp [formOf, form]
  | bulk text => simp [Text.quoted, formOf, form]
  | array [] => simp [formOf, form]
  | array (item :: items) =>
      rw [chars_array_cons item items rfl]
      -- the first label begins with its number or with a blank before it
      cases (decimal (items.length + 1)).length with
      | zero => simp [label, decimal_one, formOf, form]
      | succ n => cases n <;> simp [label, decimal_one, formOf, form, List.replicate_succ]

theorem integer_append_inj {m n : Int} {column : Nat} (hu : Closes column u) (hv : Closes column v)
    (h : (integer m).chars indent ++ u = (integer n).chars indent ++ v) : m = n ∧ u = v := by
  have hbreak (n : Int) : '\n' ∉ (toString n).toList := by
    rw [Int.toString_eq_repr, Int.repr_eq_if]
    split
    · rw [Nat.toList_repr]
      exact Text.notMem_toDigits (by decide) (by decide) (by decide)
    · rw [String.toList_append, Nat.toList_repr, List.mem_append, not_or]
      exact ⟨by decide, Text.notMem_toDigits (by decide) (by decide) (by decide)⟩
  simp only [chars_integer, List.append_assoc, List.append_cancel_left_eq] at h
  obtain ⟨hdigits, htail⟩ := Closes.append_inj (hbreak m) (hbreak n) hu hv h
  rw [String.toList_inj, Int.toString_eq_repr, Int.toString_eq_repr] at hdigits
  exact ⟨Int.repr_injective hdigits, htail⟩

mutual

/-- The text of a reply tells the reply and where it ends, if what follows closes it. -/
theorem chars_append_inj (r r' : Reply) {indent : Nat} {u v : List Char} (hu : Closes indent u)
    (hv : Closes indent v) (h : r.chars indent ++ u = r'.chars indent ++ v) : r = r' ∧ u = v := by
  have hform : r.form = r'.form := by
    rw [← formOf_chars r indent u, h, formOf_chars]
  match r, r', hform with
  | ok, ok, _ => exact ⟨rfl, List.append_cancel_left h⟩
  | integer m, integer n, _ =>
      obtain ⟨rfl, htail⟩ := integer_append_inj hu hv h
      exact ⟨rfl, htail⟩
  | bulk text, bulk text', _ =>
      obtain ⟨htext, htail⟩ := quoted_append_inj h
      exact ⟨congrArg bulk (String.toList_inj.mp htext), htail⟩
  | array [], array [], _ => exact ⟨rfl, List.append_cancel_left h⟩
  | array (item :: items), array (item' :: items'), _ =>
      have hpos (n : Nat) : 0 < (decimal n).length := Nat.length_toDigits_pos
      have hfits (n : Nat) : 2 + n ≤ 10 ^ (decimal (n + 1)).length := by
        have := (Nat.length_toDigits_le_iff (by decide) (hpos (n + 1))).mp le_rfl
        omega
      rw [chars_array_cons item items rfl, chars_array_cons item' items' rfl, List.append_assoc,
        List.append_assoc, List.append_assoc, List.append_assoc] at h
      obtain ⟨hwidth, hitems⟩ := label_one_append_inj (hpos _) (hpos _) h
      have hfit' := hfits items'.length
      rw [← hwidth] at hitems hfit'
      obtain ⟨hitem, hrest⟩ := chars_append_inj item item'
        (closes_itemChars (hpos _) (hfits _) hu) (closes_itemChars (hpos _) hfit' hv) hitems
      obtain ⟨hrest, htail⟩ :=
        itemChars_append_inj items items' (hpos _) (hfits _) hfit' hu hv hrest
      exact ⟨by rw [hitem, hrest], htail⟩

/-- The same of items that are still to come. -/
theorem itemChars_append_inj (items items' : List Reply) {indent width i : Nat} {u v : List Char}
    (hwidth : 0 < width) (hfit : i + items.length ≤ 10 ^ width)
    (hfit' : i + items'.length ≤ 10 ^ width) (hu : Closes indent u) (hv : Closes indent v)
    (h : itemChars indent width i items ++ u = itemChars indent width i items' ++ v) :
    items = items' ∧ u = v := by
  match items, items' with
  | [], [] => exact ⟨rfl, h⟩
  | [], item' :: items' =>
      rw [itemChars, List.nil_append] at h
      exact (not_closes_itemChars item' items' (h ▸ hu)).elim
  | item :: items, [] =>
      rw [itemChars.eq_1, List.nil_append] at h
      exact (not_closes_itemChars item items (h ▸ hv)).elim
  | item :: items, item' :: items' =>
      rw [List.length_cons] at hfit hfit'
      have hfit : i + 1 + items.length ≤ 10 ^ width := by omega
      have hfit' : i + 1 + items'.length ≤ 10 ^ width := by omega
      simp only [itemChars, List.append_assoc, List.append_right_inj] at h
      obtain ⟨hitem, hrest⟩ := chars_append_inj item item' (closes_itemChars hwidth hfit hu)
        (closes_itemChars hwidth hfit' hv) h
      obtain ⟨hrest, htail⟩ := itemChars_append_inj items items' hwidth hfit hfit' hu hv hrest
      exact ⟨by rw [hitem, hrest], htail⟩

end

/-- Two replies have the same text only if they are the same. -/
theorem render_inj (r r' : Reply) : r.render = r'.render ↔ r = r' := by
  refine ⟨fun h => ?_, congrArg render⟩
  have hchars : r.chars 0 = r'.chars 0 := by
    rw [← String.toList_ofList (l := r.chars 0), ← String.toList_ofList (l := r'.chars 0)]
    exact congrArg String.toList h
  exact (chars_append_inj r r' (Or.inl rfl) (Or.inl rfl) (congrArg (· ++ []) hchars)).1

end Reply

end Tabular
