import Mathlib.Data.List.TakeWhile
import Tabular.Command.Words

/-!
How a line writes a list of words. A word is written as one or more pieces, each bare or between
quotes, and blanks stand between words and may stand at both ends of the line. The scanner finds
the words that a line writes and refuses a line that writes none (`Words.split_exact`). Blanks at
the ends of a line do not count, so that a trimmed line has the same words (`Words.split_trim`).
-/

namespace Tabular

namespace Text

/-- A run of blanks, which may be empty. -/
def Blanks (cs : List Char) : Prop := ∀ c ∈ cs, isBlank c = true

theorem blanks_nil : Blanks [] := fun _ hc => (List.not_mem_nil hc).elim

theorem isBlank_quote : isBlank '"' = false := by decide

theorem ne_quote_of_isBlank {c : Char} (h : isBlank c = true) : c ≠ '"' := by
  rintro rfl
  rw [isBlank_quote] at h
  cases h

/-- A line is what is left of it when it is trimmed, with blanks before and after. -/
theorem exists_trimBlank (cs : List Char) : ∃ before after : List Char,
    cs = before ++ trimBlank cs ++ after ∧ Blanks before ∧ Blanks after := by
  let rest := cs.dropWhile isBlank
  refine ⟨cs.takeWhile isBlank, (rest.reverse.takeWhile isBlank).reverse, ?_,
    fun c hc => List.mem_takeWhile_imp hc,
    fun c hc => List.mem_takeWhile_imp (List.mem_reverse.mp hc)⟩
  have hrest : trimBlank cs ++ (rest.reverse.takeWhile isBlank).reverse = rest := by
    rw [trimBlank, ← List.reverse_append, List.takeWhile_append_dropWhile, List.reverse_reverse]
  rw [List.append_assoc, hrest, List.takeWhile_append_dropWhile]

end Text

namespace Words

open Text (isBlank Blanks blanks_nil isBlank_quote ne_quote_of_isBlank)

/-! ### Lines -/

/-- How a text is written between quotes: a backslash stands before a character that is taken as it
is, and all others but a quote stand for themselves. -/
inductive Quotes : List Char → List Char → Prop
  | nil : Quotes [] []
  | escaped (c : Char) {text written : List Char} (h : Quotes text written) :
      Quotes (c :: text) ('\\' :: c :: written)
  | plain {c : Char} {text written : List Char} (hquote : c ≠ '"') (hescape : c ≠ '\\')
      (h : Quotes text written) : Quotes (c :: text) (c :: written)

/-- How a part of a word is written. -/
inductive Piece : List Char → List Char → Prop
  | bare {text : List Char} (hne : text ≠ [])
      (h : ∀ c ∈ text, isBlank c = false ∧ c ≠ '"') : Piece text text
  | quoted {text written : List Char} (h : Quotes text written) :
      Piece text ('"' :: written ++ ['"'])

/-- How a text is written in pieces, one after the other. -/
inductive Pieces : List Char → List Char → Prop
  | nil : Pieces [] []
  | cons {text text' written written' : List Char} (h : Piece text written)
      (h' : Pieces text' written') : Pieces (text ++ text') (written ++ written')

/-- A word is written in one piece or in more. -/
inductive Word : List Char → List Char → Prop
  | mk {text text' written written' : List Char} (h : Piece text written)
      (h' : Pieces text' written') : Word (text ++ text') (written ++ written')

/-- What follows a word: blanks at the end of the line, or blanks, another word and what follows
that. -/
inductive Follow : List String → List Char → Prop
  | last {blanks : List Char} (h : Blanks blanks) : Follow [] blanks
  | next {blanks written rest : List Char} {word : String} {words : List String}
      (hne : blanks ≠ []) (hblanks : Blanks blanks) (hword : Word word.toList written)
      (h : Follow words rest) : Follow (word :: words) (blanks ++ written ++ rest)

/-- A line that writes these words. -/
inductive Line : List String → List Char → Prop
  | blank {blanks : List Char} (h : Blanks blanks) : Line [] blanks
  | words {blanks written rest : List Char} {word : String} {words : List String}
      (hblanks : Blanks blanks) (hword : Word word.toList written) (h : Follow words rest) :
      Line (word :: words) (blanks ++ written ++ rest)

/-! ### What a line writes is found -/

theorem append_ofList_cons (word : String) (c : Char) (text : List Char) :
    word ++ String.ofList (c :: text) = word ++ String.ofList [c] ++ String.ofList text := by
  rw [String.append_assoc, ← String.ofList_append, List.singleton_append]

theorem Piece.exists_cons {text written : List Char} (h : Piece text written) :
    ∃ c rest, written = c :: rest ∧ isBlank c = false := by
  cases h with
  | bare hne h =>
      obtain ⟨c, rest, rfl⟩ := List.exists_cons_of_ne_nil hne
      exact ⟨c, rest, rfl, (h c List.mem_cons_self).1⟩
  | quoted h => exact ⟨'"', _, rfl, isBlank_quote⟩

namespace Scanner

variable {text written blanks rest : List Char} {words ws : List String} {word : String} {c : Char}

theorem step_gap_quote : step ⟨words, .gap⟩ '"' = ⟨words, .quote ""⟩ := rfl

theorem step_bare_quote : step ⟨words, .bare word⟩ '"' = ⟨words, .quote word⟩ := rfl

theorem step_quote_quote : step ⟨words, .quote word⟩ '"' = ⟨words, .bare word⟩ := rfl

theorem step_quote_escape : step ⟨words, .quote word⟩ '\\' = ⟨words, .escape word⟩ := rfl

theorem step_gap_blank (hblank : isBlank c = true) : step ⟨words, .gap⟩ c = ⟨words, .gap⟩ := by
  simp [step, ne_quote_of_isBlank hblank, hblank]

theorem step_gap_plain (hblank : isBlank c = false) (hquote : c ≠ '"') :
    step ⟨words, .gap⟩ c = ⟨words, .bare (String.ofList [c])⟩ := by
  simp [step, hquote, hblank]

/-- A blank ends a word. -/
theorem step_bare_blank (hblank : isBlank c = true) :
    step ⟨words, .bare word⟩ c = ⟨words ++ [word], .gap⟩ := by
  simp [step, ne_quote_of_isBlank hblank, hblank]

theorem step_bare_plain (hblank : isBlank c = false) (hquote : c ≠ '"') :
    step ⟨words, .bare word⟩ c = ⟨words, .bare (word ++ String.ofList [c])⟩ := by
  simp [step, hquote, hblank]

theorem step_quote_plain (hquote : c ≠ '"') (hescape : c ≠ '\\') :
    step ⟨words, .quote word⟩ c = ⟨words, .quote (word ++ String.ofList [c])⟩ := by
  simp [step, hquote, hescape]

/-- Behind a backslash every character is taken as it is. -/
theorem step_escape :
    step ⟨words, .escape word⟩ c = ⟨words, .quote (word ++ String.ofList [c])⟩ := by
  simp [step]

theorem foldl_quotes (h : Quotes text written) (words : List String) (word : String) :
    written.foldl step ⟨words, .quote word⟩ = ⟨words, .quote (word ++ String.ofList text)⟩ := by
  induction h generalizing word with
  | nil => simp
  | escaped c h ih =>
      rw [List.foldl_cons, List.foldl_cons, step_quote_escape, step_escape, ih,
        ← append_ofList_cons]
  | plain hquote hescape h ih =>
      rw [List.foldl_cons, step_quote_plain hquote hescape, ih, ← append_ofList_cons]

theorem foldl_bare (h : ∀ c ∈ text, isBlank c = false ∧ c ≠ '"') (words : List String)
    (word : String) :
    text.foldl step ⟨words, .bare word⟩ = ⟨words, .bare (word ++ String.ofList text)⟩ := by
  induction text generalizing word with
  | nil => simp
  | cons c text ih =>
      obtain ⟨⟨hblank, hquote⟩, hrest⟩ := List.forall_mem_cons.mp h
      rw [List.foldl_cons, step_bare_plain hblank hquote, ih hrest, ← append_ofList_cons]

theorem foldl_piece (h : Piece text written) (words : List String) (word : String) :
    written.foldl step ⟨words, .bare word⟩ = ⟨words, .bare (word ++ String.ofList text)⟩ := by
  cases h with
  | bare _ h => exact foldl_bare h words word
  | quoted h =>
      rw [List.cons_append, List.foldl_cons, step_bare_quote, List.foldl_append, foldl_quotes h,
        List.foldl_cons, step_quote_quote, List.foldl_nil]

theorem foldl_pieces (h : Pieces text written) (words : List String) (word : String) :
    written.foldl step ⟨words, .bare word⟩ = ⟨words, .bare (word ++ String.ofList text)⟩ := by
  induction h generalizing word with
  | nil => simp
  | cons h _ ih =>
      rw [List.foldl_append, foldl_piece h, ih, String.ofList_append, String.append_assoc]

/-- A word begins like a word that goes on. -/
theorem foldl_word (h : Word text written) (words : List String) :
    written.foldl step ⟨words, .gap⟩ = ⟨words, .bare (String.ofList text)⟩ := by
  obtain ⟨h, h'⟩ := h
  obtain ⟨c, rest, rfl, hc⟩ := h.exists_cons
  have hstep : step ⟨words, .gap⟩ c = step ⟨words, .bare ""⟩ c := by
    by_cases hquote : c = '"' <;> simp [step, hquote, hc]
  rw [List.cons_append, List.foldl_cons, hstep, ← List.foldl_cons, ← List.cons_append,
    foldl_pieces (.cons h h'), String.empty_append]

/-- Blanks between words do not count. -/
theorem foldl_blanks (h : Blanks blanks) (words : List String) :
    blanks.foldl step ⟨words, .gap⟩ = ⟨words, .gap⟩ := by
  induction blanks with
  | nil => rfl
  | cons c rest ih =>
      obtain ⟨hc, hrest⟩ := List.forall_mem_cons.mp h
      rw [List.foldl_cons, step_gap_blank hc, ih hrest]

/-- Blanks at the end of a line do not count. -/
theorem finish_blanks (h : Blanks blanks) (s : Scanner) :
    (blanks.foldl step s).finish = s.finish := by
  induction blanks generalizing s with
  | nil => rfl
  | cons c rest ih =>
      obtain ⟨hc, hrest⟩ := List.forall_mem_cons.mp h
      rw [List.foldl_cons, ih hrest]
      obtain ⟨words, mode⟩ := s
      cases mode with
      | gap => rw [step_gap_blank hc]
      | bare word => rw [step_bare_blank hc]; rfl
      -- an open quote stays open
      | quote word =>
          simp only [step, ne_quote_of_isBlank hc, if_false]
          split <;> rfl
      | escape word => rfl

theorem finish_follow (h : Follow ws rest) (words : List String) (word : String) :
    (rest.foldl step ⟨words, .bare word⟩).finish = .ok (words ++ word :: ws) := by
  induction h generalizing words word with
  | last h => exact finish_blanks h _
  | @next blanks written rest word' ws hne hblanks hword _ ih =>
      obtain ⟨c, blanks, rfl⟩ := List.exists_cons_of_ne_nil hne
      obtain ⟨hc, hblanks⟩ := List.forall_mem_cons.mp hblanks
      rw [List.foldl_append, List.foldl_append, List.foldl_cons, step_bare_blank hc,
        foldl_blanks hblanks, foldl_word hword, String.ofList_toList, ih, List.append_assoc]
      rfl

/-- The words that a line writes are found. -/
theorem finish_line (h : Line ws rest) : (rest.foldl step {}).finish = .ok ws := by
  cases h with
  | blank h => exact finish_blanks h {}
  | words hblanks hword h =>
      rw [List.foldl_append, List.foldl_append, foldl_blanks hblanks, foldl_word hword,
        String.ofList_toList]
      exact finish_follow h [] _

end Scanner

/-! ### What is found is what the line writes -/

section
variable {text written rest : List Char} {words : List String} {word : String} {c : Char}

/-- What is left of a line inside a word: the rest of the word and what follows it. -/
def Bare (word : String) (rest : List Char) (words : List String) : Prop :=
  ∃ text written rest' words', Pieces text written ∧ Follow words' rest' ∧
    rest = written ++ rest' ∧ words = (word ++ String.ofList text) :: words'

/-- What is left of a line inside quotes. -/
def Quote (word : String) (rest : List Char) (words : List String) : Prop :=
  ∃ text written rest', Quotes text written ∧ Bare (word ++ String.ofList text) rest' words ∧
    rest = written ++ '"' :: rest'

/-- What is left of a line at a place in it, with the words that come of this. -/
def Left : Mode → List Char → List String → Prop
  | .gap, rest, words => Line words rest
  | .bare word, rest, words => Bare word rest words
  | .quote word, rest, words => Quote word rest words
  | .escape word, rest, words =>
      ∃ c rest', rest = c :: rest' ∧ Quote (word ++ String.ofList [c]) rest' words

theorem Line.cons_blank (hc : isBlank c = true) (h : Line words rest) :
    Line words (c :: rest) := by
  cases h with
  | blank h => exact .blank (List.forall_mem_cons.mpr ⟨hc, h⟩)
  | words hblanks hword h => exact .words (List.forall_mem_cons.mpr ⟨hc, hblanks⟩) hword h

theorem Follow.of_line (hc : isBlank c = true) (h : Line words rest) :
    Follow words (c :: rest) := by
  cases h with
  | blank h => exact .last (List.forall_mem_cons.mpr ⟨hc, h⟩)
  | words hblanks hword h =>
      exact .next (List.cons_ne_nil c _) (List.forall_mem_cons.mpr ⟨hc, hblanks⟩) hword h

/-- A piece goes on with a word. -/
theorem Bare.of_piece (hpiece : Piece text written)
    (h : Bare (word ++ String.ofList text) rest words) : Bare word (written ++ rest) words := by
  obtain ⟨text', written', rest', words', hpieces, hfollow, rfl, rfl⟩ := h
  refine ⟨_, _, rest', words', .cons hpiece hpieces, hfollow, ?_, ?_⟩
  · rw [List.append_assoc]
  · rw [String.ofList_append, String.append_assoc]

/-- A piece begins a word. -/
theorem Line.of_piece (hpiece : Piece text written) (h : Bare (String.ofList text) rest words) :
    Line words (written ++ rest) := by
  obtain ⟨text', written', rest', words', hpieces, hfollow, rfl, rfl⟩ := h
  have hword : Word (String.ofList text ++ String.ofList text').toList (written ++ written') := by
    rw [← String.ofList_append, String.toList_ofList]
    exact .mk hpiece hpieces
  have hline := Line.words blanks_nil hword hfollow
  rwa [List.nil_append, List.append_assoc] at hline

theorem piece_of_char (hblank : isBlank c = false) (hquote : c ≠ '"') : Piece [c] [c] :=
  .bare (List.cons_ne_nil c []) (List.forall_mem_singleton.mpr ⟨hblank, hquote⟩)

theorem quoted_append (written rest : List Char) :
    '"' :: (written ++ '"' :: rest) = ('"' :: written ++ ['"']) ++ rest := by simp

theorem Bare.of_quote (h : Quote word rest words) : Bare word ('"' :: rest) words := by
  obtain ⟨text, written, rest', hquotes, hbare, rfl⟩ := h
  rw [quoted_append]
  exact Bare.of_piece (.quoted hquotes) hbare

theorem Line.of_quote (h : Quote "" rest words) : Line words ('"' :: rest) := by
  obtain ⟨text, written, rest', hquotes, hbare, rfl⟩ := h
  rw [String.empty_append] at hbare
  rw [quoted_append]
  exact Line.of_piece (.quoted hquotes) hbare

/-- A blank ends a word. -/
theorem Bare.of_line (hc : isBlank c = true) (h : Line words rest) :
    Bare word (c :: rest) (word :: words) :=
  ⟨[], [], c :: rest, words, .nil, .of_line hc h, rfl, by
    rw [String.ofList_nil, String.append_empty]⟩

/-- Between quotes a quote is the end. -/
theorem Quote.of_bare (h : Bare word rest words) : Quote word ('"' :: rest) words :=
  ⟨[], [], rest, .nil, by rwa [String.ofList_nil, String.append_empty], rfl⟩

/-- What is written between quotes begins with the writing of a character. -/
theorem Quote.of_start (start : List Char)
    (hstart : ∀ {text written}, Quotes text written → Quotes (c :: text) (start ++ written))
    (h : Quote (word ++ String.ofList [c]) rest words) : Quote word (start ++ rest) words := by
  obtain ⟨text, written, rest', hquotes, hbare, rfl⟩ := h
  rw [← append_ofList_cons] at hbare
  exact ⟨c :: text, start ++ written, rest', hstart hquotes, hbare, by rw [List.append_assoc]⟩

theorem Quote.of_escape (h : Left (.escape word) rest words) : Quote word ('\\' :: rest) words := by
  obtain ⟨c, rest', rfl, h⟩ := h
  exact .of_start ['\\', c] (.escaped c) h

end

namespace Scanner

variable {rest : List Char} {ws : List String} {c : Char}

/-- What a scanner has found and what is left of the line make up these words. -/
def Accounts (s : Scanner) (rest : List Char) (ws : List String) : Prop :=
  ∃ words, Left s.mode rest words ∧ ws = s.words ++ words

theorem accounts_of_finish {s : Scanner} (h : s.finish = .ok ws) : s.Accounts [] ws := by
  obtain ⟨words, mode⟩ := s
  cases mode with
  | gap => exact ⟨[], .blank blanks_nil, by simpa [finish] using h.symm⟩
  | bare word =>
      exact ⟨[word], ⟨[], [], [], [], .nil, .last blanks_nil, rfl, by simp⟩, (Except.ok.inj h).symm⟩
  | quote word => cases h
  | escape word => cases h

/-- What is left at one place is part of what is left at another, with no word between them. -/
theorem Accounts.of_left {words : List String} {mode mode' : Mode} {rest' : List Char}
    (h : Accounts ⟨words, mode'⟩ rest' ws)
    (hleft : ∀ ws, Left mode' rest' ws → Left mode rest ws) : Accounts ⟨words, mode⟩ rest ws := by
  obtain ⟨ws', h, hws⟩ := h
  exact ⟨ws', hleft ws' h, hws⟩

theorem accounts_of_step {s : Scanner} (h : (s.step c).Accounts rest ws) :
    s.Accounts (c :: rest) ws := by
  obtain ⟨words, mode⟩ := s
  cases mode with
  | gap =>
      by_cases hquote : c = '"'
      · subst hquote
        rw [step_gap_quote] at h
        exact h.of_left fun _ => Line.of_quote
      cases hblank : isBlank c with
      | true =>
          rw [step_gap_blank hblank] at h
          exact h.of_left fun _ => Line.cons_blank hblank
      | false =>
          rw [step_gap_plain hblank hquote] at h
          exact h.of_left fun _ => Line.of_piece (piece_of_char hblank hquote)
  | bare word =>
      by_cases hquote : c = '"'
      · subst hquote
        rw [step_bare_quote] at h
        exact h.of_left fun _ => Bare.of_quote
      cases hblank : isBlank c with
      | true =>
          rw [step_bare_blank hblank] at h
          obtain ⟨ws', hline, rfl⟩ := h
          refine ⟨word :: ws', Bare.of_line hblank hline, ?_⟩
          rw [List.append_assoc, List.singleton_append]
      | false =>
          rw [step_bare_plain hblank hquote] at h
          exact h.of_left fun _ => Bare.of_piece (piece_of_char hblank hquote)
  | quote word =>
      by_cases hquote : c = '"'
      · subst hquote
        rw [step_quote_quote] at h
        exact h.of_left fun _ => Quote.of_bare
      by_cases hescape : c = '\\'
      · subst hescape
        rw [step_quote_escape] at h
        exact h.of_left fun _ => Quote.of_escape
      rw [step_quote_plain hquote hescape] at h
      exact h.of_left fun _ => Quote.of_start [c] (.plain hquote hescape)
  | escape word =>
      rw [step_escape] at h
      exact h.of_left fun _ hquote => ⟨c, rest, rfl, hquote⟩

theorem accounts_of_foldl {s : Scanner} (h : (rest.foldl step s).finish = .ok ws) :
    s.Accounts rest ws := by
  induction rest generalizing s with
  | nil => exact accounts_of_finish h
  | cons c rest ih => exact accounts_of_step (ih h)

end Scanner

/-! ### Words of a line -/

theorem split_eq_ok_iff {line : String} {words : List String} :
    split line = .ok words ↔ Line words line.toList := by
  constructor
  · intro h
    obtain ⟨words', hleft, rfl⟩ := Scanner.accounts_of_foldl h
    exact hleft
  · exact fun h => Scanner.finish_line h

/-- Nothing but a quote that is not closed is wrong with a line. -/
theorem Scanner.cause_of_finish {s : Scanner} {e : SyntaxError} (h : s.finish = .error e) :
    e = .unbalancedQuotes := by
  unfold finish at h
  split at h <;> cases h <;> rfl

theorem split_eq_error_iff {line : String} {e : SyntaxError} : split line = .error e ↔
    e = .unbalancedQuotes ∧ ∀ words, ¬ Line words line.toList := by
  simp only [← split_eq_ok_iff]
  constructor
  · intro h
    refine ⟨Scanner.cause_of_finish h, fun words hwords => ?_⟩
    rw [h] at hwords
    cases hwords
  · rintro ⟨rfl, hnone⟩
    cases hsplit : split line with
    | ok words => exact (hnone words hsplit).elim
    | error e => exact congrArg Except.error (Scanner.cause_of_finish hsplit)

/-- A trimmed line has the same words. -/
theorem split_trim (line : String) : split (Text.trim line) = split line := by
  obtain ⟨before, after, hline, hbefore, hafter⟩ := Text.exists_trimBlank line.toList
  have htrim : (Text.trim line).toList = Text.trimBlank line.toList := String.toList_ofList
  let trimmed := Text.trimBlank line.toList
  calc split (Text.trim line)
      = (trimmed.foldl Scanner.step {}).finish := by rw [split, htrim]
    _ = (after.foldl Scanner.step
          (trimmed.foldl Scanner.step (before.foldl Scanner.step {}))).finish := by
        rw [Scanner.finish_blanks hafter, Scanner.foldl_blanks hbefore]
    _ = split line := by
        rw [← List.foldl_append, ← List.foldl_append, ← List.append_assoc, ← hline, split]

/-- The words of a line are those that it writes, one or more pieces to a word and blanks between
words. A line that writes no list of words is refused because its quotes do not balance, and blanks
at its ends do not matter. -/
theorem split_exact (line : String) :
    (∀ words, split line = .ok words ↔ Line words line.toList) ∧
    (∀ e, split line = .error e ↔
      e = .unbalancedQuotes ∧ ∀ words, ¬ Line words line.toList) ∧
    split (Text.trim line) = split line :=
  ⟨fun _ => split_eq_ok_iff, fun _ => split_eq_error_iff, split_trim line⟩

/-- A word in three pieces, and one without a character. -/
example : split "a\" \\\"\"b  \"\" " = .ok ["a \"b", ""] := by rfl

end Words

end Tabular
