import ConcreteSyntax.Proofs.TokenLayout

/-!
# Laid out texts

Words can be laid out in many ways: with any blanks between them, and with comments that end where
their lines do. Lexing tells the words from the gaps again, wherever the words were placed. A line
feed ends every lexeme and every comment, so a text is lexed line by line.
-/

namespace ConcreteSyntax

/-! ## Gaps in front of a rest -/

/-- What is skipped inside of a comment is the rest of the comment and the gap behind it. -/
theorem gapLength_comment {body rest : List Char} (hbody : '\n' ∉ body)
    (hrest : ∀ c ∈ rest.head?, c = '\n') :
    gapLength true (body ++ rest) = body.length + gapLength false rest := by
  induction body with
  | nil =>
    cases rest with
    | nil => rfl
    | cons c rest =>
      obtain rfl : c = '\n' := hrest c rfl
      have hblank : isBlank '\n' = true := by decide
      simp [gapLength, hblank]
  | cons c body ih =>
    obtain ⟨hc, hbody⟩ := not_or.1 (mt List.mem_cons.2 hbody)
    have hother : (c != '\n') = true := by simpa using Ne.symm hc
    rw [List.cons_append, gapLength, hother, ih hbody, List.length_cons, Nat.add_right_comm]

/-- A gap in front of a rest is skipped as a whole, and with it the gap that begins the rest. -/
theorem IsGap.gapLength_append {rest gap : List Char} (h : IsGap rest gap) :
    gapLength false (gap ++ rest) = gap.length + gapLength false rest := by
  induction h with
  | nil => exact (Nat.zero_add _).symm
  | @blank c gap hc _ ih =>
    by_cases hsign : c = '#'
    · rw [hsign] at hc
      exact absurd hc (by decide)
    · simp only [List.cons_append, gapLength, beq_eq_false_iff_ne.2 hsign, hc, Bool.false_eq_true,
        if_false, if_true, ih, List.length_cons, Nat.add_right_comm]
  | comment hbody hhead _ ih =>
    rw [List.cons_append, List.append_assoc, gapLength, if_pos BEq.rfl,
      gapLength_comment hbody hhead, ih, List.length_cons, List.length_append]
    omega

/-- A gap begins with a blank or a comment, so no lexeme goes on in it. -/
theorem IsGap.separated {rest gap : List Char} (h : IsGap rest gap) (behind : List Char)
    (hne : gap = [] → behind = []) : Separated (gap ++ behind) := by
  cases h with
  | nil =>
    rw [hne rfl]
    rintro _ ⟨⟩
  | blank hc =>
    rintro _ ⟨⟩
    rw [startsGap, hc, Bool.or_true]
  | comment =>
    rintro _ ⟨⟩
    rfl

/-- Characters that make a gap whatever follows them: blanks, and comments that are ended by line
feeds. -/
inductive IsClosedGap : List Char → Prop
  | nil : IsClosedGap []
  | blank {c : Char} {gap : List Char} : isBlank c = true → IsClosedGap gap → IsClosedGap (c :: gap)
  | comment {body gap : List Char} : '\n' ∉ body → IsClosedGap gap →
      IsClosedGap ('#' :: (body ++ '\n' :: gap))

/-- A closed gap is a gap in front of every rest. -/
theorem IsClosedGap.isGap {gap : List Char} (h : IsClosedGap gap) (rest : List Char) :
    IsGap rest gap := by
  induction h with
  | nil => exact .nil
  | blank hc _ ih => exact .blank hc ih
  | comment hbody _ ih =>
    refine .comment hbody ?_ (.blank (by decide) ih)
    rintro _ ⟨⟩
    rfl

/-! ## Words in a layout -/

/-- That the text of a word, when it is lexed by itself, is one token of the kind of the word. -/
def Word.StandsAlone (w : Word) : Prop :=
  ∃ symbols t finish, (tokenize symbols w.text).1 = [t, finish] ∧ t.word = w ∧ t.kind ≠ .eof

/-- The words that stand alone are the lexemes. -/
theorem Word.standsAlone_iff {w : Word} : w.StandsAlone ↔ w.isLexeme = true := by
  constructor
  · rintro ⟨symbols, t, finish, hbuffer, rfl, -⟩
    obtain ⟨ts, last, hts, -, hlex, -⟩ := tokenize_spec symbols t.word.text
    have hsplit : ts ++ [last] = [t] ++ [finish] := hts.symm.trans hbuffer
    obtain ⟨rfl, -⟩ := List.append_inj' hsplit rfl
    exact hlex t (List.mem_singleton_self t)
  · intro h
    have hwords := map_word_tokenize_join (List.forall_mem_singleton.2 h) (.empty 0)
    obtain ⟨t, others, hbuffer, ht, hothers⟩ := List.map_eq_cons_iff.1 hwords
    obtain ⟨finish, rfl, -⟩ := List.map_eq_singleton_iff.1 hothers
    refine ⟨.empty 0, t, finish, ?_, ht, ?_⟩
    · rw [← hbuffer, join, List.map_singleton, String.intercalate_singleton]
    · rw [show t.kind = w.kind from congrArg Word.kind ht]
      exact (Word.isLexeme_iff.1 h).1

/-- A word with a gap in front of it. -/
structure SpacedWord where
  /-- The characters in front of the word. -/
  gap : String
  /-- The word itself. -/
  word : Word
  deriving DecidableEq, Repr

namespace SpacedWord

/-- The text of spaced words with a last gap behind them. -/
def layOut : List SpacedWord → String → String
  | [], last => last
  | w :: ws, last => w.gap ++ w.word.text ++ layOut ws last

/-- Spaced words without their gaps, with the offsets at which they are placed behind a number of
bytes. -/
def placed : Nat → List SpacedWord → List (Word × Nat)
  | _, [] => []
  | offset, w :: ws =>
    let start := offset + w.gap.utf8ByteSize
    (w.word, start) :: placed (start + w.word.text.utf8ByteSize) ws

/-- That words are laid out in such a way that no gap swallows a word and no two words touch. -/
structure LaidOut (ws : List SpacedWord) (last : String) : Prop where
  /-- Each word is a lexeme by itself. -/
  alone : ∀ w ∈ ws, w.word.StandsAlone
  /-- The gaps in front of words are blanks and comments, and each comment is ended. -/
  closed : ∀ w ∈ ws, IsClosedGap w.gap.toList
  /-- There is a gap between any two words. -/
  apart : ∀ w ∈ ws.tail, w.gap ≠ ""
  /-- The last gap has blanks and comments too, but a comment may end with the text. -/
  last : IsGap [] last.toList

/-- Words that are laid out in front of a gap begin with a gap, if the first of them does. -/
theorem LaidOut.separated {ws : List SpacedWord} {last : String} (h : LaidOut ws last)
    (hapart : ∀ w ∈ ws, w.gap ≠ "") : Separated (layOut ws last).toList := by
  cases ws with
  | nil =>
    have hlast := h.last.separated [] fun _ => rfl
    rwa [List.append_nil] at hlast
  | cons w ws =>
    have hgap := (h.closed w List.mem_cons_self).isGap []
    rw [layOut, String.append_assoc, String.toList_append]
    exact hgap.separated _ fun hnil => absurd (String.toList_eq_nil_iff.1 hnil)
      (hapart w List.mem_cons_self)

/-- What is laid out behind the first word is laid out. -/
theorem LaidOut.tail {w : SpacedWord} {ws : List SpacedWord} {last : String}
    (h : LaidOut (w :: ws) last) : LaidOut ws last where
  alone v hv := h.alone v (List.mem_cons_of_mem _ hv)
  closed v hv := h.closed v (List.mem_cons_of_mem _ hv)
  apart v hv := h.apart v (List.mem_of_mem_tail hv)
  last := h.last

end SpacedWord

open SpacedWord

namespace TextCursor

/-- A gap ahead of a cursor is skipped if none begins behind it. -/
theorem skipGap_of_isGap {c : TextCursor} {gap rest : List Char} (hc : c.rest = gap ++ rest)
    (hgap : IsGap rest gap) (hrest : gapLength false rest = 0) :
    c.skipGap.rest = rest ∧ c.skipGap.offset = c.offset + byteCount gap := by
  have hlength : gapLength false c.rest = gap.length := by
    rw [hc, hgap.gapLength_append, hrest, Nat.add_zero]
  rw [skipGap, hlength, move, hc]
  exact ⟨List.drop_left, by rw [List.take_left]⟩

/-- Words that are laid out ahead of a cursor are its lexemes, in their places. The induction is on
the words; the cursor moves behind the first of them. -/
theorem lexemes_layOut {ws : List SpacedWord} {last : String} (h : LaidOut ws last)
    {c : TextCursor} (hc : c.rest = (layOut ws last).toList) :
    c.lexemes.map (fun l => (l.word, l.offset)) =
      placed c.offset ws ++ [(⟨.eof, ""⟩, c.offset + (layOut ws last).utf8ByteSize)] := by
  induction ws generalizing c with
  | nil =>
    obtain ⟨hrest, hoffset⟩ :=
      skipGap_of_isGap (hc.trans (List.append_nil _).symm) h.last rfl
    obtain ⟨hword, -⟩ := next_of_skipGap_eq_nil hrest
    rw [byteCount_toList] at hoffset
    rw [lexemes_of_eq_nil hrest, List.map_singleton, hword]
    exact congrArg (fun n => [((⟨.eof, ""⟩ : Word), n)]) hoffset
  | cons w ws ih =>
    have hlex := Word.standsAlone_iff.1 (h.alone w List.mem_cons_self)
    have hseparated : Separated (layOut ws last).toList := h.tail.separated h.apart
    obtain ⟨d, cs, hcs, hnone⟩ := exists_of_isLexeme hlex
    have hahead : c.rest = w.gap.toList ++ (w.word.text.toList ++ (layOut ws last).toList) := by
      rw [hc, layOut, String.append_assoc, String.toList_append, String.toList_append]
    obtain ⟨hrest, hoffset⟩ := skipGap_of_isGap hahead
      ((h.closed w List.mem_cons_self).isGap _) (by rw [hcs]; exact hnone _)
    obtain ⟨hword, hbehind⟩ := next_of_isLexeme hlex hseparated hrest
    have hne : c.skipGap.rest ≠ [] := by
      rw [hrest, hcs]
      exact List.cons_ne_nil _ _
    have hstart : c.next.1.offset = c.offset + w.gap.utf8ByteSize := by
      rw [← byteCount_toList]
      exact hoffset
    have hstop : c.next.2.offset =
        c.offset + w.gap.utf8ByteSize + w.word.text.utf8ByteSize := by
      obtain ⟨-, hmove, -⟩ := next_of_skipGap_ne_nil hne
      have htext : c.next.1.text = w.word.text := congrArg Word.text hword
      rw [hmove, move, hrest, htext, List.take_left, hoffset, byteCount_toList, byteCount_toList]
    rw [lexemes_of_ne_nil hne, List.map_cons, hword, hstart, ih h.tail hbehind, hstop, placed,
      layOut, String.utf8ByteSize_append, String.utf8ByteSize_append, List.cons_append]
    simp only [Nat.add_assoc]

end TextCursor

/-- Lexing undoes a layout: the tokens of words that are laid out are these words, each at the
offset where it was placed, and the end of the text. -/
theorem tokenize_layOut {ws : List SpacedWord} {last : String} (h : LaidOut ws last)
    (symbols : SymbolTable) :
    (tokenize symbols (layOut ws last)).1.map (fun t => (t.word, t.offset)) =
      placed 0 ws ++ [(⟨.eof, ""⟩, (layOut ws last).utf8ByteSize)] := by
  have hscan := TextCursor.lexemes_layOut h (c := .ofText (layOut ws last)) rfl
  have hlexemes : (TextCursor.ofText (layOut ws last)).lexemes = scan (layOut ws last) := rfl
  have hstart : (TextCursor.ofText (layOut ws last)).offset = 0 := rfl
  rw [hlexemes, hstart, Nat.zero_add, ← map_lexeme_tokenize symbols, List.map_map] at hscan
  exact hscan

/-- A word, an arrow and an invalid character of two bytes are told from comments that touch them,
the last of which is not ended. -/
theorem tokenize_layOut_comments :
    let ws := [⟨"# let\n\t", ⟨.letKw, "let"⟩⟩, ⟨"#=\n", ⟨.fatArrow, "=>"⟩⟩, ⟨" ", ⟨.invalid, "é"⟩⟩]
    LaidOut ws "#>" ∧ (tokenize (.empty 0) (layOut ws "#>")).1.map (fun t => (t.word, t.offset)) =
      placed 0 ws ++ [(⟨.eof, ""⟩, (layOut ws "#>").utf8ByteSize)] := by
  have hlaid : LaidOut [⟨"# let\n\t", ⟨.letKw, "let"⟩⟩, ⟨"#=\n", ⟨.fatArrow, "=>"⟩⟩,
      ⟨" ", ⟨.invalid, "é"⟩⟩] "#>" := by
    constructor
    case alone =>
      simp only [Word.standsAlone_iff]
      decide +kernel
    case closed =>
      have hfirst : IsClosedGap ('#' :: (" let".toList ++ '\n' :: ['\t'])) :=
        .comment (by decide) (.blank (by decide) .nil)
      have hsecond : IsClosedGap ('#' :: ("=".toList ++ '\n' :: [])) := .comment (by decide) .nil
      have hthird : IsClosedGap [' '] := .blank (by decide) .nil
      simpa using ⟨hfirst, hsecond, hthird⟩
    case apart => decide
    case last =>
      have hopen : IsGap [] ('#' :: (['>'] ++ [])) := .comment (by decide) (by simp) .nil
      exact hopen
  exact ⟨hlaid, tokenize_layOut hlaid (.empty 0)⟩

/-! ## Lines -/

/-- No character of a lexeme begins a gap: the lexeme would end in front of it. -/
theorem Word.startsGap_eq_false {w : Word} (h : w.isLexeme = true) :
    ∀ c ∈ w.text.toList, startsGap c = false := by
  obtain ⟨-, hgap, hfront⟩ := Word.isLexeme_iff.1 h
  refine fun c hc => Bool.eq_false_iff.2 fun hstarts => ?_
  obtain ⟨before, behind, hsplit⟩ := List.append_of_mem hc
  rw [hsplit] at hgap hfront
  cases before with
  | nil =>
    revert hgap
    simp only [startsGap, Bool.or_eq_true] at hstarts
    rcases hstarts with hsign | hblank
    · simp [gapLength, beq_iff_eq.1 hsign]
    · by_cases hsign : c = '#' <;> simp [gapLength, hsign, hblank]
  | cons d before =>
    have hseparated : Separated (c :: behind) := by
      rintro _ ⟨⟩
      exact hstarts
    obtain ⟨k, n, hk, -, hn, -⟩ := frontLexeme_take d before
    rw [hseparated.frontLexeme_append, hk] at hfront
    have hlength := congrArg Prod.snd hfront
    simp only [List.length_append, List.length_cons] at hlength hn
    omega

/-- No character of a token begins a gap. -/
theorem startsGap_of_mem_tokenize {symbols : SymbolTable} {text : String} {t : Token}
    (h : t ∈ (tokenize symbols text).1) : ∀ c ∈ t.spelling.toList, startsGap c = false := by
  obtain ⟨i, hi⟩ := List.getElem?_of_mem h
  have hword : t.word = ((TextCursor.ofText text).afterLexemes i).next.1.word :=
    congrArg Lexeme.word (lexeme_of_tokenize hi)
  by_cases hnil : ((TextCursor.ofText text).afterLexemes i).skipGap.rest = []
  · rw [(TextCursor.next_of_skipGap_eq_nil hnil).1] at hword
    have hempty : t.spelling = "" := congrArg Word.text hword
    simp [hempty]
  · have hlex := (TextCursor.next_of_skipGap_ne_nil hnil).1
    rw [← hword] at hlex
    exact Word.startsGap_eq_false hlex

/-- Lexing goes line by line. The tokens of two texts with a line feed between them are those of
the first text without its end and those of the second one, further down by the lines of the first
text and further on by its bytes; and no token has a line feed in it. -/
theorem tokenize_linewise (symbols symbols₁ symbols₂ : SymbolTable) (a b : String) :
    (∃ ts finish, (tokenize symbols₁ a).1 = ts ++ [finish] ∧ finish.kind = .eof ∧
      (tokenize symbols (a ++ "\n" ++ b)).1.map Token.lexeme = ts.map Token.lexeme ++
        (tokenize symbols₂ b).1.map fun t =>
          t.lexeme.down (a.toList.count '\n' + 1) (a.utf8ByteSize + 1)) ∧
    ∀ t ∈ (tokenize symbols (a ++ "\n" ++ b)).1, '\n' ∉ t.spelling.toList := by
  constructor
  · obtain ⟨ts, finish, hbuffer, hfinish, -⟩ := tokenize_spec symbols₁ a
    refine ⟨ts, finish, hbuffer, hfinish, ?_⟩
    have hfront : (scan a).dropLast = ts.map Token.lexeme := by
      rw [← map_lexeme_tokenize symbols₁, hbuffer, List.map_append]
      exact List.dropLast_concat
    rw [map_lexeme_tokenize, scan_line, hfront, ← map_lexeme_tokenize symbols₂ b, List.map_map]
    rfl
  · intro t ht hline
    exact absurd (startsGap_of_mem_tokenize ht _ hline) (by decide)

end ConcreteSyntax
