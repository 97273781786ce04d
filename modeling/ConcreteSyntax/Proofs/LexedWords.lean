import ConcreteSyntax.FileReading
import ConcreteSyntax.Proofs.InternedLexemes
import ConcreteSyntax.Proofs.PrintedTrees
import Mathlib.Data.List.TakeWhile

/-!
# Words are lexed back

A word is a lexeme when its characters alone are scanned as one lexeme of its kind.
Every lexeme of a text gives such a word, whatever follows it in the text. Conversely,
when such words are joined by single blanks, scanning gives the same words back.
-/

namespace ConcreteSyntax

/-- Whether the characters of a word are scanned as one lexeme of its kind. -/
def Word.isLexeme (w : Word) : Bool :=
  w.kind != .eof && gapLength false w.text.toList == 0 &&
    frontLexeme w.text.toList == (w.kind, w.text.toList.length)

/-- What makes a word a lexeme. -/
theorem Word.isLexeme_iff {w : Word} : w.isLexeme = true ↔ w.kind ≠ .eof ∧
    gapLength false w.text.toList = 0 ∧
      frontLexeme w.text.toList = (w.kind, w.text.toList.length) := by
  simp [Word.isLexeme, and_assoc]

/-- A lexeme with its place forgotten. -/
def Lexeme.word (l : Lexeme) : Word := ⟨l.kind, l.text⟩

/-! ## What follows a lexeme -/

/-- Whether a character begins a gap: it is a blank or begins a comment. -/
def startsGap (c : Char) : Bool := c == '#' || isBlank c

/-- What holds of the number sign and of all blanks holds of all characters that begin a
gap. -/
theorem startsGap_cases {P : Char → Prop} (hsign : P '#') (hspace : P ' ') (htab : P '\t')
    (hline : P '\n') (hform : P '\x0c') (hreturn : P '\r') {c : Char} (h : startsGap c = true) :
    P c := by
  simp only [startsGap, isBlank, Bool.or_eq_true, beq_iff_eq] at h
  rcases h with rfl | (((rfl | rfl) | rfl) | rfl) | rfl <;> assumption

/-- A text that is empty or begins with a gap, so that no lexeme goes on in it. -/
def Separated (rest : List Char) : Prop := ∀ c ∈ rest.head?, startsGap c = true

/-- A run of characters that begin no gap ends before a separated text. -/
theorem Separated.takeWhile_append {p : Char → Bool} (hp : ∀ c, startsGap c = true → p c = false)
    {rest : List Char} (hr : Separated rest) (cs : List Char) :
    (cs ++ rest).takeWhile p = cs.takeWhile p := by
  have hrest : rest.takeWhile p = [] := by
    cases rest with
    | nil => rfl
    | cons c rest => rw [List.takeWhile_cons, hp c (hr c rfl)]; rfl
  rw [List.takeWhile_append, hrest, List.append_nil]
  split
  · next h => exact ((List.takeWhile_prefix p).eq_of_length h).symm
  · rfl

/-- A punctuator does not depend on a separated text behind it. -/
theorem Separated.punctuator_append {rest : List Char} (hr : Separated rest) (c : Char)
    (cs : List Char) :
    punctuator c ((cs ++ rest).headD endChar) = punctuator c (cs.headD endChar) := by
  cases cs with
  | cons d cs => rfl
  | nil =>
    cases rest with
    | nil => rfl
    | cons d rest =>
      have hd : startsGap d = true := hr d rfl
      rcases punctuator_length c d with hone | ⟨-, rfl | rfl⟩
      · exact (punctuator_endChar hone).symm
      · exact absurd hd (by decide)
      · exact absurd hd (by decide)

/-- The lexeme in front does not depend on a separated text. -/
theorem Separated.frontLexeme_append {rest : List Char} (hr : Separated rest) (c : Char)
    (cs : List Char) : frontLexeme (c :: cs ++ rest) = frontLexeme (c :: cs) := by
  have hw : ∀ c, startsGap c = true → isWordPart c = false :=
    fun c => startsGap_cases (P := fun c => isWordPart c = false) rfl rfl rfl rfl rfl rfl
  have hd : ∀ c, startsGap c = true → isDigit c = false :=
    fun c => startsGap_cases (P := fun c => isDigit c = false) rfl rfl rfl rfl rfl rfl
  simp only [List.cons_append, frontLexeme, hr.punctuator_append, hr.takeWhile_append hw,
    hr.takeWhile_append hd]

/-! ## Lexemes stand alone -/

/-- A word of letters is not the end of the text. -/
theorem ofWord_ne_eof (text : String) : TokenKind.ofWord text ≠ .eof := by
  by_cases h : ∃ k, (text, k) ∈ TokenKind.reservedWords
  · obtain ⟨k, hk⟩ := h
    have hall : ∀ word ∈ TokenKind.reservedWords, word.2 ≠ .eof := by decide
    rw [TokenKind.ofWord_of_mem hk]
    exact hall _ hk
  · rw [TokenKind.ofWord_of_notMem fun k hk => h ⟨k, hk⟩]
    decide

/-- The lexeme in front of a text that is not empty has a character. Its characters
alone are scanned as the same lexeme. -/
theorem frontLexeme_take (c : Char) (cs : List Char) :
    ∃ k n, frontLexeme (c :: cs) = (k, n + 1) ∧ k ≠ .eof ∧ n + 1 ≤ (c :: cs).length ∧
      frontLexeme ((c :: cs).take (n + 1)) = (k, n + 1) := by
  by_cases hw : isWordStart c = true
  · have hfront : ∀ ds, frontLexeme (c :: ds) =
        (TokenKind.ofWord (String.ofList (c :: ds.takeWhile isWordPart)),
          (ds.takeWhile isWordPart).length + 1) := fun ds => by
      simp only [frontLexeme, if_pos hw, List.length_cons]
    refine ⟨_, _, hfront cs, ofWord_ne_eof _, ?_, ?_⟩
    · exact Nat.succ_le_succ (List.takeWhile_prefix _).length_le
    · rw [← List.length_cons (a := c), take_length_takeWhile, hfront, List.takeWhile_takeWhile]
      simp
  · by_cases hd : isDigit c = true
    · have hfront : ∀ ds, frontLexeme (c :: ds) =
          (.intNumber, (ds.takeWhile isDigit).length + 1) := fun ds => by
        simp only [frontLexeme, if_neg hw, if_pos hd, List.length_cons]
      refine ⟨_, _, hfront cs, by decide, ?_, ?_⟩
      · exact Nat.succ_le_succ (List.takeWhile_prefix _).length_le
      · rw [← List.length_cons (a := c), take_length_takeWhile, hfront, List.takeWhile_takeWhile]
        simp
    · have hfront : ∀ ds, frontLexeme (c :: ds) = punctuator c (ds.headD endChar) := fun ds => by
        simp only [frontLexeme, if_neg hw, if_neg hd]
      rcases punctuator_length c (cs.headD endChar) with hone | ⟨htwo, hsecond⟩
      · refine ⟨_, 0, (hfront cs).trans (Prod.ext rfl hone), punctuator_ne_eof _ _, by simp, ?_⟩
        rw [List.take_succ_cons, List.take_zero, hfront]
        exact (punctuator_endChar hone).trans (Prod.ext rfl hone)
      · cases cs with
        | nil => exact absurd hsecond (by decide)
        | cons e es =>
          exact ⟨_, 1, (hfront _).trans (Prod.ext rfl htwo), punctuator_ne_eof _ _, by simp,
            (hfront [e]).trans (Prod.ext rfl htwo)⟩

/-- Behind the gap in front of a text there is no further gap. -/
theorem gapLength_drop (inside : Bool) (cs : List Char) :
    gapLength false (cs.drop (gapLength inside cs)) = 0 := by
  induction cs generalizing inside with
  | nil => cases inside <;> rfl
  | cons c cs ih =>
    cases inside with
    | true => simpa [gapLength] using ih (c != '\n')
    | false =>
      by_cases hn : c = '#'
      · simpa [gapLength, hn] using ih true
      · by_cases hb : isBlank c = true
        · simpa [gapLength, hn, hb] using ih false
        · simp [gapLength, hn, hb]

/-- The text of words that are joined by single blanks. -/
def Word.join (ws : List Word) : String := " ".intercalate (ws.map Word.text)

/-- The characters of words with a blank in front of each. -/
def Word.blankLed (ws : List Word) : List Char := ws.flatMap fun w => ' ' :: w.text.toList

/-- Words with blanks in front begin with a blank. -/
theorem Word.separated_blankLed (ws : List Word) : Separated (blankLed ws) := by
  cases ws with
  | nil => simp [Separated, blankLed]
  | cons w ws => simp [Separated, blankLed, startsGap, isBlank]

/-- Joined words are the first word and the others with blanks in front. -/
theorem Word.toList_join_cons (w : Word) (ws : List Word) :
    (join (w :: ws)).toList = w.text.toList ++ blankLed ws := by
  induction ws generalizing w with
  | nil => simp [join, blankLed]
  | cons v ws ih =>
    have hv := ih v
    simp only [join, List.map_cons, String.intercalate_cons_cons, String.toList_append] at hv ⊢
    rw [hv]
    simp [blankLed]

/-! ## Lexemes of a text -/

namespace TextCursor

/-- At the end of the text the next lexeme is the end. -/
theorem next_of_skipGap_eq_nil {c : TextCursor} (h : c.skipGap.rest = []) :
    c.next.1.word = ⟨.eof, ""⟩ ∧ c.next.2.rest = [] := by
  unfold next
  simp [h, frontLexeme, Lexeme.word, move]

/-- Before the end of the text the next lexeme has characters, which alone are scanned
as a lexeme of the same kind. The cursor moves behind them. -/
theorem next_of_skipGap_ne_nil {c : TextCursor} (h : c.skipGap.rest ≠ []) :
    c.next.1.word.isLexeme = true ∧ c.next.2 = c.skipGap.move c.next.1.text.toList.length ∧
      c.skipGap.rest = c.next.1.text.toList ++ c.next.2.rest ∧ c.next.1.text.toList ≠ [] := by
  have hgap : gapLength false c.skipGap.rest = 0 := gapLength_drop false c.rest
  obtain ⟨d, cs, hcs⟩ := List.exists_cons_of_ne_nil h
  obtain ⟨k, n, hfront, hne, hlen, hself⟩ := frontLexeme_take d cs
  have htext : c.next.1.text.toList = (d :: cs).take (n + 1) := by
    simp [next, hcs, hfront]
  have hkind : c.next.1.kind = k := by simp [next, hcs, hfront]
  have hlength : c.next.1.text.toList.length = n + 1 := by
    rw [htext, List.length_take, Nat.min_eq_left hlen]
  have hmove : c.next.2 = c.skipGap.move (n + 1) := by simp [next, hcs, hfront]
  refine ⟨?_, by rw [hlength, hmove], ?_, ?_⟩
  · have hgap' : gapLength false ((d :: cs).take (n + 1)) = 0 := by
      rw [hcs] at hgap
      rw [List.take_succ_cons]
      unfold gapLength at hgap ⊢
      split at hgap
      · simp at hgap
      · split at hgap
        · simp at hgap
        · next hn hb => rw [if_neg hn, if_neg hb]
    refine Word.isLexeme_iff.2 ⟨fun h => hne (hkind.symm.trans h), ?_, ?_⟩
    · show gapLength false c.next.1.text.toList = 0
      rw [htext, hgap']
    · show frontLexeme c.next.1.text.toList = (c.next.1.kind, c.next.1.text.toList.length)
      rw [hlength, htext, hself, hkind]
  · rw [htext, hmove, move, hcs, List.take_append_drop]
  · rw [htext]; simp

/-- Lexemes whose characters stand in a text one behind the other: each begins at a
higher offset than the one before it, and all but the last have words that are lexemes.
The last one marks the end of the text. -/
theorem lexemesWithin_spec (bound : Nat) (c : TextCursor) (hb : c.rest.length ≤ bound) :
    ∃ ls finish, lexemesWithin bound c = ls ++ [finish] ∧ finish.word = ⟨.eof, ""⟩ ∧
      (∀ l ∈ ls, l.word.isLexeme = true) ∧
      (ls ++ [finish]).Pairwise (fun l m => l.offset < m.offset) ∧
      ∀ l ∈ ls ++ [finish], c.offset ≤ l.offset := by
  have hskip : ∀ c : TextCursor, c.offset ≤ c.skipGap.offset := fun c => Nat.le_add_right _ _
  have hoffset : ∀ c : TextCursor, c.next.1.offset = c.skipGap.offset := fun c => by
    simp [next]
  induction bound generalizing c with
  | zero =>
    have hnil : c.rest = [] := List.length_eq_zero_iff.1 (Nat.le_zero.1 hb)
    have hfront : c.skipGap.rest = [] := by simp [skipGap, move, hnil]
    obtain ⟨hword, -⟩ := next_of_skipGap_eq_nil hfront
    refine ⟨[], c.next.1, rfl, hword, by simp, List.pairwise_singleton _ _, ?_⟩
    simpa [hoffset] using hskip c
  | succ bound ih =>
    by_cases hfront : c.skipGap.rest = []
    · obtain ⟨hword, -⟩ := next_of_skipGap_eq_nil hfront
      refine ⟨[], c.next.1, ?_, hword, by simp, List.pairwise_singleton _ _, ?_⟩
      · have hk : c.next.1.kind = .eof := congrArg Word.kind hword
        simp [lexemesWithin, hk]
      · simpa [hoffset] using hskip c
    · obtain ⟨hlex, hmove, hrest, hne⟩ := next_of_skipGap_ne_nil hfront
      have hk : c.next.1.kind ≠ .eof := (Word.isLexeme_iff.1 hlex).1
      have hlen : c.next.2.rest.length ≤ bound := by
        have hle : c.skipGap.rest.length ≤ c.rest.length := by simp [skipGap, move]
        have hpos := List.length_pos_iff.2 hne
        rw [hrest, List.length_append] at hle
        omega
      obtain ⟨ls, finish, hls, hend, hall, hpair, hge⟩ := ih c.next.2 hlen
      have hnext : c.skipGap.offset < c.next.2.offset := by
        rw [hmove, move, hrest, List.take_left]
        obtain ⟨d, ds, hds⟩ := List.exists_cons_of_ne_nil hne
        have hpos : 0 < byteCount c.next.1.text.toList := by
          rw [hds]
          simp only [byteCount, List.foldr_cons]
          have := Char.utf8Size_pos d
          omega
        exact Nat.lt_add_of_pos_right hpos
      refine ⟨c.next.1 :: ls, finish, ?_, hend, ?_, ?_, ?_⟩
      · simp [lexemesWithin, hk, hls]
      · exact List.forall_mem_cons.2 ⟨hlex, hall⟩
      · refine List.pairwise_cons.2 ⟨fun l hl => ?_, hpair⟩
        have := hge l hl
        rw [hoffset]
        omega
      · refine List.forall_mem_cons.2 ⟨hoffset c ▸ hskip c, fun l hl => ?_⟩
        have := hge l hl
        have := hskip c
        omega

/-- A word that is a lexeme has a first character, which belongs to no gap. -/
theorem exists_of_isLexeme {w : Word} (h : w.isLexeme = true) :
    ∃ d cs, w.text.toList = d :: cs ∧ ∀ rest, gapLength false (d :: rest) = 0 := by
  obtain ⟨hne, hgap, hfront⟩ := Word.isLexeme_iff.1 h
  cases hcs : w.text.toList with
  | nil =>
    rw [hcs] at hfront
    exact absurd (congrArg Prod.fst hfront).symm hne
  | cons d cs =>
    refine ⟨d, cs, rfl, fun rest => ?_⟩
    rw [hcs] at hgap
    unfold gapLength at hgap ⊢
    split at hgap
    · simp at hgap
    · split at hgap
      · simp at hgap
      · next hn hb => rw [if_neg hn, if_neg hb]

/-- Behind a gap, a word that is a lexeme is scanned as itself when a separated text
follows. -/
theorem next_of_isLexeme {w : Word} (h : w.isLexeme = true) {rest : List Char}
    (hr : Separated rest) {c : TextCursor} (hc : c.skipGap.rest = w.text.toList ++ rest) :
    c.next.1.word = w ∧ c.next.2.rest = rest := by
  obtain ⟨d, cs, hcs, -⟩ := exists_of_isLexeme h
  obtain ⟨-, -, hfront⟩ := Word.isLexeme_iff.1 h
  have happend : frontLexeme (w.text.toList ++ rest) = (w.kind, w.text.toList.length) := by
    rw [← hfront, hcs, hr.frontLexeme_append]
  simp [next, Lexeme.word, move, hc, happend]

/-- In front of joined lexemes there is no gap. -/
theorem skipGap_of_join {ws : List Word} (h : ∀ w ∈ ws, w.isLexeme = true) {c : TextCursor}
    (hc : c.rest = (Word.join ws).toList) : c.skipGap.rest = (Word.join ws).toList := by
  cases ws with
  | nil => simp [skipGap, move, hc, Word.join]
  | cons w ws =>
    obtain ⟨d, cs, hcs, hgap⟩ := exists_of_isLexeme (h w List.mem_cons_self)
    rw [Word.toList_join_cons, hcs, List.cons_append] at hc ⊢
    rw [skipGap, move, hc, hgap]
    rfl

/-- The gap in front of lexemes with blanks before them is one blank. -/
theorem skipGap_of_blankLed {ws : List Word} (h : ∀ w ∈ ws, w.isLexeme = true) {c : TextCursor}
    (hc : c.rest = Word.blankLed ws) : c.skipGap.rest = (Word.join ws).toList := by
  cases ws with
  | nil => simp [skipGap, move, hc, Word.join, Word.blankLed]
  | cons w ws =>
    obtain ⟨d, cs, hcs, hgap⟩ := exists_of_isLexeme (h w List.mem_cons_self)
    have hc' : c.rest = ' ' :: (w.text.toList ++ Word.blankLed ws) := by
      rw [hc]
      simp [Word.blankLed]
    have hlength : gapLength false c.rest = 1 := by
      rw [hc', hcs, List.cons_append]
      show gapLength false _ + 1 = 1
      rw [hgap]
    rw [skipGap, move, hlength, hc', Word.toList_join_cons]
    rfl

/-- Joined lexemes are scanned as themselves. -/
theorem lexemesWithin_join {ws : List Word} (h : ∀ w ∈ ws, w.isLexeme = true) (bound : Nat)
    (c : TextCursor) (hb : c.skipGap.rest.length ≤ bound)
    (hc : c.skipGap.rest = (Word.join ws).toList) :
    (lexemesWithin bound c).map Lexeme.word = ws ++ [⟨.eof, ""⟩] := by
  induction ws generalizing bound c with
  | nil =>
    have hfront : c.skipGap.rest = [] := by simp [hc, Word.join]
    obtain ⟨hword, -⟩ := next_of_skipGap_eq_nil hfront
    have hk : c.next.1.kind = .eof := congrArg Word.kind hword
    cases bound <;> simp [lexemesWithin, hk, hword]
  | cons w ws ih =>
    obtain ⟨hw, hws⟩ := List.forall_mem_cons.1 h
    rw [Word.toList_join_cons] at hc
    obtain ⟨hword, hrest⟩ := next_of_isLexeme hw (Word.separated_blankLed ws) hc
    have hk : c.next.1.kind ≠ .eof := by
      rw [show c.next.1.kind = w.kind from congrArg Word.kind hword]
      exact (Word.isLexeme_iff.1 hw).1
    obtain ⟨d, cs, hcs, -⟩ := exists_of_isLexeme hw
    rw [hc, hcs, List.length_append, List.length_cons, ← hrest] at hb
    obtain ⟨bound, rfl⟩ : ∃ b, bound = b + 1 := ⟨bound - 1, by omega⟩
    have hlen : c.next.2.skipGap.rest.length ≤ bound := by
      have hle : c.next.2.skipGap.rest.length ≤ c.next.2.rest.length := by simp [skipGap, move]
      omega
    have hnext := ih hws bound c.next.2 hlen (skipGap_of_blankLed hws hrest)
    simp [lexemesWithin, hk, hword, hnext]

end TextCursor

/-- Scanning joined lexemes gives them back. -/
theorem scan_join {ws : List Word} (h : ∀ w ∈ ws, w.isLexeme = true) :
    (scan (Word.join ws)).map Lexeme.word = ws ++ [⟨.eof, ""⟩] := by
  have hfront := TextCursor.skipGap_of_join h (c := TextCursor.ofText (Word.join ws)) rfl
  refine TextCursor.lexemesWithin_join h _ _ ?_ hfront
  rw [hfront]
  exact Nat.le_refl _

/-! ## Tokens -/

/-- Tokens have the words of their lexemes. -/
theorem Lexer.map_word_tokens (symbols : SymbolTable) (ls : List Lexeme) :
    (tokens symbols ls).1.map Token.word = ls.map Lexeme.word := by
  induction ls generalizing symbols with
  | nil => rfl
  | cons l ls ih =>
    simp only [tokens, List.map_cons, ih]
    congr 1
    simp [token, Token.word, Token.spelling, Lexeme.word, SymbolTable.text_intern]

/-- Tokens begin where their lexemes begin. -/
theorem Lexer.map_offset_tokens (symbols : SymbolTable) (ls : List Lexeme) :
    (tokens symbols ls).1.map Token.offset = ls.map Lexeme.offset := by
  induction ls generalizing symbols with
  | nil => rfl
  | cons l ls ih =>
    simp only [tokens, List.map_cons, ih]
    rfl

/-- The tokens of joined lexemes have these as their words, up to the end of the text. -/
theorem map_word_tokenize_join {ws : List Word} (h : ∀ w ∈ ws, w.isLexeme = true)
    (symbols : SymbolTable) :
    (tokenize symbols (Word.join ws)).1.map Token.word = ws ++ [⟨.eof, ""⟩] := by
  rw [tokenize_eq, Lexer.map_word_tokens]
  exact scan_join h

/-- The tokens of a text: all but the last have words that are lexemes, the last one marks
the end of the text, and each begins at a higher offset than the one before it. -/
theorem tokenize_spec (symbols : SymbolTable) (text : String) :
    ∃ ts finish, (tokenize symbols text).1 = ts ++ [finish] ∧ finish.kind = .eof ∧
      (∀ t ∈ ts, t.word.isLexeme = true) ∧
      (ts ++ [finish]).Pairwise (fun t u => t.offset < u.offset) := by
  obtain ⟨ls, finish, hls, hend, hall, hpair, -⟩ :=
    TextCursor.lexemesWithin_spec _ (TextCursor.ofText text) (Nat.le_refl _)
  rw [tokenize_eq, scan, TextCursor.lexemes, hls]
  have hwords := Lexer.map_word_tokens (symbols.internAll TokenKind.keywordSpellings)
    (ls ++ [finish])
  have hoffsets := Lexer.map_offset_tokens (symbols.internAll TokenKind.keywordSpellings)
    (ls ++ [finish])
  rw [List.map_append, List.map_cons, hend, List.map_nil] at hwords
  obtain ⟨ts, us, hsplit, hts, hus⟩ := List.map_eq_append_iff.1 hwords
  obtain ⟨last, hlast⟩ : ∃ last, us = [last] :=
    List.length_eq_one_iff.1 (by simpa using congrArg List.length hus)
  rw [hlast] at hsplit hus
  refine ⟨ts, last, hsplit, ?_, ?_, ?_⟩
  · have hword : last.word = ⟨.eof, ""⟩ := by simpa using hus
    exact congrArg Word.kind hword
  · intro t ht
    have hmem : t.word ∈ ls.map Lexeme.word := hts ▸ List.mem_map_of_mem ht
    obtain ⟨l, hl, hword⟩ := List.mem_map.1 hmem
    rw [← hword]
    exact hall l hl
  · rw [← List.pairwise_map (f := Token.offset), ← hsplit, hoffsets, List.pairwise_map]
    exact hpair

end ConcreteSyntax
