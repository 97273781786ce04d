import ConcreteSyntax.Proofs.LongestLexemes
import Mathlib.Data.List.Induction

/-!
# How tokens cover a text

Tokens and the gaps between them make up the whole text. A gap has blanks and comments only, and
a comment runs up to the next line feed or to the end of the text. The position of a token counts
the line feeds in front of it and the characters since the last of them. A valid token has one
byte for each character and no line feed, so it ends as many columns behind its start as it has
characters.
-/

namespace ConcreteSyntax

/-! ## Positions behind a front -/

/-- The position behind the front of a text: the line counts the line feeds, the column counts
the characters behind the last of them. -/
def Position.behind (front : List Char) : Position where
  line := 1 + front.count '\n'
  column := 1 + (front.reverse.takeWhile (· != '\n')).length

/-- Reading a front from the first position on leads to the position behind it. -/
theorem Position.foldl_after_first (front : List Char) :
    front.foldl after first = behind front := by
  induction front using List.reverseRecOn with
  | nil => rfl
  | append_singleton front c ih =>
    rw [List.foldl_append, ih, List.foldl_cons, List.foldl_nil, after]
    by_cases hc : c = '\n'
    · simp [hc, behind, Nat.add_assoc]
    · simp [hc, behind, Nat.add_comm]

/-- Characters of one byte that are no line feeds move the position by their number of bytes. -/
theorem Position.foldl_after_of_ascii {cs : List Char}
    (h : ∀ c ∈ cs, c.utf8Size = 1 ∧ c ≠ '\n') (p : Position) :
    cs.foldl after p = p.advance (byteCount cs) := by
  induction cs generalizing p with
  | nil => rfl
  | cons c cs ih =>
    obtain ⟨⟨hsize, hline⟩, hcs⟩ := List.forall_mem_cons.1 h
    rw [List.foldl_cons, ih hcs, after, if_neg hline]
    simp only [advance, byteCount, List.foldr_cons, hsize, Nat.add_assoc]

/-! ## Gaps -/

/-- Characters that make a gap in front of a rest of a text: blanks and comments. A comment
begins with a number sign and runs to just before the next line feed, or to the end of the
text. -/
inductive IsGap (rest : List Char) : List Char → Prop
  | nil : IsGap rest []
  | blank {c : Char} {gap : List Char} : isBlank c = true → IsGap rest gap → IsGap rest (c :: gap)
  | comment {body gap : List Char} : '\n' ∉ body → (∀ c ∈ (gap ++ rest).head?, c = '\n') →
      IsGap rest gap → IsGap rest ('#' :: (body ++ gap))

/-- What is skipped in front of a text is a gap; inside of a comment it is the rest of the
comment and then a gap. -/
theorem isGap_gapLength (cs : List Char) :
    IsGap (cs.drop (gapLength false cs)) (cs.take (gapLength false cs)) ∧
      ∃ body gap, cs.take (gapLength true cs) = body ++ gap ∧ '\n' ∉ body ∧
        (∀ c ∈ (gap ++ cs.drop (gapLength true cs)).head?, c = '\n') ∧
          IsGap (cs.drop (gapLength true cs)) gap := by
  induction cs with
  | nil => exact ⟨.nil, [], [], rfl, List.not_mem_nil, by simp [gapLength], .nil⟩
  | cons c cs ih =>
    obtain ⟨hgap, body, gap, htake, hbody, hhead, hrest⟩ := ih
    constructor
    · by_cases hsign : c = '#'
      · simp only [gapLength, hsign, BEq.rfl, if_true, List.take_succ_cons, List.drop_succ_cons,
          htake]
        exact .comment hbody hhead hrest
      · by_cases hblank : isBlank c = true
        · simp only [gapLength, beq_eq_false_iff_ne.2 hsign, hblank, Bool.false_eq_true, if_false,
            if_true, List.take_succ_cons, List.drop_succ_cons]
          exact .blank hblank hgap
        · simp only [gapLength, beq_eq_false_iff_ne.2 hsign, hblank, Bool.false_eq_true, if_false]
          exact .nil
    · by_cases hline : c = '\n'
      · refine ⟨[], c :: cs.take (gapLength false cs), ?_, List.not_mem_nil, by simp [hline], ?_⟩
        · simp [gapLength, hline]
        · simp only [gapLength, hline, bne_self_eq_false, List.drop_succ_cons]
          exact .blank (by decide) hgap
      · have hinside : gapLength true (c :: cs) = gapLength true cs + 1 := by
          have hother : (c != '\n') = true := by simpa using hline
          rw [gapLength, hother]
        refine ⟨c :: body, gap, ?_, ?_, ?_, ?_⟩
        · rw [hinside, List.take_succ_cons, htake, List.cons_append]
        · exact List.not_mem_cons_of_ne_of_not_mem (Ne.symm hline) hbody
        · rw [hinside, List.drop_succ_cons]
          exact hhead
        · rw [hinside, List.drop_succ_cons]
          exact hrest

/-! ## Valid lexemes are ASCII -/

/-- A character that continues a word has one byte and is no line feed. -/
theorem ascii_of_isWordPart {c : Char} (h : isWordPart c = true) :
    c.utf8Size = 1 ∧ c ≠ '\n' := by
  constructor
  · have hle : c.val.toNat ≤ 127 := by
      simp only [isWordPart, isWordStart, isDigit, Bool.or_eq_true, Bool.and_eq_true,
        decide_eq_true_eq, Char.le_def, UInt32.le_iff_toNat_le, beq_iff_eq] at h
      have hZ : 'Z'.val.toNat = 90 := rfl
      have hz : 'z'.val.toNat = 122 := rfl
      have h9 : '9'.val.toNat = 57 := rfl
      rcases h with ((h | h) | rfl) | h
      · omega
      · omega
      · decide
      · omega
    exact if_pos (UInt32.le_iff_toNat_le.2 hle)
  · rintro rfl
    exact absurd h (by decide)

/-- The characters of a recognised piece have one byte each, and there is no line feed among
them. -/
theorem IsRecognised.ascii {cs : List Char} (h : IsRecognised cs) :
    ∀ c ∈ cs, c.utf8Size = 1 ∧ c ≠ '\n' := by
  rcases h with hword | hnumber | hpunctuation
  · cases cs with
    | nil => simp
    | cons d ds =>
      have hd : isWordPart d = true := by rw [isWordPart, hword.1, Bool.true_or]
      exact List.forall_mem_cons.2 ⟨ascii_of_isWordPart hd,
        fun c hc => ascii_of_isWordPart (hword.2 c hc)⟩
  · intro c hc
    have hd : isWordPart c = true := by rw [isWordPart, hnumber.2 c hc, Bool.or_true]
    exact ascii_of_isWordPart hd
  · have hall : ∀ k ∈ TokenKind.punctuators, k.spelling?.all (fun s =>
        s.toList.all fun c => c.utf8Size == 1 && c != '\n') = true := by decide +kernel
    obtain ⟨k, hk, hs⟩ := hpunctuation
    have hk := hall k hk
    rw [hs] at hk
    simpa using hk

/-! ## Tokens and gaps -/

/-- That a token lies in a text, behind a front and a gap and before what is behind it. -/
structure Token.LiesIn (t : Token) (text front gap behind : String) : Prop where
  /-- The four pieces are the text. -/
  text_eq : text = front ++ gap ++ t.spelling ++ behind
  /-- In front of the token there are only blanks and comments. -/
  isGap : IsGap (t.spelling ++ behind).toList gap.toList
  /-- The token begins behind the gap. -/
  offset_eq : t.offset = (front ++ gap).utf8ByteSize
  /-- The token ends behind its spelling. -/
  stopOffset_eq : t.stopOffset = (front ++ gap ++ t.spelling).utf8ByteSize
  /-- The position is that of the first character. -/
  start_eq : t.start = .behind (front ++ gap).toList
  /-- A valid token ends at the position right behind it. -/
  stop_eq : t.kind ≠ .invalid → t.stop = .behind (front ++ gap ++ t.spelling).toList

namespace TextCursor

/-- The characters of a valid lexeme have one byte each, and there is no line feed among them. -/
theorem ascii_of_next {c : TextCursor} (h : c.next.1.kind ≠ .invalid) :
    ∀ d ∈ c.next.1.text.toList, d.utf8Size = 1 ∧ d ≠ '\n' := by
  by_cases hnil : c.skipGap.rest = []
  · have hempty : c.next.1.text = "" := congrArg Word.text (next_of_skipGap_eq_nil hnil).1
    simp [hempty]
  · have hlongest : c.next.1.word.IsLongestIn c.skipGap.rest := (frontWord_spec hnil).1
    by_cases hr : IsRecognised c.next.1.text.toList
    · exact hr.ascii
    · have hnone : ∀ cs, cs <+: c.skipGap.rest → ¬ IsRecognised cs := fun cs hcs h =>
        hr (hlongest.longest cs hcs h).1
      exact absurd (hlongest.invalid hnone).1 h

/-- The text of the next lexeme is the front of what is ahead of the gap. -/
theorem toList_text_next (c : TextCursor) :
    c.next.1.text.toList = c.skipGap.rest.take (frontLexeme c.skipGap.rest).2 :=
  String.toList_ofList

/-- The symbol of a token has the size of the text of its lexeme. -/
theorem symbol_size_of_next {c : TextCursor} {t : Token} (h : t.lexeme = c.next.1) :
    t.symbol.size = byteCount c.next.1.text.toList := by
  rw [byteCount_toList, ← h]
  rfl

/-- A token ends at the cursor behind its lexeme. -/
theorem stopOffset_of_next {c : TextCursor} {t : Token} (h : t.lexeme = c.next.1) :
    t.stopOffset = c.next.2.offset := by
  have hoffset : t.offset = c.skipGap.offset := congrArg Lexeme.offset h
  rw [Token.stopOffset, hoffset, symbol_size_of_next h, toList_text_next]
  rfl

/-- The next token at a cursor lies between what is behind the cursor and what is ahead of the
token. -/
theorem StandsBehind.liesIn {c : TextCursor} {front : List Char} {text : String} {t : Token}
    (h : c.StandsBehind front text.toList) (ht : t.lexeme = c.next.1) :
    t.LiesIn text (String.ofList front) (String.ofList (c.rest.take (gapLength false c.rest)))
      (String.ofList c.next.2.rest) := by
  obtain ⟨hskip, hnext⟩ := h.next
  obtain ⟨hgap, -⟩ := isGap_gapLength c.rest
  have hspelling : t.spelling = c.next.1.text := congrArg Lexeme.text ht
  have hstart : t.start = c.skipGap.position := congrArg Lexeme.start ht
  have hoffset : t.offset = c.skipGap.offset := congrArg Lexeme.offset ht
  have hrest : c.skipGap.rest = c.next.1.text.toList ++ c.next.2.rest := by
    have heq := hskip.text_eq.symm.trans hnext.text_eq
    rw [List.append_assoc _ c.next.1.text.toList] at heq
    exact List.append_cancel_left heq
  constructor
  case text_eq =>
    refine String.toList_inj.1 ?_
    rw [hnext.text_eq]
    simp [hspelling]
  case isGap =>
    rw [String.toList_ofList, String.toList_append, String.toList_ofList, hspelling, ← hrest]
    exact hgap
  case offset_eq =>
    rw [hoffset, hskip.offset_eq, ← byteCount_toList]
    simp
  case stopOffset_eq =>
    rw [stopOffset_of_next ht, hnext.offset_eq, ← byteCount_toList]
    simp [hspelling]
  case start_eq =>
    rw [hstart, hskip.position_eq, Position.foldl_after_first]
    simp
  case stop_eq =>
    intro hkind
    have hascii := ascii_of_next fun hno => hkind ((congrArg Lexeme.kind ht).trans hno)
    rw [Token.stop, symbol_size_of_next ht, ← Position.foldl_after_of_ascii hascii, hstart, hskip.position_eq,
      ← List.foldl_append, Position.foldl_after_first]
    simp [hspelling]

end TextCursor

/-! ## The tokens of a text -/

section Buffer

variable {symbols : SymbolTable} {text : String}

/-- A token of a text is the next one behind the tokens before it. -/
theorem lexeme_of_tokenize {i : Nat} {t : Token} (h : (tokenize symbols text).1[i]? = some t) :
    t.lexeme = ((TextCursor.ofText text).afterLexemes i).next.1 :=
  (TextCursor.getElem?_lexemes (getElem?_scan h)).1

/-- A token of a text ends where the cursor behind it stands. -/
theorem stopOffset_of_tokenize {i : Nat} {t : Token}
    (h : (tokenize symbols text).1[i]? = some t) :
    t.stopOffset = ((TextCursor.ofText text).afterLexemes (i + 1)).offset := by
  rw [TextCursor.stopOffset_of_next (lexeme_of_tokenize h), TextCursor.afterLexemes_succ]

/-- No token of a text begins before the end of a token that comes earlier. -/
theorem pairwise_stopOffset_tokenize (symbols : SymbolTable) (text : String) :
    (tokenize symbols text).1.Pairwise fun t u => t.stopOffset ≤ u.offset := by
  refine List.pairwise_iff_getElem.2 fun i j hi hj hij => ?_
  have hstop := stopOffset_of_tokenize (List.getElem?_eq_getElem hi)
  have hoffset : _ = ((TextCursor.ofText text).afterLexemes j).skipGap.offset :=
    congrArg Lexeme.offset (lexeme_of_tokenize (List.getElem?_eq_getElem hj))
  have hmono := (TextCursor.ofText text).offset_afterLexemes_mono (Nat.succ_le_of_lt hij)
  rw [hstop]
  exact hmono.trans ((Nat.le_add_right _ _).trans (Nat.le_of_eq hoffset.symm))

/-- The last token of a text is at the end of the text. -/
theorem offset_of_tokenize_concat {ts : List Token} {finish : Token}
    (h : (tokenize symbols text).1 = ts ++ [finish]) : finish.offset = text.utf8ByteSize := by
  have hlast : (tokenize symbols text).1[ts.length]? = some finish := by
    rw [h]
    exact List.getElem?_concat_length
  have hlength : ts.length + 1 = (scan text).length := by
    rw [← map_lexeme_tokenize symbols text, h]
    simp
  obtain ⟨front, hfront⟩ := (TextCursor.standsBehind_ofText text).afterLexemes ts.length
  obtain ⟨hskip, -⟩ := hfront.next
  have hnil := (TextCursor.getElem?_lexemes (getElem?_scan hlast)).2.2 hlength
  have hoffset : finish.offset = _ := congrArg Lexeme.offset (lexeme_of_tokenize hlast)
  rw [hoffset, ← byteCount_toList, hskip.text_eq, hnil, List.append_nil]
  exact hskip.offset_eq

/-- A token of a text lies behind a gap, which begins where the token before it ends. -/
theorem exists_liesIn_of_tokenize {i : Nat} {t : Token}
    (h : (tokenize symbols text).1[i]? = some t) :
    ∃ front gap behind, t.LiesIn text front gap behind ∧ (i = 0 → front = "") ∧
      ∀ j u, i = j + 1 → (tokenize symbols text).1[j]? = some u →
        u.stopOffset = front.utf8ByteSize := by
  obtain ⟨front, hfront⟩ := (TextCursor.standsBehind_ofText text).afterLexemes i
  refine ⟨_, _, _, hfront.liesIn (lexeme_of_tokenize h), ?_, ?_⟩
  · rintro rfl
    have hnil : front = [] := List.self_eq_append_left.1 hfront.text_eq
    rw [hnil, String.ofList_nil]
  · rintro j u rfl hu
    rw [stopOffset_of_tokenize hu, hfront.offset_eq, ← byteCount_toList, String.toList_ofList]

end Buffer

/-- The tokens of a text and the gaps in front of them are the text. Only the last token marks
the end, and it is there; all others have characters, and none begins before the end of the one
before it. Each token lies behind a gap that begins where the token before it ends. -/
theorem tokenize_layout (symbols : SymbolTable) (text : String) :
    ∃ ts finish, (tokenize symbols text).1 = ts ++ [finish] ∧
      finish.kind = .eof ∧ finish.offset = text.utf8ByteSize ∧
      (∀ t ∈ ts, t.kind ≠ .eof ∧ t.spelling ≠ "") ∧
      (ts ++ [finish]).Pairwise (fun t u => t.stopOffset ≤ u.offset) ∧
      ∀ i t, (ts ++ [finish])[i]? = some t → ∃ front gap behind,
        t.LiesIn text front gap behind ∧ (i = 0 → front = "") ∧
          ∀ j u, i = j + 1 → (ts ++ [finish])[j]? = some u →
            u.stopOffset = front.utf8ByteSize := by
  obtain ⟨ts, finish, hbuffer, hfinish, hlex, -⟩ := tokenize_spec symbols text
  have hends := offset_of_tokenize_concat hbuffer
  have hordered := pairwise_stopOffset_tokenize symbols text
  have hlies : ∀ i t, (tokenize symbols text).1[i]? = some t → _ :=
    fun _ _ => exists_liesIn_of_tokenize
  rw [hbuffer] at hordered hlies
  refine ⟨ts, finish, hbuffer, hfinish, hends, fun t ht => ?_, hordered, hlies⟩
  obtain ⟨hkind, -⟩ := Word.isLexeme_iff.1 (hlex t ht)
  obtain ⟨d, cs, hcs, -⟩ := TextCursor.exists_of_isLexeme (hlex t ht)
  refine ⟨hkind, fun hempty => ?_⟩
  have hnil : t.word.text.toList = [] := congrArg String.toList hempty
  exact List.cons_ne_nil _ _ (hcs.symm.trans hnil)

end ConcreteSyntax
