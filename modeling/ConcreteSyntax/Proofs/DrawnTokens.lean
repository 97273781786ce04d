import ConcreteSyntax.Proofs.LexemeSequences
import ConcreteSyntax.Proofs.ReaderCursors
import ConcreteSyntax.Proofs.TableIndependence

/-!
# Tokens drawn one at a time

Lexing all that is left of a text is drawing tokens until the end is drawn. So it makes no
difference how many tokens were drawn before: they and those that are left are the tokens of the
whole text, and in the end the table is the same. Once the end has been drawn, nothing changes any
more, and every further draw gives the end again.
-/

namespace ConcreteSyntax

/-! ## The end of the text -/

namespace TextCursor

/-- Behind the end of the text the next lexeme is the end again, and the cursor stays. -/
theorem next_next_of_eq_nil {c : TextCursor} (h : c.skipGap.rest = []) :
    c.next.2.next = c.next := by
  have hnext : c.next = (⟨.eof, "", c.skipGap.position, c.skipGap.offset⟩, c.skipGap) := by
    simp [next, h, frontLexeme, move_zero]
  have hskip : c.skipGap.skipGap = c.skipGap := by
    rw [skipGap, h]
    exact c.skipGap.move_zero
  have hagain : c.skipGap.next = c.next := by
    rw [next, hskip]
    rfl
  rw [hnext] at hagain ⊢
  exact hagain

/-- Only the end of the text is of the kind of the end. -/
theorem kind_next_eq_eof_iff {c : TextCursor} : c.next.1.kind = .eof ↔ c.skipGap.rest = [] := by
  constructor
  · refine fun hkind => Classical.byContradiction fun hne => ?_
    exact (Word.isLexeme_iff.1 (next_of_skipGap_ne_nil hne).1).1 hkind
  · exact fun h => congrArg Word.kind (next_of_skipGap_eq_nil h).1

end TextCursor

namespace Lexer

variable {l : Lexer} {t finish : Token} {ts : List Token} {symbols : SymbolTable}

/-- A token is the end exactly when only a gap is left in front of it. -/
theorem KnowsReserved.isEof_next_iff (h : l.KnowsReserved) :
    l.next.1.isEof = true ↔ l.cursor.skipGap.rest = [] := by
  rw [h.next_eq]
  exact beq_iff_eq.trans TextCursor.kind_next_eq_eof_iff

/-- When the next token is the end, it is all that is left. -/
theorem all_of_isEof (heof : l.next.1.isEof = true) : l.all = ([l.next.1], l.next.2.symbols) := by
  rw [all]
  cases l.cursor.rest.length with
  | zero => rfl
  | succ bound => simp only [allWithin, heof, if_true]

/-- When the next token is not the end, it and what is left behind it are all that is left. -/
theorem KnowsReserved.all_of_not_isEof (h : l.KnowsReserved) (hno : ¬ l.next.1.isEof = true) :
    l.all = (l.next.1 :: l.next.2.all.1, l.next.2.all.2) := by
  rw [h.next.all_eq, h.all_eq, TextCursor.lexemes_of_ne_nil (mt h.isEof_next_iff.2 hno), h.next_eq]
  rfl

/-- Drawing the end once more gives the same token and changes nothing. -/
theorem KnowsReserved.next_next_of_isEof (h : l.KnowsReserved) (heof : l.next.1.isEof = true) :
    l.next.2.next = l.next := by
  have hcursor : l.cursor.next.2.next = l.cursor.next :=
    TextCursor.next_next_of_eq_nil (h.isEof_next_iff.1 heof)
  have hintern := SymbolTable.intern_of_get? (l.symbols.get?_intern l.cursor.next.1.text)
  rw [h.next.next_eq, h.next_eq]
  simp only [token, hcursor, hintern]

/-! ## What is left to be drawn -/

/-- That a lexer has tokens left before the end, and the table that holds the spellings when all of
them are drawn. -/
structure HasLeft (l : Lexer) (ts : List Token) (finish : Token) (symbols : SymbolTable) :
    Prop where
  /-- The lexer knows the reserved words. -/
  knows : l.KnowsReserved
  /-- These tokens and the end are all that is left. -/
  all_eq : l.all = (ts ++ [finish], symbols)
  /-- The last token marks the end of the text. -/
  isEof_finish : finish.isEof = true
  /-- The other tokens do not. -/
  not_isEof : ∀ t ∈ ts, ¬ t.isEof = true

/-- What is drawn is the first of the tokens that are left, and then the others are left. -/
theorem HasLeft.next_cons (h : l.HasLeft (t :: ts) finish symbols) :
    l.next.1 = t ∧ l.next.2.HasLeft ts finish symbols := by
  have hall := h.all_eq
  obtain ⟨hfirst, hothers⟩ := List.forall_mem_cons.1 h.not_isEof
  by_cases heof : l.next.1.isEof = true
  · rw [all_of_isEof heof, List.cons_append, Prod.mk.injEq, List.cons.injEq] at hall
    exact absurd (hall.1.1 ▸ heof) hfirst
  · rw [h.knows.all_of_not_isEof heof, List.cons_append, Prod.mk.injEq, List.cons.injEq] at hall
    obtain ⟨⟨hnext, htokens⟩, hsymbols⟩ := hall
    exact ⟨hnext, h.knows.next, Prod.ext htokens hsymbols, h.isEof_finish, hothers⟩

/-- When only the end is left, it is drawn, and then it is still left. -/
theorem HasLeft.next_nil (h : l.HasLeft [] finish symbols) :
    l.next.1 = finish ∧ l.next.2.HasLeft [] finish symbols := by
  have hall := h.all_eq
  have heof : l.next.1.isEof = true := by
    by_contra hno
    rw [h.knows.all_of_not_isEof hno, List.nil_append, Prod.mk.injEq, List.cons.injEq] at hall
    exact hno (hall.1.1 ▸ h.isEof_finish)
  -- the lexer behind the end is not the one in front of it, but it draws the same from there on
  have hagain := h.knows.next_next_of_isEof heof
  have hleft : l.next.2.all = l.all := by
    rw [all_of_isEof heof, all_of_isEof (by rw [hagain]; exact heof), hagain]
  rw [all_of_isEof heof, Prod.mk.injEq, List.nil_append, List.cons.injEq] at hall
  exact ⟨hall.1.1, h.knows.next, hleft.trans h.all_eq, h.isEof_finish, h.not_isEof⟩

/-- Drawing one more token is drawing it and then the others. -/
theorem take_succ (count : Nat) (l : Lexer) : Lexer.take (count + 1) l =
    (l.next.1 :: (Lexer.take count l.next.2).1, (Lexer.take count l.next.2).2) :=
  rfl

/-- Drawing tokens gives those that are left, as far as there are any, and then the end over and
over. The others are still left. The induction is on the number of draws; each draw leaves what the
draws behind it start from. -/
theorem HasLeft.take (h : l.HasLeft ts finish symbols) (count : Nat) :
    (Lexer.take count l).1 = ts.take count ++ List.replicate (count - ts.length) finish ∧
      (Lexer.take count l).2.HasLeft (ts.drop count) finish symbols := by
  induction count generalizing l ts with
  | zero => simpa [Lexer.take] using h
  | succ count ih =>
    rw [take_succ]
    cases ts with
    | nil =>
      obtain ⟨hnext, hleft⟩ := h.next_nil
      obtain ⟨htaken, hothers⟩ := ih hleft
      rw [List.drop_nil] at hothers
      exact ⟨by simp [hnext, htaken, List.replicate_succ], hothers⟩
    | cons t ts =>
      obtain ⟨hnext, hleft⟩ := h.next_cons
      obtain ⟨htaken, hothers⟩ := ih hleft
      exact ⟨by simp [hnext, htaken], hothers⟩

end Lexer

/-- At the beginning of a text its tokens are left. -/
theorem exists_hasLeft_ofText (symbols : SymbolTable) (text : String) :
    ∃ ts finish, (tokenize symbols text).1 = ts ++ [finish] ∧
      (Lexer.ofText symbols text).HasLeft ts finish (tokenize symbols text).2 := by
  obtain ⟨ts, finish, hbuffer, hfinish, hothers⟩ := tokenize_eq_append symbols text
  refine ⟨ts, finish, hbuffer, Lexer.knowsReserved_ofText symbols text, Prod.ext hbuffer rfl,
    beq_iff_eq.2 hfinish, fun t ht => ?_⟩
  exact fun heof => hothers t ht (beq_iff_eq.1 heof)

/-- Drawing tokens one at a time and lexing the rest at once agree with lexing the whole text at
once. As long as no more tokens are drawn than the text has before its end, the drawn tokens and the
rest are the tokens of the text. What is drawn beyond is the end again, the same each time, and the
rest is just the end. The table is the same after the rest as after the whole text. -/
theorem take_append_all (symbols : SymbolTable) (text : String) (count : Nat) :
    ∃ ts finish, (tokenize symbols text).1 = ts ++ [finish] ∧ finish.isEof = true ∧
      (∀ t ∈ ts, ¬ t.isEof = true) ∧
      let (drawn, lexer) := (Lexer.ofText symbols text).take count
      drawn.length = count ∧
        (count ≤ ts.length → drawn ++ lexer.all.1 = (tokenize symbols text).1) ∧
        (ts.length < count → drawn.take ts.length = ts ∧
          (∀ t ∈ drawn.drop ts.length, t = finish ∧ (t == finish) = true) ∧
          lexer.all.1 = [finish]) ∧
        lexer.all.2 = (tokenize symbols text).2 := by
  obtain ⟨ts, finish, hbuffer, hleft⟩ := exists_hasLeft_ofText symbols text
  obtain ⟨hdrawn, hrest⟩ := hleft.take count
  refine ⟨ts, finish, hbuffer, hleft.isEof_finish, hleft.not_isEof, ?_⟩
  dsimp only
  rw [hdrawn, hrest.all_eq, hbuffer]
  refine ⟨by simp; omega, fun hle => ?_, fun hlt => ?_, rfl⟩
  · rw [Nat.sub_eq_zero_of_le hle, List.replicate_zero, List.append_nil, ← List.append_assoc,
      List.take_append_drop]
  · have hall : ts.take count = ts := List.take_of_length_le (Nat.le_of_lt hlt)
    rw [hall, List.take_left, List.drop_left, List.drop_of_length_le (Nat.le_of_lt hlt)]
    refine ⟨rfl, fun t ht => ?_, rfl⟩
    rw [List.eq_of_mem_replicate ht]
    exact ⟨rfl, beq_self_eq_true finish⟩

end ConcreteSyntax
