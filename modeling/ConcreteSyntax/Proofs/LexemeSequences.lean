import ConcreteSyntax.Proofs.LineJoins

/-!
# Lexemes one behind the other

A text is scanned lexeme by lexeme: each lexeme is the next one at the cursor behind the lexeme
before it. A cursor that is reached in this way stands behind a front of the text, which tells its
position and its offset.
-/

namespace ConcreteSyntax

namespace TextCursor

/-! ## Cursors inside a text -/

/-- That a cursor stands in a text behind its front. -/
structure StandsBehind (c : TextCursor) (front text : List Char) : Prop where
  /-- The front and what is ahead are the text. -/
  text_eq : text = front ++ c.rest
  /-- The position is reached by reading the front. -/
  position_eq : c.position = front.foldl Position.after .first
  /-- The offset is the number of bytes of the front. -/
  offset_eq : c.offset = byteCount front

/-- At first a cursor stands behind nothing. -/
theorem standsBehind_ofText (text : String) : (ofText text).StandsBehind [] text.toList :=
  ⟨rfl, rfl, rfl⟩

/-- A cursor that moves leaves characters behind. -/
theorem StandsBehind.move {c : TextCursor} {front text : List Char}
    (h : c.StandsBehind front text) (n : Nat) :
    (c.move n).StandsBehind (front ++ c.rest.take n) text where
  text_eq := by
    rw [h.text_eq, TextCursor.move, List.append_assoc, List.take_append_drop]
  position_eq := by
    rw [TextCursor.move, List.foldl_append, ← h.position_eq]
  offset_eq := by
    rw [TextCursor.move, byteCount_append, ← h.offset_eq]

/-- The next lexeme stands behind the front and the gap, and the cursor behind it also has its
characters behind it. -/
theorem StandsBehind.next {c : TextCursor} {front text : List Char}
    (h : c.StandsBehind front text) :
    c.skipGap.StandsBehind (front ++ c.rest.take (gapLength false c.rest)) text ∧
      c.next.2.StandsBehind
        (front ++ c.rest.take (gapLength false c.rest) ++ c.next.1.text.toList) text := by
  have hskip := h.move (gapLength false c.rest)
  have htext : c.next.1.text.toList = c.skipGap.rest.take (frontLexeme c.skipGap.rest).2 :=
    String.toList_ofList
  refine ⟨hskip, ?_⟩
  rw [htext]
  exact hskip.move _

/-! ## The cursor behind a number of lexemes -/

/-- The cursor behind the next `count` lexemes. -/
def afterLexemes (c : TextCursor) : Nat → TextCursor
  | 0 => c
  | count + 1 => c.next.2.afterLexemes count

/-- The cursor behind one more lexeme. -/
theorem afterLexemes_succ (c : TextCursor) (count : Nat) :
    c.afterLexemes (count + 1) = (c.afterLexemes count).next.2 := by
  induction count generalizing c with
  | zero => rfl
  | succ count ih => exact ih c.next.2

/-- The cursor behind lexemes and more lexemes. -/
theorem afterLexemes_add (c : TextCursor) (m n : Nat) :
    c.afterLexemes (m + n) = (c.afterLexemes m).afterLexemes n := by
  induction m generalizing c with
  | zero => rw [Nat.zero_add, afterLexemes]
  | succ m ih => rw [Nat.succ_add, afterLexemes, ih, afterLexemes]

/-- The cursor behind lexemes is reached by moving. -/
theorem exists_afterLexemes_eq_move (c : TextCursor) (count : Nat) :
    ∃ n, c.afterLexemes count = c.move n := by
  induction count with
  | zero => exact ⟨0, c.move_zero.symm⟩
  | succ count ih =>
    obtain ⟨n, hn⟩ := ih
    rw [afterLexemes_succ, hn, next_snd, move_move]
    exact ⟨_, rfl⟩

/-- The cursor behind more lexemes is not at a lower offset. -/
theorem offset_afterLexemes_mono (c : TextCursor) {m n : Nat} (h : m ≤ n) :
    (c.afterLexemes m).offset ≤ (c.afterLexemes n).offset := by
  obtain ⟨k, rfl⟩ := Nat.exists_eq_add_of_le h
  obtain ⟨count, hcount⟩ := (c.afterLexemes m).exists_afterLexemes_eq_move k
  rw [afterLexemes_add, hcount]
  exact Nat.le_add_right _ _

/-- The cursor behind lexemes stands in the text. -/
theorem StandsBehind.afterLexemes {c : TextCursor} {front text : List Char}
    (h : c.StandsBehind front text) (count : Nat) :
    ∃ front', (c.afterLexemes count).StandsBehind front' text := by
  obtain ⟨n, hn⟩ := c.exists_afterLexemes_eq_move count
  exact ⟨_, hn ▸ h.move n⟩

/-- A lexeme is the next one behind the lexemes before it. All but the last one have characters,
and at the last one only a gap is left. -/
theorem getElem?_lexemes {c : TextCursor} {i : Nat} {l : Lexeme} (h : c.lexemes[i]? = some l) :
    l = (c.afterLexemes i).next.1 ∧
      ((c.afterLexemes i).skipGap.rest = [] ↔ i + 1 = c.lexemes.length) := by
  induction i generalizing c with
  | zero =>
    by_cases hnil : c.skipGap.rest = []
    · rw [lexemes_of_eq_nil hnil] at h ⊢
      exact ⟨(Option.some.inj h).symm, by simp [afterLexemes, hnil]⟩
    · rw [lexemes_of_ne_nil hnil] at h ⊢
      have hothers := List.length_pos_iff.2 (lexemes_ne_nil c.next.2)
      refine ⟨(Option.some.inj h).symm, fun hno => absurd hno hnil, fun hone => ?_⟩
      simp only [List.length_cons] at hone
      omega
  | succ i ih =>
    by_cases hnil : c.skipGap.rest = []
    · rw [lexemes_of_eq_nil hnil] at h
      contradiction
    · rw [lexemes_of_ne_nil hnil] at h ⊢
      obtain ⟨hnext, hlast⟩ := ih h
      refine ⟨hnext, hlast.trans ?_⟩
      rw [List.length_cons, Nat.add_right_cancel_iff]

end TextCursor

/-- The lexemes of the tokens of a text, by their places in the buffer. -/
theorem getElem?_scan {symbols : SymbolTable} {text : String} {i : Nat} {t : Token}
    (h : (tokenize symbols text).1[i]? = some t) : (scan text)[i]? = some t.lexeme := by
  rw [← map_lexeme_tokenize symbols text, List.getElem?_map, h]
  rfl

end ConcreteSyntax
