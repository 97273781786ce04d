import ConcreteSyntax.Proofs.LexedWords

/-!
# Where lexemes stand in a text

The characters of a lexeme are a piece of the text. The position of the lexeme is reached by
reading what is before it, and its offset is the number of bytes before it. A token is a
lexeme with an interned spelling, so the same holds of the tokens of a text.
-/

namespace ConcreteSyntax

/-- The characters of a text take as many bytes as the text. -/
theorem byteCount_toList (text : String) : byteCount text.toList = text.utf8ByteSize := by
  have hchars : ∀ cs : List Char, byteCount cs = (String.ofList cs).utf8ByteSize := by
    intro cs
    induction cs with
    | nil => rfl
    | cons c cs ih =>
      have hcons : byteCount (c :: cs) = c.utf8Size + byteCount cs := rfl
      rw [hcons, ih, String.ofList_cons, String.utf8ByteSize_append, String.utf8ByteSize_singleton]
  rw [hchars, String.ofList_toList]

/-! ## Lexemes at cursors -/

/-- That a lexeme begins at a cursor: it has the place of the cursor, and its characters come
next. -/
structure Lexeme.BeginsAt (l : Lexeme) (c : TextCursor) : Prop where
  /-- The position is that of the cursor. -/
  start_eq : l.start = c.position
  /-- The offset is that of the cursor. -/
  offset_eq : l.offset = c.offset
  /-- The characters are those ahead of the cursor. -/
  characters : l.text.toList <+: c.rest

namespace TextCursor

/-- The next lexeme begins behind the gap in front of it. -/
theorem next_beginsAt (c : TextCursor) : c.next.1.BeginsAt c.skipGap := by
  refine ⟨rfl, rfl, ?_⟩
  have htext : c.next.1.text.toList =
      c.skipGap.rest.take (frontLexeme c.skipGap.rest).2 := String.toList_ofList
  rw [htext]
  exact List.take_prefix _ _

/-- A lexeme is followed by what comes behind its characters. -/
theorem next_snd (c : TextCursor) :
    c.next.2 = c.move (gapLength false c.rest + (frontLexeme c.skipGap.rest).2) := by
  rw [← move_move]
  rfl

/-- Every lexeme from a cursor on begins at a cursor that is reached from there. -/
theorem lexemesWithin_beginsAt (bound : Nat) (c : TextCursor) :
    ∀ l ∈ lexemesWithin bound c, ∃ n, l.BeginsAt (c.move n) := by
  have hnext : ∀ c : TextCursor, ∃ n, c.next.1.BeginsAt (c.move n) :=
    fun c => ⟨gapLength false c.rest, c.next_beginsAt⟩
  induction bound generalizing c with
  | zero =>
    intro l hl
    obtain rfl : l = c.next.1 := List.mem_singleton.1 hl
    exact hnext c
  | succ bound ih =>
    intro l hl
    have hcases : l = c.next.1 ∨ l ∈ lexemesWithin bound c.next.2 := by
      simp only [lexemesWithin] at hl
      split at hl
      · exact .inl (List.mem_singleton.1 hl)
      · exact List.mem_cons.1 hl
    rcases hcases with rfl | hl
    · exact hnext c
    · obtain ⟨n, hn⟩ := ih c.next.2 l hl
      rw [next_snd, move_move] at hn
      exact ⟨_, hn⟩

end TextCursor

/-! ## Lexemes in texts -/

/-- That a lexeme stands in a text: its characters are a piece of the text, its position is
reached by reading what is before this piece, and its offset is the number of bytes of what is
before. -/
def Lexeme.StandsIn (l : Lexeme) (text : String) : Prop :=
  ∃ before after : String, text = before ++ l.text ++ after ∧
    l.start = before.toList.foldl Position.after .first ∧ l.offset = before.utf8ByteSize

/-- Every lexeme of a text stands in the text. -/
theorem scan_standsIn (text : String) : ∀ l ∈ scan text, l.StandsIn text := by
  intro l hl
  obtain ⟨n, hn⟩ := TextCursor.lexemesWithin_beginsAt _ _ l hl
  obtain ⟨after, hafter⟩ := hn.characters
  have hrest : ((TextCursor.ofText text).move n).rest = text.toList.drop n := rfl
  rw [hrest] at hafter
  refine ⟨String.ofList (text.toList.take n), String.ofList after, ?_, ?_, ?_⟩
  · refine String.toList_inj.1 ?_
    rw [String.toList_append, String.toList_append, String.toList_ofList, String.toList_ofList,
      List.append_assoc, hafter, List.take_append_drop]
  · rw [hn.start_eq, String.toList_ofList]
    rfl
  · rw [hn.offset_eq, ← byteCount_toList, String.toList_ofList]
    exact Nat.zero_add _

/-! ## Tokens as lexemes -/

/-- A token with its place, but only with the characters of its symbol. -/
def Token.lexeme (t : Token) : Lexeme := ⟨t.kind, t.spelling, t.start, t.offset⟩

/-- Interning changes no lexeme. -/
theorem Lexer.map_lexeme_tokens (symbols : SymbolTable) (ls : List Lexeme) :
    (tokens symbols ls).1.map Token.lexeme = ls := by
  induction ls generalizing symbols with
  | nil => rfl
  | cons l ls ih =>
    simp only [tokens, List.map_cons, ih]
    congr 1
    simp [token, Token.lexeme, Token.spelling, SymbolTable.text_intern]

/-- The tokens of a text are its lexemes, whatever table interns their spellings. -/
theorem map_lexeme_tokenize (symbols : SymbolTable) (text : String) :
    (tokenize symbols text).1.map Token.lexeme = scan text := by
  rw [tokenize_eq]
  exact Lexer.map_lexeme_tokens _ _

/-- Every token of a text stands in the text. -/
theorem standsIn_of_mem_tokenize {symbols : SymbolTable} {text : String} {t : Token}
    (h : t ∈ (tokenize symbols text).1) : t.lexeme.StandsIn text := by
  have hmem : t.lexeme ∈ scan text := by
    rw [← map_lexeme_tokenize symbols text]
    exact List.mem_map_of_mem h
  exact scan_standsIn text _ hmem

/-! ## Bounds -/

/-- A character takes a byte at least. -/
theorem length_toList_le (text : String) : text.toList.length ≤ text.utf8ByteSize := by
  rw [← byteCount_toList]
  induction text.toList with
  | nil => exact Nat.le_refl 0
  | cons c cs ih =>
    have hsize := c.utf8Size_pos
    have hcons : byteCount (c :: cs) = c.utf8Size + byteCount cs := rfl
    rw [List.length_cons, hcons]
    omega

/-- A character that is read adds one line or one column at most. -/
theorem Position.foldl_after_le (p : Position) (cs : List Char) :
    (cs.foldl Position.after p).line ≤ p.line + cs.length ∧
      (cs.foldl Position.after p).column ≤ p.column + cs.length := by
  induction cs generalizing p with
  | nil => exact ⟨Nat.le_refl _, Nat.le_refl _⟩
  | cons c cs ih =>
    have hafter : (p.after c).line ≤ p.line + 1 ∧ (p.after c).column ≤ p.column + 1 := by
      unfold Position.after
      split <;> dsimp only <;> omega
    have hrest := ih (p.after c)
    rw [List.foldl_cons, List.length_cons]
    omega

/-- The lines, columns and offsets of the tokens of a text are bounded by its number of bytes, with
one more for the lines and columns, which begin at one. They fit into 32 bits wherever this bound
does. -/
theorem bounds_of_mem_tokenize {symbols : SymbolTable} {text : String} {t : Token}
    (h : t ∈ (tokenize symbols text).1) :
    t.start.line ≤ text.utf8ByteSize + 1 ∧ t.start.column ≤ text.utf8ByteSize + 1 ∧
      t.stop.column ≤ text.utf8ByteSize + 1 ∧ t.stopOffset ≤ text.utf8ByteSize := by
  obtain ⟨before, after, htext, hstart, hoffset⟩ := standsIn_of_mem_tokenize h
  have hstart : t.start = before.toList.foldl Position.after .first := hstart
  have hoffset : t.offset = before.utf8ByteSize := hoffset
  have hsize : text.utf8ByteSize =
      before.utf8ByteSize + t.symbol.text.utf8ByteSize + after.utf8ByteSize := by
    rw [htext, String.utf8ByteSize_append, String.utf8ByteSize_append]
    rfl
  have hlength := length_toList_le before
  have hplace := Position.first.foldl_after_le before.toList
  rw [← hstart] at hplace
  have hline : t.start.line ≤ 1 + before.toList.length := hplace.1
  have hcolumn : t.start.column ≤ 1 + before.toList.length := hplace.2
  have hstop : t.stop.column = t.start.column + t.symbol.text.utf8ByteSize := rfl
  have hbehind : t.stopOffset = t.offset + t.symbol.text.utf8ByteSize := rfl
  omega

end ConcreteSyntax
