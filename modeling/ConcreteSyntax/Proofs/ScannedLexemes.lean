import ConcreteSyntax.LexicalScanning

/-!
# Scanned lexemes

What a text is lexed as does not depend on the table that interns the spellings. A lexeme is a token
without its symbol: it has its characters instead, and the kind of a word is found by them. At the
end of the text every scan gives the empty end-of-text lexeme.
-/

namespace ConcreteSyntax

namespace TokenKind

/-- The kind of a word by its characters: the one that is reserved for it, or an identifier. -/
def ofWord (text : String) : TokenKind := (reservedWords.lookup text).getD ident

/-- A reserved word is found by its characters. -/
theorem lookup_reservedWords_iff {text : String} {k : TokenKind} :
    reservedWords.lookup text = some k ↔ (text, k) ∈ reservedWords := by
  constructor
  · intro h
    obtain ⟨before, behind, hsplit, -⟩ := List.lookup_eq_some_iff.1 h
    rw [hsplit]
    exact List.mem_append_right _ List.mem_cons_self
  · have hall : ∀ word ∈ reservedWords, reservedWords.lookup word.1 = some word.2 := by decide
    exact hall (text, k)

/-- The kind of a reserved word is the one that is reserved for it. -/
theorem ofWord_of_mem {text : String} {k : TokenKind} (h : (text, k) ∈ reservedWords) :
    ofWord text = k := by
  rw [ofWord, lookup_reservedWords_iff.2 h, Option.getD_some]

/-- The kind of any other word is that of identifiers. -/
theorem ofWord_of_notMem {text : String} (h : ∀ k, (text, k) ∉ reservedWords) :
    ofWord text = ident := by
  have hnone : reservedWords.lookup text = none :=
    Option.eq_none_iff_forall_ne_some.2 fun k hk => h k (lookup_reservedWords_iff.1 hk)
  rw [ofWord, hnone, Option.getD_none]

end TokenKind

/-! ## Punctuators -/

/-- A punctuator of one character does not depend on what is behind it. -/
theorem punctuator_endChar {c d : Char} (h : (punctuator c d).2 = 1) :
    punctuator c endChar = punctuator c d := by
  fun_cases punctuator c d <;> simp_all [punctuator, endChar]

/-- A punctuator has one or two characters, and the second one ends an operator. -/
theorem punctuator_length (c d : Char) :
    (punctuator c d).2 = 1 ∨ (punctuator c d).2 = 2 ∧ (d = '=' ∨ d = '>') := by
  fun_cases punctuator c d <;> simp

/-- What is scanned as a punctuator has its spelling, and all else is a single invalid
character. -/
theorem punctuator_spelled (c d : Char) : punctuator c d = (.invalid, 1) ∨
    (punctuator c d).1 ∈ TokenKind.punctuators ∧
      (punctuator c d).1.spelling? = some (String.ofList ([c, d].take (punctuator c d).2)) := by
  fun_cases punctuator c d <;> first | exact .inl rfl | exact .inr ⟨by decide, rfl⟩

/-- A punctuator is not the end of the text. -/
theorem punctuator_ne_eof (c d : Char) : (punctuator c d).1 ≠ .eof := by
  intro h
  rcases punctuator_spelled c d with hinvalid | ⟨hlisted, -⟩
  · rw [hinvalid] at h
    contradiction
  · rw [h] at hlisted
    exact absurd hlisted (by decide)

/-! ## Lexemes -/

/-- The prefix of a run has the run as its own. -/
theorem take_length_takeWhile (p : Char → Bool) (c : Char) (cs : List Char) :
    (c :: cs).take (c :: cs.takeWhile p).length = c :: cs.takeWhile p := by
  rw [List.length_cons, List.take_succ_cons,
    ← List.prefix_iff_eq_take.1 (List.takeWhile_prefix p)]

/-- The kind and the number of characters of the lexeme at the front of a text
that begins with no gap. -/
def frontLexeme : List Char → TokenKind × Nat
  | [] => (.eof, 0)
  | c :: cs =>
    if isWordStart c then
      let word := c :: cs.takeWhile isWordPart
      (TokenKind.ofWord (String.ofList word), word.length)
    else if isDigit c then
      (.intNumber, (c :: cs.takeWhile isDigit).length)
    else punctuator c (cs.headD endChar)

/-- A scanned unit of a text. -/
structure Lexeme where
  /-- What sort of unit it is. -/
  kind : TokenKind
  /-- Its characters; there are none at the end of the text. -/
  text : String
  /-- The position of the first character. -/
  start : Position
  /-- The number of bytes before the first character. -/
  offset : Nat
  deriving DecidableEq, Repr, Inhabited

namespace TextCursor

/-- The next lexeme and the cursor after it. -/
def next (c : TextCursor) : Lexeme × TextCursor :=
  let front := c.skipGap
  let (kind, length) := frontLexeme front.rest
  (⟨kind, String.ofList (front.rest.take length), front.position, front.offset⟩,
    front.move length)

/-- The lexemes from a cursor on, up to and with the end of the text, when there
are at most `bound` others. -/
def lexemesWithin : Nat → TextCursor → List Lexeme
  | 0, c => [c.next.1]
  | bound + 1, c =>
    let (lexeme, after) := c.next
    if lexeme.kind = .eof then [lexeme] else lexeme :: lexemesWithin bound after

/-- All lexemes from a cursor on; the last one marks the end of the text. Every
other lexeme has a character of its own, which bounds their number. -/
def lexemes (c : TextCursor) : List Lexeme := lexemesWithin c.rest.length c

end TextCursor

/-- All lexemes of a text; the last one marks its end. -/
def scan (text : String) : List Lexeme := (TextCursor.ofText text).lexemes

end ConcreteSyntax
