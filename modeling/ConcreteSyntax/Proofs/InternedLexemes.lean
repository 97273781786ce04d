import ConcreteSyntax.Lexing
import ConcreteSyntax.Proofs.ScannedLexemes
import ConcreteSyntax.Proofs.TableGrowth

/-!
# Lexemes with interned spellings

A lexer finds out whether a word is reserved by the symbol of the word, with the symbols that the
reserved words had when it began. Its table only grows, so these stay the symbols of the reserved
words, and no other text has one of them. Hence the tokens of a text are its lexemes with their
characters interned, whatever the table held before. Lexing a text interns the reserved words and
the characters of every lexeme; lexing it once more gives the same tokens and adds nothing, whatever
was interned in between.
-/

namespace ConcreteSyntax

open SymbolTable

/-- Symbols of one table are equal as symbols exactly when their texts are equal. -/
theorem SymbolTable.beq_eq_of_get? {t : SymbolTable} {text text' : String} {s s' : Symbol}
    (h : t.get? text = some s) (h' : t.get? text' = some s') : (s == s') = (text == text') := by
  have htables : s.table = s'.table :=
    (get?_eq_some_iff.1 h).2.1.trans (get?_eq_some_iff.1 h').2.1.symm
  have hsame : (s == s') = (s.table == s'.table && s.index == s'.index) := rfl
  rw [hsame, htables, beq_self_eq_true, Bool.true_and, Bool.eq_iff_iff, beq_iff_eq, beq_iff_eq]
  exact text_inj_of_get? h h'

namespace Lexer

/-! ## Tokens of lexemes -/

/-- The token of a lexeme and the table in which its spelling is interned. -/
def token (symbols : SymbolTable) (lexeme : Lexeme) : Token × SymbolTable :=
  let (symbol, symbols) := symbols.intern lexeme.text
  (⟨lexeme.kind, symbol, lexeme.start, lexeme.offset⟩, symbols)

/-- The tokens of lexemes, interned from left to right. -/
def tokens (symbols : SymbolTable) : List Lexeme → List Token × SymbolTable
  | [] => ([], symbols)
  | lexeme :: lexemes =>
    let (first, symbols) := token symbols lexeme
    let (others, symbols) := tokens symbols lexemes
    (first :: others, symbols)

/-! ## Reserved words by their symbols -/

/-- Noting the reserved words interns them. -/
theorem reserve_snd (symbols : SymbolTable) (words : List (String × TokenKind)) :
    (reserve symbols words).2 = symbols.internAll (words.map Prod.fst) := by
  induction words generalizing symbols with
  | nil => rfl
  | cons word words ih => exact ih (symbols.intern word.1).2

/-- The kinds that were noted are found by the symbols that the words have in any table grown since,
and nothing is found by another symbol. -/
theorem lookup_reserve {symbols table : SymbolTable} {words : List (String × TokenKind)}
    (hgrows : (reserve symbols words).2.GrowsTo table) {text : String} {symbol : Symbol}
    (h : table.get? text = some symbol) :
    (reserve symbols words).1.lookup symbol = words.lookup text := by
  induction words generalizing symbols with
  | nil => rfl
  | cons word words ih =>
    have hrest : (reserve (symbols.intern word.1).2 words).2.GrowsTo table := hgrows
    have hword : table.get? word.1 = some (symbols.intern word.1).1 := by
      refine hrest.get? ?_
      rw [reserve_snd]
      exact (growsTo_internAll _ _).get? (get?_intern symbols word.1)
    have hnoted : (reserve symbols (word :: words)).1 =
        ((symbols.intern word.1).1, word.2) :: (reserve (symbols.intern word.1).2 words).1 := rfl
    rw [hnoted, List.lookup_cons, List.lookup_cons, beq_eq_of_get? h hword, ih hrest]

/-- That a lexer knows the reserved words: by their symbols it finds the same kinds as by their
characters, now and whenever its table has grown. -/
def KnowsReserved (l : Lexer) : Prop :=
  ∀ ⦃table : SymbolTable⦄, l.symbols.GrowsTo table → ∀ ⦃text : String⦄ ⦃symbol : Symbol⦄,
    table.get? text = some symbol → (l.keywords.lookup symbol).getD .ident = .ofWord text

/-- At the beginning of a text a lexer knows the reserved words. -/
theorem knowsReserved_ofText (symbols : SymbolTable) (text : String) :
    (ofText symbols text).KnowsReserved := by
  intro table hgrows text' symbol h
  dsimp only [ofText] at hgrows ⊢
  rw [TokenKind.ofWord, lookup_reserve hgrows h]

/-! ## Tokens one by one -/

section

variable {l : Lexer}

/-- A lexer advances by making the token of a lexeme. -/
theorem advance_eq {length : Nat} {kindOf : Symbol → TokenKind} {lexeme : Lexeme}
    (htext : lexeme.text = String.ofList (l.cursor.rest.take length))
    (hkind : kindOf (l.symbols.intern lexeme.text).1 = lexeme.kind)
    (hstart : lexeme.start = l.cursor.position) (hoffset : lexeme.offset = l.cursor.offset) :
    l.advance length kindOf = ((token l.symbols lexeme).1,
      ⟨l.cursor.move length, (token l.symbols lexeme).2, l.keywords⟩) := by
  simp only [advance, token, ← htext, hkind, hstart, hoffset]

/-- The next token is the next lexeme with its characters interned. The lexer knows the kind of a
word by the symbol that the word has once it is interned. -/
theorem KnowsReserved.next_eq (h : l.KnowsReserved) :
    l.next = ((token l.symbols l.cursor.next.1).1,
      ⟨l.cursor.next.2, (token l.symbols l.cursor.next.1).2, l.keywords⟩) := by
  have hword : ∀ text, (l.keywords.lookup (l.symbols.intern text).1).getD .ident = .ofWord text :=
    fun text => h (l.symbols.growsTo_intern text) (l.symbols.get?_intern text)
  unfold next TextCursor.next
  cases hrest : l.cursor.skipGap.rest with
  | nil =>
    simp only [hrest, frontLexeme]
    exact advance_eq (by rw [hrest]) rfl rfl rfl
  | cons c cs =>
    by_cases hw : isWordStart c = true
    · have hlength : ((c :: cs).takeWhile isWordPart).length =
          (c :: cs.takeWhile isWordPart).length := by
        rw [List.takeWhile_cons_of_pos (by rw [isWordPart, hw, Bool.true_or])]
      simp only [hrest, if_pos hw, word, hlength, frontLexeme]
      exact advance_eq (by rw [hrest]) (by rw [take_length_takeWhile]; exact hword _) rfl rfl
    · by_cases hd : isDigit c = true
      · have hlength : ((c :: cs).takeWhile isDigit).length =
            (c :: cs.takeWhile isDigit).length := by
          rw [List.takeWhile_cons_of_pos hd]
        simp only [hrest, if_neg hw, if_pos hd, number, hlength, frontLexeme]
        exact advance_eq (by rw [hrest]) rfl rfl rfl
      · simp only [hrest, if_neg hw, if_neg hd, frontLexeme]
        exact advance_eq (by rw [hrest]) rfl rfl rfl

/-- Behind the next token a lexer still knows the reserved words. -/
theorem KnowsReserved.next (h : l.KnowsReserved) : l.next.2.KnowsReserved := by
  rw [h.next_eq]
  exact fun _ hgrows => h ((l.symbols.growsTo_intern l.cursor.next.1.text).trans hgrows)

/-- All tokens are the lexemes with their characters interned. -/
theorem KnowsReserved.allWithin_eq (h : l.KnowsReserved) (bound : Nat) :
    allWithin bound l = tokens l.symbols (l.cursor.lexemesWithin bound) := by
  induction bound generalizing l with
  | zero => rw [allWithin, h.next_eq]; rfl
  | succ bound ih =>
    have hnext := ih h.next
    rw [h.next_eq] at hnext
    simp only [allWithin, h.next_eq, TextCursor.lexemesWithin, hnext]
    have hkind : (token l.symbols l.cursor.next.1).1.isEof =
        decide (l.cursor.next.1.kind = .eof) := rfl
    rw [hkind]
    by_cases heof : l.cursor.next.1.kind = .eof
    · simp only [heof, decide_true, if_true]
      rfl
    · simp only [heof, decide_false, Bool.false_eq_true, if_false]
      rfl

/-- All tokens that are left are the lexemes that are left with their characters interned. -/
theorem KnowsReserved.all_eq (h : l.KnowsReserved) :
    l.all = tokens l.symbols l.cursor.lexemes :=
  h.allWithin_eq l.cursor.rest.length

end

/-! ## All tokens -/

/-- The tokens of a lexeme and more lexemes. -/
theorem tokens_cons (symbols : SymbolTable) (l : Lexeme) (ls : List Lexeme) :
    tokens symbols (l :: ls) =
      (⟨l.kind, (symbols.intern l.text).1, l.start, l.offset⟩ ::
        (tokens (symbols.intern l.text).2 ls).1, (tokens (symbols.intern l.text).2 ls).2) :=
  rfl

/-- Making tokens interns the characters of the lexemes. -/
theorem tokens_snd (symbols : SymbolTable) (ls : List Lexeme) :
    (tokens symbols ls).2 = symbols.internAll (ls.map Lexeme.text) := by
  induction ls generalizing symbols with
  | nil => rfl
  | cons l ls ih =>
    rw [tokens_cons, ih]
    rfl

/-- The symbols of tokens are the symbols of their characters in the table. -/
theorem get?_of_mem_tokens {symbols : SymbolTable} {ls : List Lexeme} :
    ∀ t ∈ (tokens symbols ls).1, (tokens symbols ls).2.get? t.spelling = some t.symbol := by
  induction ls generalizing symbols with
  | nil => simp [tokens]
  | cons l ls ih =>
    rw [tokens_cons]
    intro t ht
    rcases List.mem_cons.1 ht with rfl | ht
    · have hfirst := get?_intern symbols l.text
      have hgrows := growsTo_internAll (symbols.intern l.text).2 (ls.map Lexeme.text)
      rw [← tokens_snd] at hgrows
      rw [Token.spelling, SymbolTable.text_intern]
      exact hgrows.get? hfirst
    · exact ih t ht

/-- Making the tokens once more gives the same tokens and adds nothing. -/
theorem tokens_of_growsTo {symbols later : SymbolTable} {ls : List Lexeme}
    (h : (tokens symbols ls).2.GrowsTo later) :
    tokens later ls = ((tokens symbols ls).1, later) := by
  induction ls generalizing symbols with
  | nil => rfl
  | cons l ls ih =>
    rw [tokens_cons] at h
    have hgrows := growsTo_internAll (symbols.intern l.text).2 (ls.map Lexeme.text)
    rw [← tokens_snd] at hgrows
    have hfirst := (hgrows.trans h).get? (get?_intern symbols l.text)
    rw [tokens_cons, tokens_cons, intern_of_get? hfirst, ih h]

end Lexer

/-- The texts that lexing a text interns: the reserved words, the characters of every lexeme, and
the empty text of the end. -/
def lexedTexts (text : String) : List String :=
  TokenKind.keywordSpellings ++ (scan text).map Lexeme.text

/-- The tokens of a text are made of its lexemes, with the reserved words in the table. -/
theorem tokenize_eq (symbols : SymbolTable) (text : String) :
    tokenize symbols text =
      Lexer.tokens (symbols.internAll TokenKind.keywordSpellings) (scan text) := by
  rw [tokenize, (Lexer.knowsReserved_ofText symbols text).all_eq, Lexer.ofText]
  simp only [Lexer.reserve_snd]
  rfl

/-- Lexing a text interns the reserved words and the characters of the lexemes. -/
theorem tokenize_snd (symbols : SymbolTable) (text : String) :
    (tokenize symbols text).2 = symbols.internAll (lexedTexts text) := by
  rw [tokenize_eq, Lexer.tokens_snd, lexedTexts, SymbolTable.internAll_append]

/-- The symbols of the tokens of a text are the symbols of their characters in the table. -/
theorem get?_of_mem_tokenize {symbols : SymbolTable} {text : String} :
    ∀ t ∈ (tokenize symbols text).1, (tokenize symbols text).2.get? t.spelling = some t.symbol := by
  rw [tokenize_eq]
  exact Lexer.get?_of_mem_tokens

/-- Lexing a text once more gives the same tokens and adds nothing, whatever the table has
interned since. -/
theorem tokenize_of_growsTo {symbols later : SymbolTable} {text : String}
    (h : (tokenize symbols text).2.GrowsTo later) :
    tokenize later text = ((tokenize symbols text).1, later) := by
  have hwords : TokenKind.keywordSpellings ⊆ later.texts := by
    intro word hword
    refine h.front.subset ?_
    rw [tokenize_snd, SymbolTable.mem_texts_internAll]
    exact .inr (List.mem_append_left _ hword)
  rw [tokenize_eq] at h ⊢
  rw [SymbolTable.internAll_of_subset hwords, Lexer.tokens_of_growsTo h, tokenize_eq]

end ConcreteSyntax
