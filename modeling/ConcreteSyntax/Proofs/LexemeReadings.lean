import ConcreteSyntax.Proofs.FileReadings
import ConcreteSyntax.Proofs.LexemePlaces

/-!
# Reading the lexemes of a text

The parser consults the kinds of tokens only, so the symbols of the spellings play no part in
what is read. Read as a sequence of lexemes, a text gives the same tree or the same error,
whatever table holds its spellings.
-/

namespace ConcreteSyntax

open TokenParser Grammar

instance : HasKind Lexeme := ⟨Lexeme.kind⟩

/-- A token and its lexeme are of the same kind. -/
theorem kind_lexeme (t : Token) : kind t.lexeme = kind t := rfl

/-- The declarations of a file. -/
def Tree.declarations {τ : Type} : Tree τ → List (Tree τ)
  | .file (some (.sequence ds)) => ds
  | _ => []

/-- A file is made of its declarations. -/
theorem Tree.declarations_file {τ : Type} (ds : List (Tree τ)) :
    (Tree.file (Tree.sequence? ds)).declarations = ds := by
  cases ds <;> rfl

/-- A tree as it looks in the text: with lexemes in place of the tokens. -/
def Tree.lexemes (t : Tree Token) : Tree Lexeme := t.map Token.lexeme

/-- An error as it looks in the text: what was expected and the lexeme that was found. -/
def SyntaxError.lexemes (e : SyntaxError) : Expectation × Lexeme := (e.expected, e.found.lexeme)

/-- What reading lexemes as a file gives: a tree, or what was expected and the lexeme that was
found. The last lexeme marks the end. -/
def readLexemes (dialect : Dialect) (ls : List Lexeme) :
    Except (Expectation × Lexeme) (Tree Lexeme) :=
  match parseTokens dialect ls.dropLast with
  | .done t _ => .ok t
  | .failed e _ => .error (e.expected, e.found.getD (ls.getLastD default))

/-- What a result of a reading is in the lexemes of the text. -/
def resultLexemes (result : Except SyntaxError (Tree Token)) :
    Except (Expectation × Lexeme) (Tree Lexeme) :=
  match result with
  | .ok t => .ok t.lexemes
  | .error e => .error e.lexemes

/-- Reading a text is reading its lexemes, whatever table holds its spellings. -/
theorem resultLexemes_parseText (symbols : SymbolTable) (dialect : Dialect) (text : String) :
    resultLexemes (parseText symbols dialect text).1 = readLexemes dialect (scan text) := by
  obtain ⟨ts, finish, hbuffer, -⟩ := tokenize_spec symbols text
  have hscan : scan text = ts.map Token.lexeme ++ [finish.lexeme] := by
    rw [← map_lexeme_tokenize symbols text, hbuffer, List.map_append]
    rfl
  have hmap := parseTokens_map kind_lexeme dialect ts
  simp only [parseText_fst, hbuffer, hscan, readLexemes, List.dropLast_concat,
    List.getLastD_concat, hmap]
  cases parseTokens dialect ts with
  | done t rest => rfl
  | failed e rest =>
    obtain ⟨expected, found⟩ := e
    cases found <;> rfl

/-- A text is accepted exactly when its lexemes are. -/
theorem isOk_parseText (symbols : SymbolTable) (dialect : Dialect) (text : String) :
    (parseText symbols dialect text).1.isOk = (readLexemes dialect (scan text)).isOk := by
  rw [← resultLexemes_parseText symbols dialect text]
  cases (parseText symbols dialect text).1 <;> rfl

/-- The tree of a text is the one that is read from its lexemes. -/
theorem parseText_eq_ok {symbols : SymbolTable} {dialect : Dialect} {text : String}
    {t : Tree Lexeme} (h : readLexemes dialect (scan text) = .ok t) :
    ∃ u, (parseText symbols dialect text).1 = .ok u ∧ u.lexemes = t := by
  rw [← resultLexemes_parseText symbols dialect text] at h
  cases hp : (parseText symbols dialect text).1 with
  | error e => rw [hp] at h; contradiction
  | ok u =>
    rw [hp] at h
    exact ⟨u, rfl, Except.ok.inj h⟩

/-- The error of a text is the one that is met in its lexemes. -/
theorem parseText_eq_error {symbols : SymbolTable} {dialect : Dialect} {text : String}
    {e : Expectation × Lexeme} (h : readLexemes dialect (scan text) = .error e) :
    ∃ e', (parseText symbols dialect text).1 = .error e' ∧ e'.lexemes = e := by
  rw [← resultLexemes_parseText symbols dialect text] at h
  cases hp : (parseText symbols dialect text).1 with
  | ok u => rw [hp] at h; contradiction
  | error e' =>
    rw [hp] at h
    exact ⟨e', rfl, Except.error.inj h⟩

end ConcreteSyntax
