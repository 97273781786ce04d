import ConcreteSyntax.LexicalScanning
import ConcreteSyntax.Tokens

/-!
# Lexing into tokens

A lexer scans a text and interns the spelling of every token in a symbol table. It
interns the reserved words before anything else and keeps their symbols; a word is
reserved when its symbol is one of these. Tokens can be drawn one at a time or all at
once; after the last one every further draw repeats the end-of-text token.
-/

namespace ConcreteSyntax

/-- A text cursor together with the table that owns the spellings. -/
structure Lexer where
  /-- The text that is still to be lexed. -/
  cursor : TextCursor
  /-- The table that holds the reserved words and all spellings so far. -/
  symbols : SymbolTable
  /-- The kinds of the reserved words, found by their symbols. -/
  keywords : List (Symbol × TokenKind)

namespace Lexer

/-- Interns reserved words, and notes under the symbol of each word what kind it has. -/
def reserve (symbols : SymbolTable) :
    List (String × TokenKind) → List (Symbol × TokenKind) × SymbolTable
  | [] => ([], symbols)
  | (spelling, kind) :: words =>
    let (symbol, symbols) := symbols.intern spelling
    let (others, symbols) := reserve symbols words
    ((symbol, kind) :: others, symbols)

/-- The lexer at the beginning of a text. -/
def ofText (symbols : SymbolTable) (text : String) : Lexer :=
  let reserved := reserve symbols TokenKind.reservedWords
  ⟨TextCursor.ofText text, reserved.2, reserved.1⟩

/-- The token of the next `length` characters and the lexer after it. The kind may
depend on the symbol of these characters. -/
def advance (l : Lexer) (length : Nat) (kindOf : Symbol → TokenKind) : Token × Lexer :=
  let (symbol, symbols) := l.symbols.intern (String.ofList (l.cursor.rest.take length))
  (⟨kindOf symbol, symbol, l.cursor.position, l.cursor.offset⟩,
    { l with cursor := l.cursor.move length, symbols })

/-- The token of a word: a reserved word, or else an identifier. -/
def word (l : Lexer) : Token × Lexer :=
  l.advance (l.cursor.rest.takeWhile isWordPart).length fun symbol =>
    (l.keywords.lookup symbol).getD .ident

/-- The token of a run of digits. -/
def number (l : Lexer) : Token × Lexer :=
  l.advance (l.cursor.rest.takeWhile isDigit).length fun _ => .intNumber

/-- The next token and the lexer after it. -/
def next (l : Lexer) : Token × Lexer :=
  let l := { l with cursor := l.cursor.skipGap }
  match l.cursor.rest with
  | [] => l.advance 0 fun _ => .eof
  | first :: others =>
    if isWordStart first then l.word
    else if isDigit first then l.number
    else
      let (kind, length) := punctuator first (others.headD endChar)
      l.advance length fun _ => kind

/-- The next `count` tokens and the lexer after them. -/
def take : Nat → Lexer → List Token × Lexer
  | 0, l => ([], l)
  | count + 1, l =>
    let (first, l) := l.next
    let (others, l) := take count l
    (first :: others, l)

/-- The tokens up to and with the end of the text, when there are at most `bound`
others, and the table that then holds their spellings. -/
def allWithin : Nat → Lexer → List Token × SymbolTable
  | 0, l => ([l.next.1], l.next.2.symbols)
  | bound + 1, l =>
    let (token, l) := l.next
    if token.isEof then ([token], l.symbols)
    else
      let (others, symbols) := allWithin bound l
      (token :: others, symbols)

/-- All tokens from here on, up to and with the end of the text, and the table
that then holds their spellings. Every token but the last has a character of its
own, which bounds their number. -/
def all (l : Lexer) : List Token × SymbolTable := allWithin l.cursor.rest.length l

end Lexer

/-- All tokens of a text and the table that then holds their spellings. The last
token marks the end of the text. -/
def tokenize (symbols : SymbolTable) (text : String) : List Token × SymbolTable :=
  (Lexer.ofText symbols text).all

end ConcreteSyntax
