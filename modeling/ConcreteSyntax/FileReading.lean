import ConcreteSyntax.Lexing
import ConcreteSyntax.SyntaxErrors

/-!
# Reading a file

A reader holds the tokens of one text and the index of the next one. Reading a file
from there gives a tree or the first syntax error, and moves the reader forward by
the tokens that were read. After a success the reader is at the end of the text; after
an error it stays at the token that did not fit, and the next reading starts there.
-/

namespace ConcreteSyntax

/-- The tokens of a text and a place among them. -/
structure FileReader where
  /-- The whole text. -/
  text : String
  /-- The dialect of the text. -/
  dialect : Dialect
  /-- The tokens of the text. The last one marks its end. -/
  tokens : List Token
  /-- The index of the next token. -/
  index : Nat

namespace FileReader

/-- The reader at the first of a list of tokens. -/
def ofTokens (text : String) (dialect : Dialect) (tokens : List Token) : FileReader :=
  ⟨text, dialect, tokens, 0⟩

/-- The reader at the beginning of a text, and the table that holds the spellings
of its tokens. -/
def ofText (symbols : SymbolTable) (dialect : Dialect) (text : String) :
    FileReader × SymbolTable :=
  let (tokens, symbols) := tokenize symbols text
  (ofTokens text dialect tokens, symbols)

/-- The token that marks the end of the text. -/
def finish (r : FileReader) : Token := r.tokens.getLastD default

/-- The tokens ahead, without the one that marks the end of the text. -/
def ahead (r : FileReader) : List Token := r.tokens.dropLast.drop r.index

/-- The reader behind a number of further tokens. -/
def advance (r : FileReader) (count : Nat) : FileReader := { r with index := r.index + count }

/-- Reads a file from the present place. A failure at the end of the text has found the
token that marks it. -/
def read (r : FileReader) : Except SyntaxError (Tree Token) × FileReader :=
  match parseTokens r.dialect r.ahead with
  | .done tree rest => (.ok tree, r.advance (r.ahead.length - rest.length))
  | .failed failure rest =>
    (.error ⟨failure.expected, failure.found.getD r.finish⟩,
      r.advance (r.ahead.length - rest.length))

/-- Reads a number of times, each time from where the last reading stopped. -/
def readTimes : Nat → FileReader → List (Except SyntaxError (Tree Token)) × FileReader
  | 0, r => ([], r)
  | count + 1, r =>
    let (first, r) := r.read
    let (others, r) := readTimes count r
    (first :: others, r)

end FileReader

/-- Reads a text as a file of a dialect. -/
def parseText (symbols : SymbolTable) (dialect : Dialect) (text : String) :
    Except SyntaxError (Tree Token) × SymbolTable :=
  let (reader, symbols) := FileReader.ofText symbols dialect text
  (reader.read.1, symbols)

end ConcreteSyntax
