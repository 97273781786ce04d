import ConcreteSyntax.SourcePositions
import ConcreteSyntax.SymbolTables
import ConcreteSyntax.TokenKinds

/-!
# Tokens

A token is a kind, an interned spelling and the place where the spelling starts.
A column is one character wide, but a token ends as many columns after its start
as its spelling has bytes, so both measures agree on ASCII spellings only. Offsets
and columns have no upper bound here; what the length of the text says about them is
`bounds_of_mem_tokenize`.
-/

namespace ConcreteSyntax

/-- Things that are classified by a token kind. -/
class HasKind (τ : Type) where
  /-- The kind of a thing. -/
  kind : τ → TokenKind

export HasKind (kind)

instance : HasKind TokenKind := ⟨id⟩

/-- A unit of the source text. -/
structure Token where
  /-- What sort of unit it is. -/
  kind : TokenKind
  /-- The interned spelling; it is empty at the end of the text. -/
  symbol : Symbol
  /-- The position of the first character. -/
  start : Position
  /-- The number of bytes before the first character. -/
  offset : Nat
  deriving BEq, Repr, Inhabited

namespace Token

instance : HasKind Token := ⟨Token.kind⟩

/-- The characters of the token. -/
def spelling (t : Token) : String := t.symbol.text

/-- Whether the token marks the end of the text. -/
def isEof (t : Token) : Bool := t.kind == .eof

/-- The column just after the token, measured in bytes from its start. -/
def stop (t : Token) : Position := t.start.advance t.symbol.size

/-- The span from the start of the token to its end. -/
def span (t : Token) : Span := ⟨t.start, t.stop⟩

/-- The number of bytes before the end of the token. -/
def stopOffset (t : Token) : Nat := t.offset + t.symbol.size

/-- The spelling as messages show it; the end of the text has a description. -/
def toText (t : Token) : String := if t.isEof then TokenKind.eof.name else t.spelling

end Token

end ConcreteSyntax
