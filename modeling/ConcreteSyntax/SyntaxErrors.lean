import ConcreteSyntax.DeclarationGrammar
import ConcreteSyntax.Diagnostics
import ConcreteSyntax.TreeSpans

/-!
# Syntax errors

A syntax error tells what was expected and which token was found instead. It is
anchored at that token.
-/

namespace ConcreteSyntax

/-- Why the tokens of a file were not accepted. -/
structure SyntaxError where
  /-- What was looked for. -/
  expected : Expectation
  /-- The first token that does not fit. -/
  found : Token
  deriving Repr, Inhabited

namespace SyntaxError

/-- Where the error is. -/
def position (e : SyntaxError) : Position := e.found.start

/-- What was expected and what was found. -/
def summary (e : SyntaxError) : String :=
  "expected '" ++ e.expected.name ++ "' but got '" ++ e.found.toText ++ "'"

/-- The message with the place in front. -/
def message (e : SyntaxError) : String := e.position.toText ++ ": " ++ e.summary

/-- The diagnostic that marks the token that was found. -/
def diagnostic (e : SyntaxError) : Diagnostic :=
  .error e.summary e.found.offset e.found.stopOffset

end SyntaxError

end ConcreteSyntax
