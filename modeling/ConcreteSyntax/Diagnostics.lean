/-!
# Diagnostics

A diagnostic is a message about a range of bytes of a text, with a label for the
place below the range.
-/

namespace ConcreteSyntax

/-- A message about a range of bytes of a text. -/
structure Diagnostic where
  /-- What is wrong. -/
  message : String
  /-- The text below the marked range. -/
  label : String
  /-- The number of bytes before the range. -/
  start : Nat
  /-- The number of bytes before its end. -/
  stop : Nat
  deriving DecidableEq, Repr, Inhabited

namespace Diagnostic

/-- An error with the usual label. -/
def error (message : String) (start stop : Nat) : Diagnostic := ⟨message, "here", start, stop⟩

/-- The same diagnostic with another label. -/
def withLabel (d : Diagnostic) (label : String) : Diagnostic := { d with label }

/-- The range of a diagnostic, clamped to a text of a given size. -/
def clamped (d : Diagnostic) (size : Nat) : Nat × Nat :=
  let start := min d.start size
  (start, max start (min d.stop size))

end Diagnostic

end ConcreteSyntax
