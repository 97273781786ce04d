import ConcreteSyntax.ExpressionGrammar

/-!
# Declarations, statements and files

A file is a sequence of declarations. The grammar of all phrases is closed by
nesting: each level of nesting gives the phrases of a level to the next one. Since
a phrase refers to itself only after reading a token, one level more than there
are tokens is enough for every text.
-/

namespace ConcreteSyntax

open TokenParser

namespace Grammar

variable {τ : Type} [HasKind τ]

section

variable (g : Grammar τ)

/-- What is declared: one or more values behind the introducing word, and one or more
names without it. -/
def declarators (introduced : Bool) : TokenParser τ (Tree τ) :=
  if introduced then return .joined (← separatedBy .comma g.suffixed) else identifiers

/-- The semicolon that ends a definition with a type and without a value, if there is
one. -/
def terminator? (typed : Bool) : TokenParser τ (Option τ) :=
  if typed then eat .semicolon else pure none

/-- What is defined and how the definition ends: a block, or a value behind an equals
sign and a semicolon. -/
def definiens : TokenParser τ (Tree τ × Option τ) := do
  if (← peek) = .leftBrace then return (← g.block, none)
  else
    let _ ← expect .eq
    let value ← g.phrase .expression
    let terminator ← expect .semicolon
    return (value, some terminator)

/-- A definition: what is declared, its type, and a terminator, a block or an
initial value. A type is needed where there is no value. -/
def definition : TokenParser τ (Tree τ) := do
  let introducer ← eat .defKw
  let declarator ← g.declarators introducer.isSome
  let type ← g.typing
  match ← terminator? type.isSome with
  | some terminator => return .declaration introducer (some declarator) type none (some terminator)
  | none =>
    let (value, terminator) ← g.definiens
    return .declaration introducer (some declarator) type (some value) terminator

/-- A declaration of a file. -/
def declaration : TokenParser τ (Tree τ) := do
  if opensDeclaration (← ahead) then g.definition else fail (.construct .declaration)

/-- A statement of a block. A control construct needs no terminator. -/
def statement : TokenParser τ (Tree τ) := do
  let ts ← ahead
  if opensDeclaration ts then g.definition
  else if opensControl g.rules ts then
    let construct ← g.control
    let _ ← eat .semicolon
    return construct
  else
    let value ← g.expression
    let _ ← expect .semicolon
    return value

/-- The parser of a phrase, in terms of the phrases inside it. -/
def body : Phrase → TokenParser τ (Tree τ)
  | .operand => g.operand
  | .implication => g.implication
  | .assignment => g.assignment
  | .expression => g.expression
  | .statement => g.statement
  | .conditional => g.conditional

end

/-- The phrases that are nested in themselves fewer than `depth` times. -/
def nested (rules : Rules) : Nat → Phrase → TokenParser τ (Tree τ)
  | 0, _ => fail (.construct .primaryExpression)
  | depth + 1, phrase => body ⟨rules, nested rules depth⟩ phrase

/-- The grammar of a dialect. The tokens ahead bound the depth of nesting. -/
def ofRules (rules : Rules) : Grammar τ where
  rules := rules
  phrase phrase := fun ts => nested rules (ts.length + 1) phrase ts

/-- A whole file: declarations up to the end of the text. -/
def file (g : Grammar τ) : TokenParser τ (Tree τ) := do
  let declarations ← many (unlessNext .eof g.declaration)
  return .file (Tree.sequence? declarations)

end Grammar

/-- Reads a whole file in a dialect. -/
def parseTokens {τ : Type} [HasKind τ] (dialect : Dialect) (ts : List τ) : Outcome τ (Tree τ) :=
  (Grammar.ofRules dialect.rules).file ts

end ConcreteSyntax
