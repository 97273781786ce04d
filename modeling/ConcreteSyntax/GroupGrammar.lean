import ConcreteSyntax.BracketMatching
import ConcreteSyntax.Dialects
import ConcreteSyntax.SyntaxTrees

/-!
# Groups, parameters and blocks

The parts of the grammar that stand between delimiters. A grammar consists of the
rules of a dialect and of parsers for the phrases that may occur again inside
themselves. These phrases are only called after a token has been read, so nesting
them is bounded by the number of tokens.
-/

namespace ConcreteSyntax

open TokenParser

/-- The phrases at which the grammar refers to itself. -/
inductive Phrase where
  /-- An operand of an operator: a prefix operation, a constructor or a value. -/
  | operand
  /-- A right-associative chain of implications. -/
  | implication
  /-- A right-associative chain of assignments. -/
  | assignment
  /-- An assignment or a control construct. -/
  | expression
  /-- A statement of a block. -/
  | statement
  /-- A choice between two blocks. -/
  | conditional
  deriving DecidableEq, Repr, Inhabited

/-- The rules of a dialect together with parsers for the nested phrases. -/
structure Grammar (τ : Type) where
  /-- The rules of the dialect. -/
  rules : Rules
  /-- The parsers of the phrases that a phrase may contain. -/
  phrase : Phrase → TokenParser τ (Tree τ)

/-- Several trees as a list node; a single tree stands for itself. -/
def Tree.joined {τ : Type} : List (Tree τ) → Tree τ
  | [t] => t
  | ts => .list ts

/-- Trees as a sequence node, which is absent when there are none. -/
def Tree.sequence? {τ : Type} : List (Tree τ) → Option (Tree τ)
  | [] => none
  | ts => some (.sequence ts)

namespace Grammar

variable {τ : Type} [HasKind τ]

/-- A name. -/
def identifier : TokenParser τ (Tree τ) := return .identifier (← expect .ident)

/-- One or more names with commas between them. -/
def identifiers : TokenParser τ (Tree τ) := return .joined (← separatedBy .comma identifier)

variable (g : Grammar τ)

/-- A type, at the level at which the dialect reads types. -/
def type : TokenParser τ (Tree τ) :=
  match g.rules.typeLevel with
  | .operand => g.phrase .operand
  | .implication => g.phrase .implication

/-- The kinds that, after a colon, show that the type is left out. -/
def typeOmitted : KindSet := .ofList [.eq, .isKw]

/-- The type behind a colon, unless it is left out. -/
def plainType? : TokenParser τ (Option (Tree τ)) := do
  if typeOmitted.contains (← peek) then return none else return some (← g.type)

/-- A colon with an optional type and an optional constraint, or a constraint
alone. The constraint encloses the type. -/
def typing : TokenParser τ (Option (Tree τ)) := do
  match ← eat .colon with
  | some _ =>
    let type ← g.plainType?
    match ← eat .isKw with
    | some mark => return some (.constraint mark type (← g.type))
    | none => return type
  | none =>
    match ← eat .isKw with
    | some mark => return some (.constraint mark none (← g.type))
    | none => fail (.token .colon)

/-- A parameter: optional names, their type, and an optional initial value. -/
def parameter : TokenParser τ (Tree τ) := do
  let names ← unlessNext .colon identifiers
  let type ← g.typing
  let value ← behind .eq (g.phrase .expression)
  return .declaration none names type value none

/-- An item of a list: a parameter or an expression. -/
def item : TokenParser τ (Tree τ) := do
  if opensParameter (← ahead) then g.parameter else g.phrase .expression

/-- One or more items with commas between them. Even a single item makes a list. -/
def items : TokenParser τ (Tree τ) := return .list (← separatedBy .comma g.item)

/-- One or more lists with semicolons between them. A single list stands for
itself. -/
def group : TokenParser τ (Tree τ) := return .joined (← separatedBy .semicolon g.items)

/-- An opening and a closing delimiter with an optional group between them. -/
def enclosed (opening closing : TokenKind) : TokenParser τ (Tree τ) := do
  let first ← expect opening
  let term ← unlessNext closing g.group
  let last ← expect closing
  return .enclosure first term last

/-- A group in parentheses. -/
def paren : TokenParser τ (Tree τ) := g.enclosed .leftParen .rightParen

/-- A group in brackets. -/
def bracket : TokenParser τ (Tree τ) := g.enclosed .leftBracket .rightBracket

/-- A statement, unless the block or the text ends here. -/
def statement? : TokenParser τ (Option (Tree τ)) := do
  match ← peek with
  | .rightBrace | .eof => return none
  | _ => return some (← g.phrase .statement)

/-- Statements in braces. -/
def block : TokenParser τ (Tree τ) := do
  let first ← expect .leftBrace
  let statements ← many g.statement?
  let last ← expect .rightBrace
  return .enclosure first (Tree.sequence? statements) last

end Grammar

end ConcreteSyntax
