import ConcreteSyntax.OperandGrammar

/-!
# Expressions and control constructs

Operators between operands form layers. The operators of six layers associate to
the left; implications and assignments, which bind more loosely, associate to the
right. An expression is an assignment or, in a dialect that has them, a control
construct.
-/

namespace ConcreteSyntax

open TokenParser

namespace Grammar

variable {τ : Type} [HasKind τ] (g : Grammar τ)

/-- An operator of a layer with the operand behind it, if there is one. -/
def operation? (operators : KindSet) (operand : TokenParser τ (Tree τ)) :
    TokenParser τ (Option (τ × Tree τ)) := do
  match ← eatAny operators with
  | none => return none
  | some operator => return some (operator, ← operand)

/-- Operands with operators of one layer between them, associated to the left. -/
def leftAssociative (operators : KindSet) (operand : TokenParser τ (Tree τ)) :
    TokenParser τ (Tree τ) := do
  let first ← operand
  let others ← many (operation? operators operand)
  return others.foldl (fun left (operator, right) => .infixOp left operator right) first

/-- Products, quotients and remainders. -/
def multiplicative : TokenParser τ (Tree τ) :=
  leftAssociative (.ofList [.star, .slash, .percent]) g.operand

/-- Sums and differences. -/
def additive : TokenParser τ (Tree τ) := leftAssociative (.ofList [.plus, .minus]) g.multiplicative

/-- Comparisons by order. -/
def relational : TokenParser τ (Tree τ) :=
  leftAssociative (.ofList [.lt, .gt, .ltEq, .gtEq]) g.additive

/-- Comparisons for equality. -/
def equality : TokenParser τ (Tree τ) := leftAssociative (.ofList [.eq2, .neq]) g.relational

/-- Conjunctions. -/
def conjunction : TokenParser τ (Tree τ) := leftAssociative (.ofList [.andKw]) g.equality

/-- Disjunctions. -/
def disjunction : TokenParser τ (Tree τ) := leftAssociative (.ofList [.orKw]) g.conjunction

/-- Implications, associated to the right. -/
def implication : TokenParser τ (Tree τ) := do
  let left ← g.disjunction
  match ← eatAny g.rules.implicationOperators with
  | some operator => return .infixOp left operator (← g.phrase .implication)
  | none => return left

/-- Assignments, associated to the right. -/
def assignment : TokenParser τ (Tree τ) := do
  let left ← g.implication
  match ← eat .eq with
  | some operator => return .infixOp left operator (← g.phrase .assignment)
  | none => return left

/-- The second part of a choice: a further choice or a block. -/
def alternative : TokenParser τ (Tree τ) := do
  if (← peek) = .ifKw then g.phrase .conditional else g.block

/-- A choice with a condition and a block, and optionally a second block or a
further choice. The second part encloses the first. -/
def conditional : TokenParser τ (Tree τ) := do
  let keyword ← expect .ifKw
  let condition ← g.paren
  let consequence ← g.block
  let choice := .control keyword (some condition) (some consequence)
  match ← eat .elseKw with
  | none => return choice
  | some keyword =>
    let alternative ← g.alternative
    return .control keyword (some choice) (some alternative)

/-- One branch of a case distinction: a pattern and a block. -/
def branch : TokenParser τ (Tree τ) := do
  let pattern ← g.disjunction
  let arrow ← expect .fatArrow
  let body ← g.block
  return .control arrow (some pattern) (some body)

/-- A case distinction with one or more branches. -/
def caseDistinction : TokenParser τ (Tree τ) := do
  let keyword ← expect .caseKw
  let subject ← g.paren
  let branches ← separatedBy .elseKw g.branch
  return .control keyword (some subject) (some (.sequence branches))

/-- A loop with a head in parentheses and a block. -/
def loop (word : TokenKind) : TokenParser τ (Tree τ) := do
  let keyword ← expect word
  let head ← g.paren
  let body ← g.block
  return .control keyword (some head) (some body)

/-- The condition behind a block, if there is one. A condition that is followed by a
block is a loop of its own. -/
def repetition? : TokenParser τ (Option (Tree τ)) := do
  if (← peek) = .whileKw && !startsLoop (← ahead) then
    let keyword ← expect .whileKw
    let condition ← g.paren
    return some (.control keyword (some condition) none)
  else return none

/-- A block that is executed at least once, with an optional condition behind it. -/
def doBlock : TokenParser τ (Tree τ) := do
  let keyword ← expect .doKw
  let body ← g.block
  let condition ← g.repetition?
  return .control keyword (some body) condition

/-- The head of a function value: optional captures in brackets, then parameters. -/
def functionHead : TokenParser τ (Tree τ) := do
  if (← peek) = .leftBracket then
    let captures ← g.bracket
    let parameters ← g.paren
    return .capture captures parameters
  else g.paren

/-- A function value: a head and a block. -/
def functionValue : TokenParser τ (Tree τ) := do
  let keyword ← expect .lambdaKw
  let head ← g.functionHead
  let body ← g.block
  return .control keyword (some head) (some body)

/-- The scope of local bindings: a block or an expression. -/
def scope : TokenParser τ (Tree τ) := do
  if (← peek) = .leftBrace then g.block else g.phrase .expression

/-- Local bindings and their scope. -/
def localBinding : TokenParser τ (Tree τ) := do
  let keyword ← expect .letKw
  let bindings ← g.paren
  let body ← g.scope
  return .control keyword (some bindings) (some body)

/-- The reserved words that begin a control construct. -/
def controlWords : KindSet :=
  .ofList [.ifKw, .caseKw, .forKw, .whileKw, .doKw, .lambdaKw, .letKw]

/-- Whether the tokens begin a control construct of the dialect. -/
def opensControl (rules : Rules) (ts : List τ) : Bool :=
  rules.control && controlWords.contains (kindAt ts 0)

/-- A control construct. -/
def control : TokenParser τ (Tree τ) := do
  match ← peek with
  | .ifKw => g.conditional
  | .caseKw => g.caseDistinction
  | .forKw => g.loop .forKw
  | .whileKw => g.loop .whileKw
  | .doKw => g.doBlock
  | .lambdaKw => g.functionValue
  | .letKw => g.localBinding
  | _ => fail (.construct .controlExpression)

/-- A control construct or an assignment. -/
def expression : TokenParser τ (Tree τ) := do
  if opensControl g.rules (← ahead) then g.control else g.assignment

end Grammar

end ConcreteSyntax
