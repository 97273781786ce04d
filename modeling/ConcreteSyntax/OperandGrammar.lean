import ConcreteSyntax.GroupGrammar

/-!
# Operands and type constructors

An operand is a prefix operation, a type constructor or a value with suffixes.
Values and constructors may begin alike, with a parenthesis or a bracket, and each
dialect has its own way of telling them apart.
-/

namespace ConcreteSyntax

open TokenParser

/-- What may follow a value and belongs to it. -/
inductive Suffix (τ : Type) where
  /-- Arguments in parentheses. -/
  | call (arguments : Tree τ)
  /-- Arguments in brackets. -/
  | index (arguments : Tree τ)
  /-- A dot and the name of a member. -/
  | member (dot : τ) (name : Tree τ)
  /-- An operator behind its operand. -/
  | operator (token : τ)
  deriving Repr, Inhabited

/-- The value that a suffix makes of the value before it. -/
def Suffix.attach {τ : Type} (value : Tree τ) : Suffix τ → Tree τ
  | call arguments => .call value arguments
  | index arguments => .index value arguments
  | member dot name => .infixOp value dot name
  | operator token => .postfixOp value token

/-- The three sorts of type constructors. -/
inductive ConstructorSort where
  | array
  | function
  | template
  deriving DecidableEq, Repr, Inhabited

/-- The node of a constructor. -/
def ConstructorSort.build {τ : Type} (sort : ConstructorSort) (mark : Option τ)
    (specifier result : Tree τ) : Tree τ :=
  match sort with
  | array => .array mark specifier result
  | function => .function mark specifier result
  | template => .template mark specifier result

/-- A constructor that has been recognised by the tokens ahead. -/
structure ConstructorForm where
  /-- What is constructed. -/
  sort : ConstructorSort
  /-- Whether an arrow stands between the specifier and the result. -/
  marked : Bool
  deriving DecidableEq, Repr, Inhabited

namespace Grammar

variable {τ : Type} [HasKind τ]

/-- The constructor that a parenthesis or a bracket begins, judged by what is inside the
delimiters and by what follows the matching closer. A parenthesis has to be empty or to
begin with a parameter. The result has to begin with a token that can begin an operand,
unless an arrow announces it. -/
def constructorAhead? (rules : Rules) (ts : List τ) : Option ConstructorForm :=
  if h : kindAt ts 0 = .leftParen ∨ kindAt ts 0 = .leftBracket then
    match findCloser ts 0 (opens_of_eq h) with
    | none => none
    | some close =>
      let follower := kindAt ts (close + 1)
      let resultFollows := rules.operandStart.contains follower
      let parameters := opensParameter (ts.drop 1)
      match kindAt ts 0 with
      | .leftParen =>
        if close == 1 || parameters then
          if follower = .thinArrow then some ⟨.function, true⟩
          else if resultFollows then some ⟨.function, false⟩
          else none
        else none
      | .leftBracket =>
        if follower = .fatArrow && rules.operandStart.contains (kindAt ts (close + 2)) then
          some ⟨.template, true⟩
        else if resultFollows then
          some ⟨if parameters then .template else .array, false⟩
        else none
      | _ => none
  else none

variable (g : Grammar τ)

/-- The specifier of a constructor: parameters of a function, and otherwise a group
in brackets. -/
def specifier : ConstructorSort → TokenParser τ (Tree τ)
  | .function => g.paren
  | .array | .template => g.bracket

/-- The next token as the mark of a constructor, where the constructor has one. -/
def mark? (marked : Bool) : TokenParser τ (Option τ) := if marked then next? else pure none

/-- A constructor that is recognised by looking past its closing delimiter. -/
def lookaheadConstructor : TokenParser τ (Option (Tree τ)) := do
  match constructorAhead? g.rules (← ahead) with
  | none => return none
  | some form =>
    let specifier ← g.specifier form.sort
    let mark ← mark? form.marked
    let result ← g.phrase .operand
    return some (form.sort.build mark specifier result)

/-- A constructor behind its reserved word. -/
def introducedConstructor (word : TokenKind) (sort : ConstructorSort) :
    TokenParser τ (Option (Tree τ)) := do
  let mark ← expect word
  let specifier ← g.specifier sort
  let result ← g.phrase .operand
  return some (sort.build (some mark) specifier result)

/-- A constructor that is recognised by a reserved word in front. -/
def keywordConstructor : TokenParser τ (Option (Tree τ)) := do
  match ← peek with
  | .arrayKw => g.introducedConstructor .arrayKw .array
  | .templKw => g.introducedConstructor .templKw .template
  | .funcKw => g.introducedConstructor .funcKw .function
  | _ => return none

/-- A constructor that is recognised by its bracket, or by an arrow behind its
parenthesis. An arrow behind a bracket makes it a template. -/
def arrowConstructor : TokenParser τ (Option (Tree τ)) := do
  match ← peekAhead with
  | ⟨.leftBracket, _⟩ =>
    let specifier ← g.bracket
    let mark ← eat .fatArrow
    let result ← g.phrase .operand
    return some (if mark.isSome then .template mark specifier result
      else .array none specifier result)
  | ⟨.leftParen, ts, h⟩ =>
    if closerFollowedBy .thinArrow ts 0 (opens_of_eq (.inl h)) then
      let parameters ← g.paren
      let mark ← expect .thinArrow
      return some (.function (some mark) parameters (← g.phrase .operand))
    else return none
  | _ => return none

/-- A constructor that is recognised by its bracket, or by the parameters in its
parenthesis. -/
def parameterConstructor : TokenParser τ (Option (Tree τ)) := do
  match ← peek with
  | .leftBracket =>
    let bound ← g.bracket
    return some (.array none bound (← g.phrase .operand))
  | .leftParen =>
    if opensParameters (← ahead) then
      let parameters ← g.paren
      return some (.function none parameters (← g.phrase .operand))
    else return none
  | _ => return none

/-- A type constructor, if one begins here in the style of the dialect. -/
def constructor? : TokenParser τ (Option (Tree τ)) :=
  match g.rules.constructors with
  | .lookahead => g.lookaheadConstructor
  | .keyword => g.keywordConstructor
  | .arrow => g.arrowConstructor
  | .parameter => g.parameterConstructor
  | .absent => pure none

/-- A literal, a name or a delimited group. -/
def primary : TokenParser τ (Tree τ) := do
  match ← eatAny g.rules.literals with
  | some token => return .literal token
  | none =>
    match ← eat .ident with
    | some token => return .identifier token
    | none =>
      match ← peek with
      | .leftParen => g.paren
      | .leftBracket => g.bracket
      | _ => fail (.construct .primaryExpression)

/-- A suffix, if one follows. -/
def suffix? : TokenParser τ (Option (Suffix τ)) := do
  match ← peek with
  | .leftParen => return some (.call (← g.paren))
  | .leftBracket => return some (.index (← g.bracket))
  | _ =>
    match ← eat .dot with
    | some dot => return some (.member dot (← identifier))
    | none =>
      if g.rules.postfixCaret then return (← eat .caret).map Suffix.operator else return none

/-- A value with all its suffixes. -/
def suffixed : TokenParser τ (Tree τ) := do
  let value ← g.primary
  let suffixes ← many g.suffix?
  return suffixes.foldl Suffix.attach value

/-- An operand of an operator. -/
def operand : TokenParser τ (Tree τ) := do
  match ← eatAny g.rules.prefixOperators with
  | some operator => return .prefixOp operator (← g.phrase .operand)
  | none =>
    match ← g.constructor? with
    | some constructor => return constructor
    | none => g.suffixed

end Grammar

end ConcreteSyntax
