import ConcreteSyntax.GrammarRecursion

/-!
# Readings of the grammar

A reading tells how a phrase of the grammar takes a result from the front of a list of
tokens. The rules of readings are the productions of the grammar together with the
decisions that the parser makes by looking at the tokens ahead. They do not mention
the parser, its nesting depth or its loops: a loop is a category of its own that
carries the tree built so far.
-/

namespace ConcreteSyntax

open TokenParser Grammar

/-- The phrases of which the grammar makes sequences with separators. -/
inductive Element where
  /-- A name. -/
  | name
  /-- A parameter or an expression. -/
  | item
  /-- A list of items. -/
  | items
  /-- A branch of a case distinction. -/
  | branch
  /-- A value with its suffixes. -/
  | value
  deriving DecidableEq, Repr, Inhabited

/-- The separator between elements of a sequence. -/
def Element.separator : Element → TokenKind
  | name | item | value => .comma
  | items => .semicolon
  | branch => .elseKw

/-- The categories of the grammar. The category of a loop holds what has been read
before. -/
inductive Category (τ : Type) where
  /-- One of the phrases that may be nested in themselves. -/
  | phrase (p : Phrase)
  /-- An element of a sequence. -/
  | element (e : Element)
  /-- One or more elements with separators between them. -/
  | separated (e : Element)
  /-- A type. -/
  | type
  /-- A colon, a type and a constraint, as far as they are written. -/
  | typing
  /-- An initial value behind an equals sign, if there is one. -/
  | initial
  /-- A parameter. -/
  | parameter
  /-- A group between two delimiters. -/
  | enclosed (opening closing : TokenKind)
  /-- The statements of a block. -/
  | statements
  /-- Statements in braces. -/
  | block
  /-- A type constructor. -/
  | constructor
  /-- A literal, a name or a delimited group. -/
  | primary
  /-- The suffixes behind a value. -/
  | suffixes (value : Tree τ)
  /-- Operands with operators of the tightest layers between them. -/
  | layer (level : Nat)
  /-- The operations of a layer behind a left operand. -/
  | operations (level : Nat) (left : Tree τ)
  /-- The second part of a choice. -/
  | alternative
  /-- The head of a function value. -/
  | functionHead
  /-- The scope of local bindings. -/
  | scope
  /-- A control construct. -/
  | control
  /-- What follows the names of a definition. -/
  | defined (introducer : Option τ) (declarator : Tree τ)
  /-- A definition. -/
  | definition
  /-- The declarations of a file. -/
  | declarations

/-- What a category reads: trees, one tree, or perhaps a tree. -/
@[reducible] def Category.Result {τ : Type} : Category τ → Type
  | separated _ | statements | declarations => List (Tree τ)
  | typing | initial => Option (Tree τ)
  | _ => Tree τ

/-- The operators of the left-associative layers, the tightest layer first. -/
def layerOperators : Nat → KindSet
  | 0 => .ofList [.star, .slash, .percent]
  | 1 => .ofList [.plus, .minus]
  | 2 => .ofList [.lt, .gt, .ltEq, .gtEq]
  | 3 => .ofList [.eq2, .neq]
  | 4 => .ofList [.andKw]
  | 5 => .ofList [.orKw]
  | _ => .empty

namespace ConstructorSort

/-- The reserved word in front of a constructor. -/
def word : ConstructorSort → TokenKind
  | array => .arrayKw
  | function => .funcKw
  | template => .templKw

/-- The arrow behind the specifier of a constructor. -/
def arrow : ConstructorSort → TokenKind
  | function => .thinArrow
  | array | template => .fatArrow

/-- The opening delimiter of a specifier. -/
def opening : ConstructorSort → TokenKind
  | function => .leftParen
  | array | template => .leftBracket

/-- The closing delimiter of a specifier. -/
def closing : ConstructorSort → TokenKind
  | function => .rightParen
  | array | template => .rightBracket

end ConstructorSort

variable {τ : Type} [HasKind τ]

/-- Whether the tokens begin a constructor of a dialect. -/
def opensConstructor (rules : Rules) (ts : List τ) : Bool :=
  match rules.constructors with
  | .lookahead => (constructorAhead? rules ts).isSome
  | .keyword => kindAt ts 0 == .arrayKw || kindAt ts 0 == .templKw || kindAt ts 0 == .funcKw
  | .arrow =>
    kindAt ts 0 == .leftBracket || (kindAt ts 0 == .leftParen && bracketFollowedBy .thinArrow ts)
  | .parameter =>
    kindAt ts 0 == .leftBracket || (kindAt ts 0 == .leftParen && opensParameters ts)
  | .absent => false

/-- Whether the tokens begin a constructor that has a specifier without a mark. The
second list is what follows the specifier. -/
def OpensUnmarked (rules : Rules) (sort : ConstructorSort) (ts after : List τ) : Prop :=
  match rules.constructors with
  | .lookahead => constructorAhead? rules ts = some ⟨sort, false⟩
  | .arrow => sort = .array ∧ kindAt ts 0 = .leftBracket ∧ kindAt after 0 ≠ .fatArrow
  | .parameter =>
    sort = .array ∧ kindAt ts 0 = .leftBracket ∨
      sort = .function ∧ kindAt ts 0 = .leftParen ∧ opensParameters ts = true
  | .keyword | .absent => False

/-- Whether the tokens begin a constructor that has an arrow behind its specifier. -/
def OpensMarked (rules : Rules) (sort : ConstructorSort) (ts : List τ) : Prop :=
  match rules.constructors with
  | .lookahead => constructorAhead? rules ts = some ⟨sort, true⟩
  | .arrow =>
    sort = .template ∧ kindAt ts 0 = .leftBracket ∨
      sort = .function ∧ kindAt ts 0 = .leftParen ∧ bracketFollowedBy .thinArrow ts = true
  | .keyword | .parameter | .absent => False

/-- Whether a token of a kind continues a value in front of it. -/
def continuesValue (rules : Rules) (k : TokenKind) : Bool :=
  k == .leftParen || k == .leftBracket || k == .dot || (rules.postfixCaret && k == .caret)

/-- The readings of a dialect: a category reads a result from the front of a list of
tokens and leaves the rest. -/
inductive Reading (rules : Rules) : (c : Category τ) → List τ → c.Result → List τ → Prop
  | name {t : τ} {ts : List τ} (hk : kind t = .ident) :
    Reading rules (.element .name) (t :: ts) (.identifier t) ts
  | last {e : Element} {ts rest : List τ} {t : Tree τ}
    (h : Reading rules (.element e) ts t rest) (hr : kindAt rest 0 ≠ e.separator) :
    Reading rules (.separated e) ts [t] rest
  | more {e : Element} {ts mid rest : List τ} {t : Tree τ} {s : τ} {vs : List (Tree τ)}
    (h : Reading rules (.element e) ts t (s :: mid)) (hs : kind s = e.separator)
    (ho : Reading rules (.separated e) mid vs rest) :
    Reading rules (.separated e) ts (t :: vs) rest
  | operandType {ts rest : List τ} {t : Tree τ} (hl : rules.typeLevel = .operand)
    (h : Reading rules (.phrase .operand) ts t rest) : Reading rules .type ts t rest
  | implicationType {ts rest : List τ} {t : Tree τ} (hl : rules.typeLevel = .implication)
    (h : Reading rules (.phrase .implication) ts t rest) : Reading rules .type ts t rest
  | omittedType {c : τ} {ts : List τ} (hc : kind c = .colon) (hn : kindAt ts 0 = .eq) :
    Reading rules .typing (c :: ts) none ts
  | plainType {c : τ} {ts rest : List τ} {t : Tree τ} (hc : kind c = .colon)
    (ho : typeOmitted.contains (kindAt ts 0) = false) (h : Reading rules .type ts t rest)
    (hr : kindAt rest 0 ≠ .isKw) : Reading rules .typing (c :: ts) (some t) rest
  | constrainedType {c m : τ} {ts mid rest : List τ} {t p : Tree τ} (hc : kind c = .colon)
    (ho : typeOmitted.contains (kindAt ts 0) = false) (h : Reading rules .type ts t (m :: mid))
    (hm : kind m = .isKw) (hp : Reading rules .type mid p rest) :
    Reading rules .typing (c :: ts) (some (.constraint m (some t) p)) rest
  | colonConstraint {c m : τ} {ts rest : List τ} {p : Tree τ} (hc : kind c = .colon)
    (hm : kind m = .isKw) (hp : Reading rules .type ts p rest) :
    Reading rules .typing (c :: m :: ts) (some (.constraint m none p)) rest
  | bareConstraint {m : τ} {ts rest : List τ} {p : Tree τ} (hm : kind m = .isKw)
    (hp : Reading rules .type ts p rest) :
    Reading rules .typing (m :: ts) (some (.constraint m none p)) rest
  | noInitial {ts : List τ} (hn : kindAt ts 0 ≠ .eq) : Reading rules .initial ts none ts
  | initial {e : τ} {ts rest : List τ} {v : Tree τ} (he : kind e = .eq)
    (h : Reading rules (.phrase .expression) ts v rest) :
    Reading rules .initial (e :: ts) (some v) rest
  | unnamedParameter {ts mid rest : List τ} {type value : Option (Tree τ)}
    (hk : kindAt ts 0 = .colon) (ht : Reading rules .typing ts type mid)
    (hv : Reading rules .initial mid value rest) :
    Reading rules .parameter ts (.declaration none none type value none) rest
  | namedParameter {ts mid mid' rest : List τ} {ns : List (Tree τ)} {type value : Option (Tree τ)}
    (hk : kindAt ts 0 ≠ .colon) (hn : Reading rules (.separated .name) ts ns mid)
    (ht : Reading rules .typing mid type mid') (hv : Reading rules .initial mid' value rest) :
    Reading rules .parameter ts (.declaration none (some (.joined ns)) type value none) rest
  | parameterItem {ts rest : List τ} {t : Tree τ} (ho : opensParameter ts = true)
    (h : Reading rules .parameter ts t rest) : Reading rules (.element .item) ts t rest
  | expressionItem {ts rest : List τ} {t : Tree τ} (ho : opensParameter ts = false)
    (h : Reading rules (.phrase .expression) ts t rest) : Reading rules (.element .item) ts t rest
  | items {ts rest : List τ} {vs : List (Tree τ)}
    (h : Reading rules (.separated .item) ts vs rest) :
    Reading rules (.element .items) ts (.list vs) rest
  | emptyEnclosure {opening closing : TokenKind} {a b : τ} {ts : List τ} (ha : kind a = opening)
    (hb : kind b = closing) :
    Reading rules (.enclosed opening closing) (a :: b :: ts) (.enclosure a none b) ts
  | enclosure {opening closing : TokenKind} {a b : τ} {ts rest : List τ} {vs : List (Tree τ)}
    (ha : kind a = opening) (hn : kindAt ts 0 ≠ closing)
    (h : Reading rules (.separated .items) ts vs (b :: rest)) (hb : kind b = closing) :
    Reading rules (.enclosed opening closing) (a :: ts) (.enclosure a (some (.joined vs)) b) rest
  | noStatements {ts : List τ} (hn : kindAt ts 0 = .rightBrace ∨ kindAt ts 0 = .eof) :
    Reading rules .statements ts [] ts
  | statements {ts mid rest : List τ} {s : Tree τ} {ss : List (Tree τ)}
    (hb : kindAt ts 0 ≠ .rightBrace) (he : kindAt ts 0 ≠ .eof)
    (h : Reading rules (.phrase .statement) ts s mid) (ho : Reading rules .statements mid ss rest) :
    Reading rules .statements ts (s :: ss) rest
  | block {a b : τ} {ts rest : List τ} {ss : List (Tree τ)} (ha : kind a = .leftBrace)
    (h : Reading rules .statements ts ss (b :: rest)) (hb : kind b = .rightBrace) :
    Reading rules .block (a :: ts) (.enclosure a (Tree.sequence? ss) b) rest
  | wordConstructor {sort : ConstructorSort} {m : τ} {ts mid rest : List τ} {s r : Tree τ}
    (hc : rules.constructors = .keyword) (hm : kind m = sort.word)
    (hs : Reading rules (.enclosed sort.opening sort.closing) ts s mid)
    (hr : Reading rules (.phrase .operand) mid r rest) :
    Reading rules .constructor (m :: ts) (sort.build (some m) s r) rest
  | unmarkedConstructor {sort : ConstructorSort} {ts mid rest : List τ} {s r : Tree τ}
    (ho : OpensUnmarked rules sort ts mid)
    (hs : Reading rules (.enclosed sort.opening sort.closing) ts s mid)
    (hr : Reading rules (.phrase .operand) mid r rest) :
    Reading rules .constructor ts (sort.build none s r) rest
  | markedConstructor {sort : ConstructorSort} {m : τ} {ts mid rest : List τ} {s r : Tree τ}
    (ho : OpensMarked rules sort ts) (hm : kind m = sort.arrow)
    (hs : Reading rules (.enclosed sort.opening sort.closing) ts s (m :: mid))
    (hr : Reading rules (.phrase .operand) mid r rest) :
    Reading rules .constructor ts (sort.build (some m) s r) rest
  | literal {t : τ} {ts : List τ} (hl : rules.literals.contains (kind t) = true) :
    Reading rules .primary (t :: ts) (.literal t) ts
  | identifier {t : τ} {ts : List τ} (hl : rules.literals.contains (kind t) = false)
    (hk : kind t = .ident) : Reading rules .primary (t :: ts) (.identifier t) ts
  | paren {ts rest : List τ} {t : Tree τ} (hl : rules.literals.contains (kindAt ts 0) = false)
    (h : Reading rules (.enclosed .leftParen .rightParen) ts t rest) :
    Reading rules .primary ts t rest
  | bracket {ts rest : List τ} {t : Tree τ} (hl : rules.literals.contains (kindAt ts 0) = false)
    (h : Reading rules (.enclosed .leftBracket .rightBracket) ts t rest) :
    Reading rules .primary ts t rest
  | suffixesEnd {v : Tree τ} {ts : List τ} (hn : continuesValue rules (kindAt ts 0) = false) :
    Reading rules (.suffixes v) ts v ts
  | call {v a t : Tree τ} {ts mid rest : List τ}
    (ha : Reading rules (.enclosed .leftParen .rightParen) ts a mid)
    (h : Reading rules (.suffixes (.call v a)) mid t rest) : Reading rules (.suffixes v) ts t rest
  | index {v a t : Tree τ} {ts mid rest : List τ}
    (ha : Reading rules (.enclosed .leftBracket .rightBracket) ts a mid)
    (h : Reading rules (.suffixes (.index v a)) mid t rest) : Reading rules (.suffixes v) ts t rest
  | member {v t : Tree τ} {d n : τ} {ts rest : List τ} (hd : kind d = .dot) (hn : kind n = .ident)
    (h : Reading rules (.suffixes (.infixOp v d (.identifier n))) ts t rest) :
    Reading rules (.suffixes v) (d :: n :: ts) t rest
  | caret {v t : Tree τ} {c : τ} {ts rest : List τ} (hc : kind c = .caret)
    (hp : rules.postfixCaret = true) (h : Reading rules (.suffixes (.postfixOp v c)) ts t rest) :
    Reading rules (.suffixes v) (c :: ts) t rest
  | value {v t : Tree τ} {ts mid rest : List τ} (hp : Reading rules .primary ts v mid)
    (hs : Reading rules (.suffixes v) mid t rest) : Reading rules (.element .value) ts t rest
  | prefixOperand {o : τ} {ts rest : List τ} {t : Tree τ}
    (ho : rules.prefixOperators.contains (kind o) = true)
    (h : Reading rules (.phrase .operand) ts t rest) :
    Reading rules (.phrase .operand) (o :: ts) (.prefixOp o t) rest
  | constructorOperand {ts rest : List τ} {t : Tree τ}
    (ho : rules.prefixOperators.contains (kindAt ts 0) = false)
    (h : Reading rules .constructor ts t rest) : Reading rules (.phrase .operand) ts t rest
  | valueOperand {ts rest : List τ} {t : Tree τ}
    (ho : rules.prefixOperators.contains (kindAt ts 0) = false)
    (hc : opensConstructor rules ts = false) (h : Reading rules (.element .value) ts t rest) :
    Reading rules (.phrase .operand) ts t rest
  | layerOperand {ts rest : List τ} {t : Tree τ} (h : Reading rules (.phrase .operand) ts t rest) :
    Reading rules (.layer 0) ts t rest
  | layer {n : Nat} {ts mid rest : List τ} {l t : Tree τ} (hl : Reading rules (.layer n) ts l mid)
    (h : Reading rules (.operations n l) mid t rest) : Reading rules (.layer (n + 1)) ts t rest
  | operationsEnd {n : Nat} {l : Tree τ} {ts : List τ}
    (hn : (layerOperators n).contains (kindAt ts 0) = false) :
    Reading rules (.operations n l) ts l ts
  | operation {n : Nat} {l r t : Tree τ} {o : τ} {ts mid rest : List τ}
    (ho : (layerOperators n).contains (kind o) = true) (hr : Reading rules (.layer n) ts r mid)
    (h : Reading rules (.operations n (.infixOp l o r)) mid t rest) :
    Reading rules (.operations n l) (o :: ts) t rest
  | implicationEnd {ts rest : List τ} {l : Tree τ} (hl : Reading rules (.layer 6) ts l rest)
    (hn : rules.implicationOperators.contains (kindAt rest 0) = false) :
    Reading rules (.phrase .implication) ts l rest
  | implication {ts mid rest : List τ} {l r : Tree τ} {o : τ}
    (hl : Reading rules (.layer 6) ts l (o :: mid))
    (ho : rules.implicationOperators.contains (kind o) = true)
    (hr : Reading rules (.phrase .implication) mid r rest) :
    Reading rules (.phrase .implication) ts (.infixOp l o r) rest
  | assignmentEnd {ts rest : List τ} {l : Tree τ}
    (hl : Reading rules (.phrase .implication) ts l rest) (hn : kindAt rest 0 ≠ .eq) :
    Reading rules (.phrase .assignment) ts l rest
  | assignment {ts mid rest : List τ} {l r : Tree τ} {o : τ}
    (hl : Reading rules (.phrase .implication) ts l (o :: mid)) (ho : kind o = .eq)
    (hr : Reading rules (.phrase .assignment) mid r rest) :
    Reading rules (.phrase .assignment) ts (.infixOp l o r) rest
  | conditional {k : τ} {ts mid rest : List τ} {c b : Tree τ} (hk : kind k = .ifKw)
    (hc : Reading rules (.enclosed .leftParen .rightParen) ts c mid)
    (hb : Reading rules .block mid b rest) (hn : kindAt rest 0 ≠ .elseKw) :
    Reading rules (.phrase .conditional) (k :: ts) (.control k (some c) (some b)) rest
  | choice {k e : τ} {ts mid mid' rest : List τ} {c b a : Tree τ} (hk : kind k = .ifKw)
    (hc : Reading rules (.enclosed .leftParen .rightParen) ts c mid)
    (hb : Reading rules .block mid b (e :: mid')) (he : kind e = .elseKw)
    (ha : Reading rules .alternative mid' a rest) :
    Reading rules (.phrase .conditional) (k :: ts)
      (.control e (some (.control k (some c) (some b))) (some a)) rest
  | furtherChoice {ts rest : List τ} {t : Tree τ} (hk : kindAt ts 0 = .ifKw)
    (h : Reading rules (.phrase .conditional) ts t rest) : Reading rules .alternative ts t rest
  | lastChoice {ts rest : List τ} {t : Tree τ} (hk : kindAt ts 0 ≠ .ifKw)
    (h : Reading rules .block ts t rest) : Reading rules .alternative ts t rest
  | branch {a : τ} {ts mid rest : List τ} {p b : Tree τ}
    (hp : Reading rules (.layer 6) ts p (a :: mid)) (ha : kind a = .fatArrow)
    (hb : Reading rules .block mid b rest) :
    Reading rules (.element .branch) ts (.control a (some p) (some b)) rest
  | conditionalControl {ts rest : List τ} {t : Tree τ} (hk : kindAt ts 0 = .ifKw)
    (h : Reading rules (.phrase .conditional) ts t rest) : Reading rules .control ts t rest
  | caseDistinction {k : τ} {ts mid rest : List τ} {s : Tree τ} {bs : List (Tree τ)}
    (hk : kind k = .caseKw) (hs : Reading rules (.enclosed .leftParen .rightParen) ts s mid)
    (hb : Reading rules (.separated .branch) mid bs rest) :
    Reading rules .control (k :: ts) (.control k (some s) (some (.sequence bs))) rest
  | loop {k : τ} {ts mid rest : List τ} {c b : Tree τ} (hk : kind k = .forKw ∨ kind k = .whileKw)
    (hc : Reading rules (.enclosed .leftParen .rightParen) ts c mid)
    (hb : Reading rules .block mid b rest) :
    Reading rules .control (k :: ts) (.control k (some c) (some b)) rest
  | doBlock {k : τ} {ts rest : List τ} {b : Tree τ} (hk : kind k = .doKw)
    (hb : Reading rules .block ts b rest)
    (hn : kindAt rest 0 = .whileKw → startsLoop rest = true) :
    Reading rules .control (k :: ts) (.control k (some b) none) rest
  | doWhile {k w : τ} {ts mid rest : List τ} {b c : Tree τ} (hk : kind k = .doKw)
    (hb : Reading rules .block ts b (w :: mid)) (hw : kind w = .whileKw)
    (hl : startsLoop (w :: mid) = false)
    (hc : Reading rules (.enclosed .leftParen .rightParen) mid c rest) :
    Reading rules .control (k :: ts) (.control k (some b) (some (.control w (some c) none))) rest
  | captures {ts mid rest : List τ} {c p : Tree τ} (hk : kindAt ts 0 = .leftBracket)
    (hc : Reading rules (.enclosed .leftBracket .rightBracket) ts c mid)
    (hp : Reading rules (.enclosed .leftParen .rightParen) mid p rest) :
    Reading rules .functionHead ts (.capture c p) rest
  | noCaptures {ts rest : List τ} {p : Tree τ} (hk : kindAt ts 0 ≠ .leftBracket)
    (hp : Reading rules (.enclosed .leftParen .rightParen) ts p rest) :
    Reading rules .functionHead ts p rest
  | functionValue {k : τ} {ts mid rest : List τ} {f b : Tree τ} (hk : kind k = .lambdaKw)
    (hf : Reading rules .functionHead ts f mid) (hb : Reading rules .block mid b rest) :
    Reading rules .control (k :: ts) (.control k (some f) (some b)) rest
  | blockScope {ts rest : List τ} {b : Tree τ} (hk : kindAt ts 0 = .leftBrace)
    (h : Reading rules .block ts b rest) : Reading rules .scope ts b rest
  | expressionScope {ts rest : List τ} {v : Tree τ} (hk : kindAt ts 0 ≠ .leftBrace)
    (h : Reading rules (.phrase .expression) ts v rest) : Reading rules .scope ts v rest
  | localBinding {k : τ} {ts mid rest : List τ} {p s : Tree τ} (hk : kind k = .letKw)
    (hp : Reading rules (.enclosed .leftParen .rightParen) ts p mid)
    (hs : Reading rules .scope mid s rest) :
    Reading rules .control (k :: ts) (.control k (some p) (some s)) rest
  | controlExpression {ts rest : List τ} {t : Tree τ} (ho : opensControl rules ts = true)
    (h : Reading rules .control ts t rest) : Reading rules (.phrase .expression) ts t rest
  | assignmentExpression {ts rest : List τ} {t : Tree τ} (ho : opensControl rules ts = false)
    (h : Reading rules (.phrase .assignment) ts t rest) :
    Reading rules (.phrase .expression) ts t rest
  | typedOnly {i : Option τ} {d type : Tree τ} {s : τ} {ts rest : List τ}
    (ht : Reading rules .typing ts (some type) (s :: rest)) (hs : kind s = .semicolon) :
    Reading rules (.defined i d) ts (.declaration i (some d) (some type) none (some s)) rest
  | definedBlock {i : Option τ} {d b : Tree τ} {type : Option (Tree τ)} {ts mid rest : List τ}
    (ht : Reading rules .typing ts type mid) (hb : Reading rules .block mid b rest) :
    Reading rules (.defined i d) ts (.declaration i (some d) type (some b) none) rest
  | definedValue {i : Option τ} {d v : Tree τ} {type : Option (Tree τ)} {e s : τ}
    {ts mid rest : List τ} (ht : Reading rules .typing ts type (e :: mid)) (he : kind e = .eq)
    (hv : Reading rules (.phrase .expression) mid v (s :: rest)) (hs : kind s = .semicolon) :
    Reading rules (.defined i d) ts (.declaration i (some d) type (some v) (some s)) rest
  | introduced {i : τ} {ts mid rest : List τ} {ds : List (Tree τ)} {t : Tree τ}
    (hi : kind i = .defKw) (hd : Reading rules (.separated .value) ts ds mid)
    (h : Reading rules (.defined (some i) (.joined ds)) mid t rest) :
    Reading rules .definition (i :: ts) t rest
  | unintroduced {ts mid rest : List τ} {ds : List (Tree τ)} {t : Tree τ}
    (hi : kindAt ts 0 ≠ .defKw) (hd : Reading rules (.separated .name) ts ds mid)
    (h : Reading rules (.defined none (.joined ds)) mid t rest) :
    Reading rules .definition ts t rest
  | definitionStatement {ts rest : List τ} {t : Tree τ} (ho : opensDeclaration ts = true)
    (h : Reading rules .definition ts t rest) : Reading rules (.phrase .statement) ts t rest
  | controlStatement {ts rest : List τ} {t : Tree τ} (hd : opensDeclaration ts = false)
    (ho : opensControl rules ts = true) (h : Reading rules .control ts t rest)
    (hr : kindAt rest 0 ≠ .semicolon) : Reading rules (.phrase .statement) ts t rest
  | terminatedControl {s : τ} {ts rest : List τ} {t : Tree τ} (hd : opensDeclaration ts = false)
    (ho : opensControl rules ts = true) (h : Reading rules .control ts t (s :: rest))
    (hs : kind s = .semicolon) : Reading rules (.phrase .statement) ts t rest
  | expressionStatement {s : τ} {ts rest : List τ} {t : Tree τ} (hd : opensDeclaration ts = false)
    (ho : opensControl rules ts = false) (h : Reading rules (.phrase .expression) ts t (s :: rest))
    (hs : kind s = .semicolon) : Reading rules (.phrase .statement) ts t rest
  | noDeclarations {ts : List τ} (hn : kindAt ts 0 = .eof) : Reading rules .declarations ts [] ts
  | declarations {ts mid rest : List τ} {d : Tree τ} {ds : List (Tree τ)}
    (ho : opensDeclaration ts = true) (h : Reading rules .definition ts d mid)
    (hs : Reading rules .declarations mid ds rest) :
    Reading rules .declarations ts (d :: ds) rest

end ConcreteSyntax
