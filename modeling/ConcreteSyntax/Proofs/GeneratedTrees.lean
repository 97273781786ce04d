import Mathlib.Data.List.Chain
import ConcreteSyntax.Proofs.PrecedenceLayers

/-!
# Trees that the grammar generates

The productions of the grammar without control constructs, as they build trees. They do
not look ahead and do not choose between alternatives by the tokens that follow. Three
conditions keep printed trees readable: a type is left out only in front of an initial
value or in a constraint, a definition without a type has an initial value, and no name
stands directly in front of a parameter with names.
-/

namespace ConcreteSyntax

open TokenParser Grammar

variable {τ : Type} [HasKind τ]

/-- The nonterminals of the grammar without control constructs. -/
inductive Nonterminal where
  /-- An expression that binds at least as tightly as a level. -/
  | expression (level : Nat)
  /-- A group between two delimiters. -/
  | group (opening closing : TokenKind)
  /-- A list of items. -/
  | items
  /-- A parameter or an expression. -/
  | item
  /-- A type or a constraint. -/
  | typing
  /-- What is declared: values behind an introducer, and names without one. -/
  | declarator (introduced : Bool)
  /-- A parameter. -/
  | parameter
  /-- A definition. -/
  | definition
  /-- A block. -/
  | block
  /-- A statement of a block. -/
  | statement
  /-- A file. -/
  | file
  deriving DecidableEq, Repr, Inhabited

/-- Whether a tree is a parameter with names. -/
def Tree.isNamed : Tree τ → Bool
  | .declaration _ declarator _ _ _ => declarator.isSome
  | _ => false

/-- That a tree is generated by a nonterminal of a dialect without control constructs. -/
inductive Generates (rules : Rules) : Nonterminal → Tree τ → Prop
  | looser {m n : Nat} {t : Tree τ} (h : Generates rules (.expression n) t) (hm : m ≤ n) :
    Generates rules (.expression m) t
  | assignment {l r : Tree τ} {o : τ} (ho : kind o = .eq)
    (hl : Generates rules (.expression 1) l) (hr : Generates rules (.expression 0) r) :
    Generates rules (.expression 0) (.infixOp l o r)
  | implication {l r : Tree τ} {o : τ} (ho : rules.implicationOperators.contains (kind o) = true)
    (hl : Generates rules (.expression 2) l) (hr : Generates rules (.expression 1) r) :
    Generates rules (.expression 1) (.infixOp l o r)
  | operation {level : Nat} {l r : Tree τ} {o : τ} (ho : operatorLevel? (kind o) = some level)
    (hn : level < 8) (hl : Generates rules (.expression level) l)
    (hr : Generates rules (.expression (level + 1)) r) :
    Generates rules (.expression level) (.infixOp l o r)
  | prefixOperation {o : τ} {t : Tree τ} (ho : rules.prefixOperators.contains (kind o) = true)
    (h : Generates rules (.expression 8) t) : Generates rules (.expression 8) (.prefixOp o t)
  | constructor {sort : ConstructorSort} {m : τ} {s r : Tree τ}
    (hc : rules.constructors = .keyword) (hm : kind m = sort.word)
    (hs : Generates rules (.group sort.opening sort.closing) s)
    (hr : Generates rules (.expression 8) r) :
    Generates rules (.expression 8) (sort.build (some m) s r)
  | literal {t : τ} (hl : rules.literals.contains (kind t) = true) :
    Generates rules (.expression 9) (.literal t)
  | identifier {t : τ} (hk : kind t = .ident) : Generates rules (.expression 9) (.identifier t)
  | grouped {opening closing : TokenKind} {t : Tree τ} (hd : IsGroupDelimiters opening closing)
    (h : Generates rules (.group opening closing) t) : Generates rules (.expression 9) t
  | call {v a : Tree τ} (hv : Generates rules (.expression 9) v)
    (ha : Generates rules (.group .leftParen .rightParen) a) :
    Generates rules (.expression 9) (.call v a)
  | index {v a : Tree τ} (hv : Generates rules (.expression 9) v)
    (ha : Generates rules (.group .leftBracket .rightBracket) a) :
    Generates rules (.expression 9) (.index v a)
  | member {v : Tree τ} {d n : τ} (hv : Generates rules (.expression 9) v) (hd : kind d = .dot)
    (hn : kind n = .ident) : Generates rules (.expression 9) (.infixOp v d (.identifier n))
  | caret {v : Tree τ} {c : τ} (hv : Generates rules (.expression 9) v) (hc : kind c = .caret)
    (hp : rules.postfixCaret = true) : Generates rules (.expression 9) (.postfixOp v c)
  | emptyGroup {opening closing : TokenKind} {a b : τ} (ha : kind a = opening)
    (hb : kind b = closing) : Generates rules (.group opening closing) (.enclosure a none b)
  | group {opening closing : TokenKind} {a b : τ} {vs : List (Tree τ)} (ha : kind a = opening)
    (hb : kind b = closing) (hne : vs ≠ []) (h : ∀ v ∈ vs, Generates rules .items v) :
    Generates rules (.group opening closing) (.enclosure a (some (.joined vs)) b)
  | items {vs : List (Tree τ)} (hne : vs ≠ []) (h : ∀ v ∈ vs, Generates rules .item v)
    (hn : vs.IsChain fun u v => u.isIdentifier = true → v.isNamed = false) :
    Generates rules .items (.list vs)
  | parameterItem {t : Tree τ} (h : Generates rules .parameter t) : Generates rules .item t
  | expressionItem {t : Tree τ} (h : Generates rules (.expression 0) t) : Generates rules .item t
  | type {t : Tree τ} (h : Generates rules (.expression rules.typeBound) t) :
    Generates rules .typing t
  | constrainedType {m : τ} {t p : Tree τ} (hm : kind m = .isKw)
    (ht : Generates rules (.expression rules.typeBound) t)
    (hp : Generates rules (.expression rules.typeBound) p) :
    Generates rules .typing (.constraint m (some t) p)
  | constraint {m : τ} {p : Tree τ} (hm : kind m = .isKw)
    (hp : Generates rules (.expression rules.typeBound) p) :
    Generates rules .typing (.constraint m none p)
  | values {vs : List (Tree τ)} (hne : vs ≠ []) (h : ∀ v ∈ vs, Generates rules (.expression 9) v) :
    Generates rules (.declarator true) (.joined vs)
  | names {ns : List τ} (hne : ns ≠ []) (hk : ∀ n ∈ ns, kind n = .ident) :
    Generates rules (.declarator false) (.joined (ns.map .identifier))
  | parameter {declarator type value : Option (Tree τ)}
    (hd : ∀ d ∈ declarator, Generates rules (.declarator false) d)
    (ht : ∀ t ∈ type, Generates rules .typing t)
    (hv : ∀ v ∈ value, Generates rules (.expression 0) v) (ho : type = none → value ≠ none) :
    Generates rules .parameter (.declaration none declarator type value none)
  | typedDefinition {i : Option τ} {d type : Tree τ} {s : τ} (hi : ∀ w ∈ i, kind w = .defKw)
    (hd : Generates rules (.declarator i.isSome) d) (ht : Generates rules .typing type)
    (hs : kind s = .semicolon) :
    Generates rules .definition (.declaration i (some d) (some type) none (some s))
  | blockDefinition {i : Option τ} {d type b : Tree τ} (hi : ∀ w ∈ i, kind w = .defKw)
    (hd : Generates rules (.declarator i.isSome) d) (ht : Generates rules .typing type)
    (hb : Generates rules .block b) :
    Generates rules .definition (.declaration i (some d) (some type) (some b) none)
  | valueDefinition {i : Option τ} {d v : Tree τ} {type : Option (Tree τ)} {s : τ}
    (hi : ∀ w ∈ i, kind w = .defKw) (hd : Generates rules (.declarator i.isSome) d)
    (ht : ∀ t ∈ type, Generates rules .typing t) (hv : Generates rules (.expression 0) v)
    (hs : kind s = .semicolon) :
    Generates rules .definition (.declaration i (some d) type (some v) (some s))
  | block {a b : τ} {ss : List (Tree τ)} (ha : kind a = .leftBrace) (hb : kind b = .rightBrace)
    (h : ∀ s ∈ ss, Generates rules .statement s) :
    Generates rules .block (.enclosure a (Tree.sequence? ss) b)
  | definitionStatement {t : Tree τ} (h : Generates rules .definition t) :
    Generates rules .statement t
  | expressionStatement {t : Tree τ} (h : Generates rules (.expression 0) t) :
    Generates rules .statement t
  | file {ds : List (Tree τ)} (h : ∀ d ∈ ds, Generates rules .definition d) :
    Generates rules .file (.file (Tree.sequence? ds))

end ConcreteSyntax
