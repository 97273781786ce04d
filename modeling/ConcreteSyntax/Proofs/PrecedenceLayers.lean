import ConcreteSyntax.Proofs.FileReadings

/-!
# Layers of precedence in trees

Expressions have levels: the tighter a node binds, the higher is its level. In a
layered tree an operand of an operator has at least the level of the operator, and a
higher level on the side to which the operator does not associate. Groups, blocks and
the parts of declarations have their own shapes. The trees of accepted texts are
layered throughout.
-/

namespace ConcreteSyntax

open TokenParser Grammar

variable {τ : Type} [HasKind τ]

/-- The level of a left-associative operator or of the dot of members. -/
def operatorLevel? : TokenKind → Option Nat
  | .orKw => some 2
  | .andKw => some 3
  | .eq2 | .neq => some 4
  | .lt | .gt | .ltEq | .gtEq => some 5
  | .plus | .minus => some 6
  | .star | .slash | .percent => some 7
  | .dot => some 9
  | _ => none

/-- The level of an operator between operands: assignments and implications bind most
loosely, the dot of members binds most tightly. -/
def infixLevel? (rules : Rules) (k : TokenKind) : Option Nat :=
  if k = .eq then some 0
  else if rules.implicationOperators.contains k then some 1
  else operatorLevel? k

/-- The lowest level of a type. -/
def Rules.typeBound (rules : Rules) : Nat :=
  match rules.typeLevel with
  | .operand => 8
  | .implication => 1

namespace Tree

/-- The level of an expression. Control constructs, blocks and nodes that are no
expressions have none. -/
def level? (rules : Rules) : Tree τ → Option Nat
  | infixOp _ operator _ => infixLevel? rules (HasKind.kind operator)
  | prefixOp .. | array .. | function .. | template .. => some 8
  | call .. | index .. | postfixOp .. | literal _ | identifier _ => some 9
  | enclosure opening _ _ =>
    if HasKind.kind opening = .leftParen ∨ HasKind.kind opening = .leftBracket then some 9 else none
  | _ => none

/-- Whether a tree is an expression of at least a level. -/
def atLeast (rules : Rules) (bound : Nat) (t : Tree τ) : Bool :=
  (t.level? rules).any fun level => decide (bound ≤ level)

/-- Whether a tree is an expression above a level. -/
def above (rules : Rules) (bound : Nat) (t : Tree τ) : Bool := t.atLeast rules (bound + 1)

/-- The level of a tree tells which levels it has at least. -/
theorem atLeast_of_level {rules : Rules} {bound level : Nat} {t : Tree τ}
    (h : t.level? rules = some level) (hb : bound ≤ level) : t.atLeast rules bound = true := by
  simp [atLeast, h, hb]

/-- An expression of at least a level has at least every lower level. -/
theorem atLeast_mono {rules : Rules} {m n : Nat} {t : Tree τ} (h : t.atLeast rules n = true)
    (hm : m ≤ n) : t.atLeast rules m = true := by
  obtain ⟨level, hlevel, hn⟩ := Option.any_eq_true _ _ |>.1 h
  refine Option.any_eq_true _ _ |>.2 ⟨level, hlevel, ?_⟩
  rw [decide_eq_true_eq] at hn ⊢
  omega

/-- Whether a tree is a name. -/
def isIdentifier : Tree τ → Bool
  | identifier _ => true
  | _ => false

/-- Whether a tree is a control construct. -/
def isControl : Tree τ → Bool
  | control .. => true
  | _ => false

/-- Whether a tree is a constraint. -/
def isConstraint : Tree τ → Bool
  | constraint .. => true
  | _ => false

/-- Whether a tree is a parameter: a declaration without introducer and terminator. -/
def isParameter : Tree τ → Bool
  | declaration none _ _ _ none => true
  | _ => false

/-- Whether a tree is an expression of any level or a control construct. -/
def isExpression (rules : Rules) (t : Tree τ) : Bool := t.isControl || t.atLeast rules 0

/-- Whether a tree is an item of a list. -/
def isItem (rules : Rules) (t : Tree τ) : Bool := t.isParameter || t.isExpression rules

/-- Whether a tree is a statement of a block. -/
def isStatement (rules : Rules) (t : Tree τ) : Bool := t.isDeclaration || t.isExpression rules

/-- Whether a tree is a list of one or more items. -/
def isItems (rules : Rules) : Tree τ → Bool
  | list ts => !ts.isEmpty && ts.all (isItem rules)
  | _ => false

/-- Whether a tree is a sequence of one or more trees that pass a test. -/
def isSequenceOf (test : Tree τ → Bool) : Tree τ → Bool
  | sequence ts => !ts.isEmpty && ts.all test
  | _ => false

/-- Whether a tree is one tree that passes a test, or a list of two or more. -/
def isJoinedOf (test : Tree τ → Bool) (t : Tree τ) : Bool :=
  test t ||
    match t with
    | list ts => decide (2 ≤ ts.length) && ts.all test
    | _ => false

/-- Whether a tree is what stands in parentheses or brackets: a list of items, or two or
more such lists. -/
def isGroup (rules : Rules) : Tree τ → Bool := isJoinedOf (isItems rules)

/-- Whether a tree is a constraint or a type. -/
def isTyping (rules : Rules) (t : Tree τ) : Bool :=
  t.isConstraint || t.atLeast rules rules.typeBound

/-- Whether a tree is what a definition declares: values behind an introducer, and names
without one. -/
def isDeclarator (rules : Rules) (introduced : Bool) : Tree τ → Bool :=
  isJoinedOf (if introduced then atLeast rules 9 else isIdentifier)

/-- Whether the operands of a node fit its level and its shape. -/
def isLayered (rules : Rules) : Tree τ → Bool
  | infixOp left operator right =>
    match infixLevel? rules (HasKind.kind operator) with
    | none => false
    | some 9 => left.atLeast rules 9 && right.isIdentifier
    | some level =>
      if level ≤ 1 then left.above rules level && right.atLeast rules level
      else left.atLeast rules level && right.above rules level
  | prefixOp _ operand => operand.atLeast rules 8
  | array _ _ result | function _ _ result | template _ _ result => result.atLeast rules 8
  | call value _ | index value _ | postfixOp value _ => value.atLeast rules 9
  | constraint _ type pattern =>
    type.all (atLeast rules rules.typeBound) && pattern.atLeast rules rules.typeBound
  | declaration introducer declarator type _ _ =>
    declarator.all (isDeclarator rules introducer.isSome) && type.all (isTyping rules)
  | control keyword head _ =>
    HasKind.kind keyword != .fatArrow || head.any (atLeast rules 2)
  | enclosure opening term closing =>
    match HasKind.kind opening, HasKind.kind closing with
    | .leftParen, .rightParen | .leftBracket, .rightBracket => term.all (isGroup rules)
    | .leftBrace, .rightBrace => term.all (isSequenceOf (isStatement rules))
    | _, _ => false
  | file declarations => declarations.all (isSequenceOf isDeclaration)
  | literal _ | identifier _ | capture .. | list _ | sequence _ => true

/-- What fits a node with a left-associative operator. -/
theorem isLayered_leftAssociative {rules : Rules} {left right : Tree τ} {operator : τ}
    {level : Nat} (h : infixLevel? rules (HasKind.kind operator) = some level) (hl : 1 < level)
    (hn : level < 9) (hleft : left.atLeast rules level = true)
    (hright : right.above rules level = true) :
    (infixOp left operator right).isLayered rules = true := by
  have hle : ¬ level ≤ 1 := by omega
  simp only [isLayered, h]
  split
  · contradiction
  · next h9 => cases h9; omega
  · next h9 => cases h9; simp [hle, hleft, hright]

/-- What fits a node with a right-associative operator. -/
theorem isLayered_rightAssociative {rules : Rules} {left right : Tree τ} {operator : τ}
    {level : Nat} (h : infixLevel? rules (HasKind.kind operator) = some level) (hl : level ≤ 1)
    (hleft : left.atLeast rules (level + 1) = true) (hright : right.atLeast rules level = true) :
    (infixOp left operator right).isLayered rules = true := by
  simp only [isLayered, h]
  split
  · contradiction
  · next h9 => cases h9; omega
  · next h9 => cases h9; simp [hl, above, hleft, hright]

/-- That a property holds of every node of a tree. -/
def Everywhere {τ : Type} (P : Tree τ → Prop) (t : Tree τ) : Prop :=
  ∀ path node, t.descend path = some node → P node

/-- A property holds everywhere in a tree when it holds of the root and everywhere in the
operands. -/
theorem everywhere_of_children {τ : Type} {P : Tree τ → Prop} {t : Tree τ} (ht : P t)
    (hc : ∀ slot ∈ t.children, ∀ child ∈ slot, Everywhere P child) : Everywhere P t := by
  intro path node hpath
  cases path with
  | nil => exact Option.some.inj hpath ▸ ht
  | cons place path =>
    obtain ⟨child, hchild, hpath⟩ := Option.bind_eq_some_iff.1 hpath
    rw [operand?, Option.join_eq_some_iff] at hchild
    exact hc (some child) (List.mem_of_getElem? hchild) child rfl path node hpath

/-- That every node of a tree fits its level and its shape. -/
def Layered (rules : Rules) (t : Tree τ) : Prop :=
  t.Everywhere fun node => node.isLayered rules = true

/-- A node is layered when it has its shape and has layered operands. -/
theorem layered_of_children {rules : Rules} {t : Tree τ} (ht : t.isLayered rules = true)
    (hc : ∀ slot ∈ t.children, ∀ child ∈ slot, child.Layered rules) : t.Layered rules :=
  everywhere_of_children ht hc

/-- That a tree passes a test and is layered. -/
structure Fits (rules : Rules) (test : Tree τ → Bool) (t : Tree τ) : Prop where
  /-- The tree passes the test. -/
  passes : test t = true
  /-- The tree is layered. -/
  layered : t.Layered rules

namespace Fits

variable {rules : Rules} {test test' : Tree τ → Bool} {t : Tree τ} {ts : List (Tree τ)}

/-- A tree that fits one test fits every weaker test. -/
theorem weaken (h : t.Fits rules test) (hw : test t = true → test' t = true) :
    t.Fits rules test' :=
  ⟨hw h.passes, h.layered⟩

/-- A node fits when it passes the test, has its shape and has layered operands. -/
theorem node (hp : test t = true) (hl : t.isLayered rules = true)
    (hc : ∀ slot ∈ t.children, ∀ child ∈ slot, child.Layered rules) : t.Fits rules test :=
  ⟨hp, layered_of_children hl hc⟩

/-- A test of operand places is passed when what they hold fits. -/
theorem all_passes {slot : Option (Tree τ)} (h : ∀ t ∈ slot, t.Fits rules test) :
    slot.all test = true := by
  cases slot with
  | none => rfl
  | some t => exact (h t rfl).passes

/-- A declaration is layered when its parts fit. -/
theorem declaration {i s : Option τ} {d type v : Option (Tree τ)}
    (hd : ∀ t ∈ d, t.Fits rules (isDeclarator rules i.isSome))
    (ht : ∀ t ∈ type, t.Fits rules (isTyping rules)) (hv : ∀ t ∈ v, t.Layered rules)
    (hp : test (.declaration i d type v s) = true) :
    (Tree.declaration i d type v s).Fits rules test := by
  refine node hp ?_ ?_
  · simp only [isLayered, Fits.all_passes hd, Fits.all_passes ht, Bool.and_self]
  · simp only [children, List.forall_mem_cons, List.not_mem_nil, false_implies, implies_true,
      and_true]
    exact ⟨fun t h => (hd t h).layered, fun t h => (ht t h).layered, hv⟩

/-- A control construct is layered when its parts are and, if it is a branch, its pattern
is no implication. -/
theorem control {k : τ} {head body : Option (Tree τ)}
    (hk : HasKind.kind k ≠ .fatArrow ∨ head.any (atLeast rules 2) = true)
    (hh : ∀ t ∈ head, t.Layered rules) (hb : ∀ t ∈ body, t.Layered rules) :
    (Tree.control k head body).Fits rules isControl := by
  refine node rfl (by simpa [isLayered] using hk) ?_
  simp only [children, List.forall_mem_cons, List.not_mem_nil, false_implies, implies_true,
    and_true]
  exact ⟨hh, hb⟩

/-- Trees that fit may be joined. -/
theorem joined (hne : ts ≠ []) (h : ∀ t ∈ ts, t.Fits rules test) :
    (joined ts).Fits rules (isJoinedOf test) := by
  cases ts with
  | nil => exact absurd rfl hne
  | cons t ts =>
    cases ts with
    | nil => exact (h t List.mem_cons_self).weaken fun ht => by simp [isJoinedOf, ht]
    | cons u ts =>
      refine node ?_ rfl ?_
      · have hall : (t :: u :: ts).all test = true :=
          List.all_eq_true.2 fun v hv => (h v hv).passes
        simp [isJoinedOf, Tree.joined, hall]
      · rintro slot hslot child rfl
        have hmem : child ∈ t :: u :: ts := by simpa [Tree.joined, children] using hslot
        exact (h child hmem).layered

/-- Trees that fit make a sequence. -/
theorem sequence? (h : ∀ t ∈ ts, t.Fits rules test) :
    ∀ s ∈ Tree.sequence? ts, s.Fits rules (isSequenceOf test) := by
  cases ts with
  | nil => simp [Tree.sequence?]
  | cons t ts =>
    rintro s ⟨⟩
    refine node ?_ rfl ?_
    · have hall : (t :: ts).all test = true := List.all_eq_true.2 fun v hv => (h v hv).passes
      simp [isSequenceOf, hall]
    · rintro slot hslot child rfl
      have hmem : child ∈ t :: ts := by simpa [children] using hslot
      exact (h child hmem).layered

end Fits

end Tree

/-! ## The operators of the dialects -/

/-- That implications are written with arrows only. -/
def Rules.ArrowImplications (rules : Rules) : Prop :=
  ∀ k, rules.implicationOperators.contains k = true → k = .thinArrow ∨ k = .fatArrow

/-- In all dialects implications are written with arrows. -/
theorem Dialect.arrowImplications (d : Dialect) : d.rules.ArrowImplications := by
  have hall : ∀ k ∈ TokenKind.all, d.rules.implicationOperators.contains k = true →
      k = .thinArrow ∨ k = .fatArrow := by cases d <;> decide
  exact fun k => hall k k.mem_all

/-- An implication operator is of level one. -/
theorem infixLevel?_of_implication {rules : Rules} (ha : rules.ArrowImplications) {k : TokenKind}
    (h : rules.implicationOperators.contains k = true) : infixLevel? rules k = some 1 := by
  rcases ha k h with rfl | rfl <;> simp [infixLevel?, h]

/-- The dot is of level nine. -/
theorem infixLevel?_dot {rules : Rules} (ha : rules.ArrowImplications) :
    infixLevel? rules .dot = some 9 := by
  have hn : rules.implicationOperators.contains .dot = false := by
    refine Bool.eq_false_iff.2 fun h => ?_
    rcases ha _ h with h | h <;> contradiction
  simp [infixLevel?, operatorLevel?, hn]

/-- The operators of a layer are of one level, and there are six layers. None of them is
an arrow or an equals sign. -/
theorem operatorLevel?_of_layer {n : Nat} {k : TokenKind}
    (h : (layerOperators n).contains k = true) :
    n < 6 ∧ k ≠ .eq ∧ k ≠ .thinArrow ∧ k ≠ .fatArrow ∧ operatorLevel? k = some (7 - n) := by
  have hlayer : n < 6 := by
    refine Nat.lt_of_not_le fun hn => ?_
    obtain ⟨m, rfl⟩ : ∃ m, n = m + 6 := ⟨n - 6, by omega⟩
    simp [layerOperators, KindSet.contains_empty] at h
  have hall : ∀ n < 6, ∀ k ∈ TokenKind.all, (layerOperators n).contains k = true →
      k ≠ .eq ∧ k ≠ .thinArrow ∧ k ≠ .fatArrow ∧ operatorLevel? k = some (7 - n) := by decide
  exact ⟨hlayer, hall n hlayer k k.mem_all h⟩

/-- The level of the operators of a layer does not depend on the dialect. -/
theorem infixLevel?_of_layer {rules : Rules} (ha : rules.ArrowImplications) {n : Nat}
    {k : TokenKind} (h : (layerOperators n).contains k = true) :
    n < 6 ∧ infixLevel? rules k = some (7 - n) := by
  obtain ⟨hlayer, hne, hthin, hfat, hlevel⟩ := operatorLevel?_of_layer h
  have hn : rules.implicationOperators.contains k = false := by
    refine Bool.eq_false_iff.2 fun h => ?_
    rcases ha _ h with h | h <;> contradiction
  exact ⟨hlayer, by simp [infixLevel?, hne, hn, hlevel]⟩

/-! ## Readings are layered -/

/-- The test that the elements of a sequence pass. -/
def Element.test (rules : Rules) : Element → Tree τ → Bool
  | name => Tree.isIdentifier
  | item => Tree.isItem rules
  | items => Tree.isItems rules
  | branch => Tree.isControl
  | value => Tree.atLeast rules 9

/-- The test that a nested phrase passes. -/
def Phrase.test (rules : Rules) : Phrase → Tree τ → Bool
  | operand => Tree.atLeast rules 8
  | implication => Tree.atLeast rules 1
  | assignment => Tree.atLeast rules 0
  | expression => Tree.isExpression rules
  | statement => Tree.isStatement rules
  | conditional => Tree.isControl

/-- That delimiters are parentheses or brackets. -/
def IsGroupDelimiters (opening closing : TokenKind) : Prop :=
  opening = .leftParen ∧ closing = .rightParen ∨ opening = .leftBracket ∧ closing = .rightBracket

/-- That what a category reads is layered and on its level. What has been read before has
to be so too. -/
def Category.Fits (rules : Rules) : (c : Category τ) → c.Result → Prop
  | .phrase p, v => v.Fits rules (p.test rules)
  | .element e, v => v.Fits rules (e.test rules)
  | .separated e, vs => vs ≠ [] ∧ ∀ v ∈ vs, Tree.Fits rules (e.test rules) v
  | .type, v => v.Fits rules (Tree.atLeast rules rules.typeBound)
  | .typing, v => ∀ t ∈ v, Tree.Fits rules (Tree.isTyping rules) t
  | .initial, v => ∀ t ∈ v, Tree.Fits rules (Tree.isExpression rules) t
  | .parameter, v => v.Fits rules Tree.isParameter
  | .enclosed opening closing, v =>
    IsGroupDelimiters opening closing → v.Fits rules (Tree.atLeast rules 9)
  | .statements, vs => ∀ v ∈ vs, Tree.Fits rules (Tree.isStatement rules) v
  | .block, v => v.Layered rules
  | .constructor, v => v.Fits rules (Tree.atLeast rules 8)
  | .primary, v => v.Fits rules (Tree.atLeast rules 9)
  | .suffixes value, v =>
    value.Fits rules (Tree.atLeast rules 9) → v.Fits rules (Tree.atLeast rules 9)
  | .layer n, v => v.Fits rules (Tree.atLeast rules (8 - n))
  | .operations n left, v =>
    left.Fits rules (Tree.atLeast rules (7 - n)) → v.Fits rules (Tree.atLeast rules (7 - n))
  | .alternative, v => v.Layered rules
  | .functionHead, v => v.Layered rules
  | .scope, v => v.Layered rules
  | .control, v => v.Fits rules Tree.isControl
  | .defined introducer declarator, v =>
    declarator.Fits rules (Tree.isDeclarator rules introducer.isSome) →
      v.Fits rules Tree.isDeclaration
  | .definition, v => v.Fits rules Tree.isDeclaration
  | .declarations, vs => ∀ v ∈ vs, Tree.Fits rules Tree.isDeclaration v

/-- Whatever has a reading is layered and on the level of its category. -/
theorem Reading.fits {rules : Rules} (ha : rules.ArrowImplications) {c : Category τ}
    {ts rest : List τ} {v : c.Result} (h : Reading rules c ts v rest) : c.Fits rules v := by
  have paren : IsGroupDelimiters .leftParen .rightParen := .inl ⟨rfl, rfl⟩
  have bracket : IsGroupDelimiters .leftBracket .rightBracket := .inr ⟨rfl, rfl⟩
  have hconstructor : ∀ sort : ConstructorSort, IsGroupDelimiters sort.opening sort.closing := by
    intro sort
    cases sort <;> first | exact paren | exact bracket
  have hbuild : ∀ (sort : ConstructorSort) (m : Option τ) (s r : Tree τ), s.Layered rules →
      r.Fits rules (Tree.atLeast rules 8) →
      (sort.build m s r).Fits rules (Tree.atLeast rules 8) := by
    intro sort m s r hs hr
    cases sort <;>
      exact .node rfl hr.passes (by simp [ConstructorSort.build, Tree.children, hs, hr.layered])
  induction h with
  | name => exact .node rfl rfl (by simp [Tree.children])
  | last _ _ ih => exact ⟨by simp, List.forall_mem_singleton.2 ih⟩
  | more _ _ _ ih ih' => exact ⟨by simp, List.forall_mem_cons.2 ⟨ih, ih'.2⟩⟩
  | operandType hl _ ih =>
    exact Tree.Fits.weaken ih fun h => by
      rw [Rules.typeBound, hl]
      exact h
  | implicationType hl _ ih =>
    exact Tree.Fits.weaken ih fun h => by
      rw [Rules.typeBound, hl]
      exact h
  | omittedType => rintro _ ⟨⟩
  | plainType _ _ _ _ ih =>
    rintro t ⟨⟩
    exact Tree.Fits.weaken ih fun h => by simp [Tree.isTyping, h]
  | constrainedType _ _ _ _ _ ih ih' =>
    rintro t ⟨⟩
    exact .node rfl (by simp [Tree.isLayered, ih.passes, ih'.passes])
      (by simp [Tree.children, ih.layered, ih'.layered])
  | colonConstraint _ _ _ ih =>
    rintro t ⟨⟩
    exact .node rfl (by simp [Tree.isLayered, ih.passes]) (by simp [Tree.children, ih.layered])
  | bareConstraint _ _ ih =>
    rintro t ⟨⟩
    exact .node rfl (by simp [Tree.isLayered, ih.passes]) (by simp [Tree.children, ih.layered])
  | noInitial => rintro _ ⟨⟩
  | initial _ _ ih =>
    rintro t ⟨⟩
    exact ih
  | unnamedParameter _ _ _ ih ih' =>
    exact .declaration (by rintro _ ⟨⟩) ih (fun t h => (ih' t h).layered) rfl
  | namedParameter _ _ _ _ ih ih' ih'' =>
    refine .declaration ?_ ih' (fun t h => (ih'' t h).layered) rfl
    rintro t ⟨⟩
    exact .joined ih.1 ih.2
  | parameterItem _ _ ih =>
    exact Tree.Fits.weaken ih fun h => by simp [Element.test, Tree.isItem, h]
  | expressionItem _ _ ih =>
    refine Tree.Fits.weaken ih fun h => ?_
    have h : Tree.isExpression rules _ = true := h
    simp [Element.test, Tree.isItem, h]
  | items _ ih =>
    refine .node ?_ rfl ?_
    · have hne := ih.1
      simp only [Element.test, Tree.isItems, List.isEmpty_eq_false_iff.2 hne, Bool.not_false,
        Bool.true_and, List.all_eq_true]
      exact fun v hv => (ih.2 v hv).passes
    · simpa [Tree.children] using fun v hv => (ih.2 v hv).layered
  | @emptyEnclosure _ _ a b _ hka hkb =>
    rintro (⟨rfl, rfl⟩ | ⟨rfl, rfl⟩)
    · exact .node (by simp [Tree.atLeast, Tree.level?, hka]) (by simp [Tree.isLayered, hka, hkb])
        (by simp [Tree.children])
    · exact .node (by simp [Tree.atLeast, Tree.level?, hka]) (by simp [Tree.isLayered, hka, hkb])
        (by simp [Tree.children])
  | @enclosure _ _ a b _ _ vs hka _ _ hkb ih =>
    have hgroup : (Tree.joined vs).Fits rules (Tree.isGroup rules) := .joined ih.1 ih.2
    rintro (⟨rfl, rfl⟩ | ⟨rfl, rfl⟩)
    · exact .node (by simp [Tree.atLeast, Tree.level?, hka])
        (by simp [Tree.isLayered, hka, hkb, hgroup.passes])
        (by simp [Tree.children, hgroup.layered])
    · exact .node (by simp [Tree.atLeast, Tree.level?, hka])
        (by simp [Tree.isLayered, hka, hkb, hgroup.passes])
        (by simp [Tree.children, hgroup.layered])
  | noStatements => rintro _ ⟨⟩
  | statements _ _ _ _ ih ih' => exact List.forall_mem_cons.2 ⟨ih, ih'⟩
  | @block a b _ _ ss hka _ hkb ih =>
    have hbody := Tree.Fits.sequence? ih
    exact Tree.layered_of_children
      (by simp [Tree.isLayered, hka, hkb, Tree.Fits.all_passes hbody])
      (by simpa [Tree.children] using fun t h => (hbody t h).layered)
  | @wordConstructor sort _ _ _ _ _ _ _ _ _ _ ih ih' =>
    exact hbuild _ _ _ _ (ih (hconstructor sort)).layered ih'
  | @unmarkedConstructor sort _ _ _ _ _ _ _ _ ih ih' =>
    exact hbuild _ _ _ _ (ih (hconstructor sort)).layered ih'
  | @markedConstructor sort _ _ _ _ _ _ _ _ _ _ ih ih' =>
    exact hbuild _ _ _ _ (ih (hconstructor sort)).layered ih'
  | literal => exact .node rfl rfl (by simp [Tree.children])
  | identifier => exact .node rfl rfl (by simp [Tree.children])
  | paren _ _ ih => exact ih paren
  | bracket _ _ ih => exact ih bracket
  | suffixesEnd => exact id
  | call _ _ ih ih' =>
    intro hv
    exact ih' (.node rfl hv.passes (by simp [Tree.children, hv.layered, (ih paren).layered]))
  | index _ _ ih ih' =>
    intro hv
    exact ih' (.node rfl hv.passes (by simp [Tree.children, hv.layered, (ih bracket).layered]))
  | @member _ _ _ n _ _ hd _ _ ih =>
    intro hv
    have hname : (Tree.identifier n).Layered rules :=
      Tree.layered_of_children rfl (by simp [Tree.children])
    have hdot := infixLevel?_dot ha
    exact ih (.node (by simp [Tree.atLeast, Tree.level?, hd, hdot])
      (by simp [Tree.isLayered, hd, hdot, hv.passes, Tree.isIdentifier])
      (by simp [Tree.children, hv.layered, hname]))
  | caret _ _ _ ih =>
    intro hv
    exact ih (.node rfl hv.passes (by simp [Tree.children, hv.layered]))
  | value _ _ ih ih' => exact ih' ih
  | prefixOperand _ _ ih =>
    exact .node rfl ih.passes (by simpa [Tree.children] using ih.layered)
  | constructorOperand _ _ ih => exact ih
  | valueOperand _ _ _ ih => exact Tree.Fits.weaken ih fun h => Tree.atLeast_mono h (by decide)
  | layerOperand _ ih => exact ih
  | @layer n _ _ _ l _ _ _ ih ih' =>
    have hl : l.Fits rules (Tree.atLeast rules (7 - n)) :=
      Tree.Fits.weaken ih fun h => Tree.atLeast_mono h (by omega)
    exact Tree.Fits.weaken (ih' hl) fun h => Tree.atLeast_mono h (by omega)
  | operationsEnd => exact id
  | @operation n l r _ o _ _ _ ho _ _ ih ih' =>
    intro hl
    obtain ⟨hn, hlevel⟩ := infixLevel?_of_layer ha ho
    refine ih' (.node (Tree.atLeast_of_level hlevel (Nat.le_refl _)) ?_
      (by simp [Tree.children, hl.layered, ih.layered]))
    have hr : r.above rules (7 - n) = true := Tree.atLeast_mono ih.passes (by omega)
    exact Tree.isLayered_leftAssociative hlevel (by omega) (by omega) hl.passes hr
  | implicationEnd _ _ ih => exact Tree.Fits.weaken ih fun h => Tree.atLeast_mono h (by decide)
  | @implication _ _ _ _ _ o _ ho _ ih ih' =>
    have hlevel := infixLevel?_of_implication ha ho
    exact .node (Tree.atLeast_of_level hlevel (Nat.le_refl _))
      (Tree.isLayered_rightAssociative hlevel (Nat.le_refl _) ih.passes ih'.passes)
      (by simp [Tree.children, ih.layered, ih'.layered])
  | assignmentEnd _ _ ih => exact Tree.Fits.weaken ih fun h => Tree.atLeast_mono h (by decide)
  | @assignment _ _ _ _ _ o _ ho _ ih ih' =>
    have hlevel : infixLevel? rules (kind o) = some 0 := by simp [infixLevel?, ho]
    exact .node (Tree.atLeast_of_level hlevel (Nat.le_refl _))
      (Tree.isLayered_rightAssociative hlevel (by decide) ih.passes ih'.passes)
      (by simp [Tree.children, ih.layered, ih'.layered])
  | conditional hk _ _ _ ih ih' =>
    exact .control (.inl (by rw [hk]; decide)) (by rintro t ⟨⟩; exact (ih paren).layered)
      (by rintro t ⟨⟩; exact ih')
  | @choice k e _ _ _ _ c b _ hk _ _ he _ ih ih' ih'' =>
    have hfirst : (Tree.control k (some c) (some b)).Fits rules Tree.isControl :=
      .control (.inl (by rw [hk]; decide)) (by rintro t ⟨⟩; exact (ih paren).layered)
        (by rintro t ⟨⟩; exact ih')
    exact .control (.inl (by rw [he]; decide)) (by rintro t ⟨⟩; exact hfirst.layered)
      (by rintro t ⟨⟩; exact ih'')
  | furtherChoice _ _ ih => exact ih.layered
  | lastChoice _ _ ih => exact ih
  | branch _ _ _ ih ih' =>
    exact .control (.inr ih.passes) (by rintro t ⟨⟩; exact ih.layered)
      (by rintro t ⟨⟩; exact ih')
  | conditionalControl _ _ ih => exact ih
  | @caseDistinction k _ _ _ _ bs hk _ _ ih ih' =>
    have hbranches : (Tree.sequence bs).Layered rules :=
      Tree.layered_of_children rfl (by simpa [Tree.children] using fun v hv => (ih'.2 v hv).layered)
    exact .control (.inl (by rw [hk]; decide)) (by rintro t ⟨⟩; exact (ih paren).layered)
      (by rintro t ⟨⟩; exact hbranches)
  | loop hk _ _ ih ih' =>
    exact .control (.inl (by rcases hk with hk | hk <;> (rw [hk]; decide)))
      (by rintro t ⟨⟩; exact (ih paren).layered) (by rintro t ⟨⟩; exact ih')
  | doBlock hk _ _ ih =>
    exact .control (.inl (by rw [hk]; decide)) (by rintro t ⟨⟩; exact ih) (by rintro _ ⟨⟩)
  | @doWhile _ w _ _ _ _ c hk _ hw _ _ ih ih' =>
    have hcondition : (Tree.control w (some c) none).Fits rules Tree.isControl :=
      .control (.inl (by rw [hw]; decide)) (by rintro t ⟨⟩; exact (ih' paren).layered)
        (by rintro _ ⟨⟩)
    exact .control (.inl (by rw [hk]; decide)) (by rintro t ⟨⟩; exact ih)
      (by rintro t ⟨⟩; exact hcondition.layered)
  | captures _ _ _ ih ih' =>
    exact Tree.layered_of_children rfl
      (by simp [Tree.children, (ih bracket).layered, (ih' paren).layered])
  | noCaptures _ _ ih => exact (ih paren).layered
  | functionValue hk _ _ ih ih' =>
    exact .control (.inl (by rw [hk]; decide)) (by rintro t ⟨⟩; exact ih)
      (by rintro t ⟨⟩; exact ih')
  | blockScope _ _ ih => exact ih
  | expressionScope _ _ ih => exact ih.layered
  | localBinding hk _ _ ih ih' =>
    exact .control (.inl (by rw [hk]; decide)) (by rintro t ⟨⟩; exact (ih paren).layered)
      (by rintro t ⟨⟩; exact ih')
  | controlExpression _ _ ih =>
    exact Tree.Fits.weaken ih fun h => by simp [Phrase.test, Tree.isExpression, h]
  | assignmentExpression _ _ ih =>
    refine Tree.Fits.weaken ih fun h => ?_
    have h : Tree.atLeast rules 0 _ = true := h
    simp [Phrase.test, Tree.isExpression, h]
  | typedOnly _ _ ih =>
    intro hd
    exact .declaration (by rintro t ⟨⟩; exact hd) ih (by rintro _ ⟨⟩) rfl
  | definedBlock _ _ ih ih' =>
    intro hd
    exact .declaration (by rintro t ⟨⟩; exact hd) ih (by rintro t ⟨⟩; exact ih') rfl
  | definedValue _ _ _ _ ih ih' =>
    intro hd
    exact .declaration (by rintro t ⟨⟩; exact hd) ih (by rintro t ⟨⟩; exact ih'.layered) rfl
  | introduced _ _ _ ih ih' => exact ih' (.joined ih.1 ih.2)
  | unintroduced _ _ _ ih ih' => exact ih' (.joined ih.1 ih.2)
  | definitionStatement _ _ ih =>
    exact Tree.Fits.weaken ih fun h => by simp [Phrase.test, Tree.isStatement, h]
  | controlStatement _ _ _ _ ih =>
    exact Tree.Fits.weaken ih fun h => by
      simp [Phrase.test, Tree.isStatement, Tree.isExpression, h]
  | terminatedControl _ _ _ _ ih =>
    exact Tree.Fits.weaken ih fun h => by
      simp [Phrase.test, Tree.isStatement, Tree.isExpression, h]
  | expressionStatement _ _ _ _ ih =>
    refine Tree.Fits.weaken ih fun h => ?_
    have h : Tree.isExpression rules _ = true := h
    simp [Phrase.test, Tree.isStatement, h]
  | noDeclarations => rintro _ ⟨⟩
  | declarations _ _ _ ih ih' => exact List.forall_mem_cons.2 ⟨ih, ih'⟩

/-- The trees of accepted texts are layered: every node fits its level and its shape. -/
theorem parseText_layered (symbols : SymbolTable) (dialect : Dialect) (text : String)
    (t : Tree Token) (h : (parseText symbols dialect text).1 = .ok t) :
    t.Everywhere fun node => node.isLayered dialect.rules = true := by
  obtain ⟨ds, rfl, hr⟩ := exists_reading_of_parseText h
  have hfits : ∀ d ∈ ds, d.Fits dialect.rules Tree.isDeclaration :=
    hr.fits dialect.arrowImplications
  have hbody := Tree.Fits.sequence? hfits
  exact Tree.layered_of_children (by simp [Tree.isLayered, Tree.Fits.all_passes hbody])
    (by simpa [Tree.children] using fun t h => (hbody t h).layered)

/-- The tree of a definition with a sum and a product is layered. -/
theorem parseText_layered_sum :
    ∃ t, (parseText (.empty 0) .standard "a: int = b + c * d;").1 = .ok t ∧
      t.Everywhere fun node => node.isLayered Dialect.standard.rules = true := by
  obtain ⟨t, ht⟩ := exists_tree_of_isOk (.empty 0) .standard "a: int = b + c * d;"
    (by decide +kernel)
  exact ⟨t, ht, parseText_layered _ _ _ t ht⟩

end ConcreteSyntax
