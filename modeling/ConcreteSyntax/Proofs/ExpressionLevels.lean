import ConcreteSyntax.Proofs.PrintedReadings

/-!
# Levels of printed expressions

An expression of a level is read wherever one of that level may stand, if the token behind
it ends it: a token that continues no value and is no operator that binds as tightly. An
expression that is read in front of the operations of a layer, or in front of suffixes, is
read on all looser levels too.
-/

namespace ConcreteSyntax

open TokenParser Grammar ConcreteSyntax.Tree

/-! ## First tokens and last tokens -/

/-- Whether a token of a kind begins a value. -/
def opensValue (rules : Rules) (k : TokenKind) : Bool :=
  rules.literals.contains k || k == .ident || k == .leftParen || k == .leftBracket

/-- Whether a token of a kind begins an operand. -/
def opensOperand (rules : Rules) (k : TokenKind) : Bool :=
  opensValue rules k || rules.prefixOperators.contains k ||
    (rules.constructors == .keyword && (k == .arrayKw || k == .templKw || k == .funcKw))

/-- The kinds that separate or end items and statements, or that begin a declaration or a
part of one. -/
def nonOperands : List TokenKind :=
  [.comma, .semicolon, .colon, .isKw, .eq, .defKw, .rightParen, .rightBracket, .rightBrace, .eof]

/-- Properties of the tables of a dialect in which no closer is looked for. -/
structure Rules.Scanless (rules : Rules) : Prop extends rules.Printable where
  /-- There are no control constructs. -/
  control : rules.control = false
  /-- Constructors are introduced by reserved words if there are any. -/
  style : rules.constructors = .keyword ∨ rules.constructors = .absent
  /-- No value begins with a prefix operator or with the word of a constructor. -/
  values : ∀ k, opensValue rules k = true → rules.prefixOperators.contains k = false ∧
    (rules.constructors = .keyword → k ≠ .arrayKw ∧ k ≠ .templKw ∧ k ≠ .funcKw)
  /-- The word of a constructor is no prefix operator. -/
  words : rules.constructors = .keyword → ∀ k, k = .arrayKw ∨ k = .templKw ∨ k = .funcKw →
    rules.prefixOperators.contains k = false
  /-- No operand begins with a token that is needed for something else. -/
  operands : ∀ k, opensOperand rules k = true → k ∉ nonOperands

/-- In two dialects no closer is looked for. -/
theorem Dialect.scanless_rules {d : Dialect} (h : d = .keyword ∨ d = .pointer) :
    d.rules.Scanless where
  toPrintable := d.printable_rules
  control := by rcases h with rfl | rfl <;> rfl
  style := by
    rcases h with rfl | rfl
    · exact .inl rfl
    · exact .inr rfl
  values := by
    have hall : ∀ k ∈ TokenKind.all, opensValue d.rules k = true →
        d.rules.prefixOperators.contains k = false ∧
          (d.rules.constructors = .keyword → k ≠ .arrayKw ∧ k ≠ .templKw ∧ k ≠ .funcKw) := by
      rcases h with rfl | rfl <;> decide
    exact fun k => hall k k.mem_all
  words := by
    rcases h with rfl | rfl
    · rintro - k (rfl | rfl | rfl) <;> decide
    · rintro ⟨⟩
  operands := by
    have hall : ∀ k ∈ TokenKind.all, opensOperand d.rules k = true → k ∉ nonOperands := by
      rcases h with rfl | rfl <;> decide
    exact fun k => hall k k.mem_all

variable {rules : Rules}

/-- Behind a colon an operand shows that a type follows. -/
theorem Rules.Scanless.typeOmitted_eq (hs : rules.Scanless) {k : TokenKind}
    (hk : opensOperand rules k = true) : typeOmitted.contains k = false := by
  have hall : ∀ k ∈ TokenKind.all, typeOmitted.contains k = true → k ∈ nonOperands := by decide
  exact Bool.eq_false_iff.2 fun h => hs.operands k hk (hall k k.mem_all h)

/-- That a token of a kind ends an expression of a level: it continues no value, and as an
operator it binds less tightly. -/
def Ends (rules : Rules) (level : Nat) (k : TokenKind) : Prop :=
  continuesValue rules k = false ∧ ∀ m, infixLevel? rules k = some m → m < level

namespace Ends

variable {m n : Nat} {k : TokenKind}

/-- What ends an expression ends every tighter one. -/
theorem mono (h : Ends rules m k) (hn : m ≤ n) : Ends rules n k :=
  ⟨h.1, fun level hlevel => (h.2 level hlevel).trans_le hn⟩

/-- An operator that binds less tightly ends an expression. -/
theorem of_level (hk : infixLevel? rules k = some m) (hc : continuesValue rules k = false)
    (hm : m < n) : Ends rules n k :=
  ⟨hc, fun _ hlevel => Option.some.inj (hk.symm.trans hlevel) ▸ hm⟩

/-- A token that is no operator ends every expression. -/
theorem of_none (hk : infixLevel? rules k = none) (hc : continuesValue rules k = false) :
    Ends rules n k :=
  ⟨hc, fun _ hlevel => by rw [hk] at hlevel; contradiction⟩

/-- What ends an expression is no operator of the layers that bind as tightly. -/
theorem layer (h : Ends rules n k) (hp : rules.Printable) {j : Nat} (hj : n + j ≤ 7) :
    (layerOperators j).contains k = false := by
  refine Bool.eq_false_iff.2 fun ho => ?_
  have hlt := h.2 _ (infixLevel?_of_layer hp.arrows ho).2
  omega

/-- What ends an implication is no implication operator. -/
theorem implication (h : Ends rules n k) (hp : rules.Printable) (hn : n ≤ 1) :
    rules.implicationOperators.contains k = false := by
  refine Bool.eq_false_iff.2 fun ho => ?_
  have hlt := h.2 _ (infixLevel?_of_implication hp.arrows ho)
  omega

/-- What ends an assignment is no equals sign. -/
theorem ne_eq (h : Ends rules 0 k) : k ≠ .eq := by
  rintro rfl
  exact absurd (h.2 0 (by simp [infixLevel?])) (Nat.lt_irrefl 0)

end Ends

/-- The kinds that end every expression. -/
def endKinds : List TokenKind :=
  [.comma, .semicolon, .colon, .isKw, .rightParen, .rightBracket, .leftBrace]

/-- A separator, a mark, a closer or a block ends every expression. -/
theorem ends_of_mem (hp : rules.Printable) {n : Nat} {k : TokenKind} (hk : k ∈ endKinds) :
    Ends rules n k := by
  have himplication : rules.implicationOperators.contains k = false := by
    refine Bool.eq_false_iff.2 fun ho => ?_
    rcases hp.arrows _ ho with rfl | rfl <;> contradiction
  simp only [endKinds, List.mem_cons, List.not_mem_nil, or_false] at hk
  rcases hk with rfl | rfl | rfl | rfl | rfl | rfl | rfl <;>
    exact .of_none (by simp [infixLevel?, himplication, operatorLevel?]) (by simp [continuesValue])

/-- An equals sign ends every expression but an assignment. -/
theorem ends_eq {n : Nat} (hn : 0 < n) : Ends rules n .eq :=
  .of_level (by simp [infixLevel?]) (by simp [continuesValue]) hn

/-- An implication is the loosest type. -/
theorem Rules.typeBound_pos (rules : Rules) : 0 < rules.typeBound := by
  unfold typeBound
  split <;> decide

/-! ## Expressions -/

/-- That the printed words of a tree are read as an operand of a layer. -/
def LayerReads (rules : Rules) (k : Nat) (t : Tree Word) : Prop :=
  ∀ rest, Ends rules (8 - k) (kindAt rest 0) →
    Reading rules (.layer k) (print .plain t ++ rest) t rest

/-- That the printed words of a tree are read as the first operand of a layer, in front of
its operations. -/
def OperationsRead (rules : Rules) (k : Nat) (t : Tree Word) : Prop :=
  ∀ rest v rest', Ends rules (8 - k) (kindAt rest 0) →
    Reading rules (.operations k t) rest v rest' →
    Reading rules (.layer (k + 1)) (print .plain t ++ rest) v rest'

/-- That the printed words of an expression of a level are read as the expression wherever
one of that level may stand. -/
structure ExpressionReads (rules : Rules) (n : Nat) (t : Tree Word) : Prop where
  /-- It begins like an operand. -/
  opens : ∀ rest, opensOperand rules (kindAt (print .plain t ++ rest) 0) = true
  /-- As a value it begins like one. -/
  begins : 9 ≤ n → ∀ rest, opensValue rules (kindAt (print .plain t ++ rest) 0) = true
  /-- As a value it is read in front of suffixes. -/
  value : 9 ≤ n → ∀ rest v rest', Reading rules (.suffixes t) rest v rest' →
    Reading rules (.element .value) (print .plain t ++ rest) v rest'
  /-- It is read as an operand. -/
  operand : 8 ≤ n → ∀ rest, Ends rules 8 (kindAt rest 0) →
    Reading rules (.phrase .operand) (print .plain t ++ rest) t rest
  /-- It is read in front of operations. -/
  operations : ∀ k < 6, 7 - k ≤ n → OperationsRead rules k t
  /-- It is read in the layers. -/
  layer : ∀ k ≤ 6, 8 - k ≤ n → LayerReads rules k t
  /-- It is read as an implication. -/
  implication : 1 ≤ n → ∀ rest, Ends rules 1 (kindAt rest 0) →
    Reading rules (.phrase .implication) (print .plain t ++ rest) t rest
  /-- It is read as an assignment. -/
  assignment : ∀ rest, Ends rules 0 (kindAt rest 0) →
    Reading rules (.phrase .assignment) (print .plain t ++ rest) t rest

section

variable {k n : Nat} {t : Tree Word}

/-- An operand of a layer is read in front of operations. -/
theorem LayerReads.operations (h : LayerReads rules k t) : OperationsRead rules k t :=
  fun rest _ _ hend hoperations => .layer (h rest hend) hoperations

/-- The operations of a layer make an operand of the next layer. -/
theorem OperationsRead.layer (hp : rules.Printable) (h : OperationsRead rules k t) (hk : k < 6) :
    LayerReads rules (k + 1) t := fun rest hend =>
  h rest t rest (hend.mono (by omega)) (.operationsEnd (hend.layer hp (by omega)))

/-- An operand of a layer is one of all later layers. -/
theorem LayerReads.le (hp : rules.Printable) (h : LayerReads rules k t) {j : Nat} (hkj : k ≤ j)
    (hj : j ≤ 6) : LayerReads rules j t := by
  induction j, hkj using Nat.le_induction with
  | base => exact h
  | succ j _ ih => exact (ih (by omega)).operations.layer hp (by omega)

/-- An operand of the last layer is read as an implication. -/
theorem LayerReads.implication (hp : rules.Printable) (h : LayerReads rules 6 t) (rest : List Word)
    (hend : Ends rules 1 (kindAt rest 0)) :
    Reading rules (.phrase .implication) (print .plain t ++ rest) t rest :=
  .implicationEnd (h rest (hend.mono (by decide))) (hend.implication hp (Nat.le_refl 1))

namespace ExpressionReads

/-- An expression may stand where a looser one may. -/
theorem looser {m : Nat} (h : ExpressionReads rules n t) (hm : m ≤ n) :
    ExpressionReads rules m t where
  opens := h.opens
  begins hn := h.begins (hn.trans hm)
  value hn := h.value (hn.trans hm)
  operand hn := h.operand (hn.trans hm)
  operations k hk hn := h.operations k hk (hn.trans hm)
  layer k hk hn := h.layer k hk (hn.trans hm)
  implication hn := h.implication (hn.trans hm)
  assignment := h.assignment

variable (hopens : ∀ rest, opensOperand rules (kindAt (print .plain t ++ rest) 0) = true)

include hopens

/-- What is read as an assignment is an expression of level zero. -/
theorem of_assignment (h : ∀ rest, Ends rules 0 (kindAt rest 0) →
    Reading rules (.phrase .assignment) (print .plain t ++ rest) t rest) :
    ExpressionReads rules 0 t where
  opens := hopens
  begins hn := by omega
  value hn := by omega
  operand hn := by omega
  operations k hk hn := by omega
  layer k hk hn := by omega
  implication hn := by omega
  assignment := h

/-- What is read as an implication is an expression of level one. -/
theorem of_implication (h : ∀ rest, Ends rules 1 (kindAt rest 0) →
    Reading rules (.phrase .implication) (print .plain t ++ rest) t rest) :
    ExpressionReads rules 1 t where
  opens := hopens
  begins hn := by omega
  value hn := by omega
  operand hn := by omega
  operations k hk hn := by omega
  layer k hk hn := by omega
  implication _ := h
  assignment rest hend := .assignmentEnd (h rest (hend.mono (by decide))) hend.ne_eq

/-- What is read in front of the operations of a layer is an expression of its level. -/
theorem of_operations (hp : rules.Printable) (hk : k < 6) (h : OperationsRead rules k t) :
    ExpressionReads rules (7 - k) t :=
  have hlayer : ∀ j ≤ 6, 8 - j ≤ 7 - k → LayerReads rules j t :=
    fun j hj hn => (h.layer hp hk).le hp (by omega) hj
  have himplication := (hlayer 6 (Nat.le_refl 6) (by omega)).implication hp
  { opens := hopens
    begins := fun hn => by omega
    value := fun hn => by omega
    operand := fun hn => by omega
    operations := fun j hj hn => by
      obtain rfl | hlt := (show k ≤ j by omega).eq_or_lt
      · exact h
      · exact (hlayer j (by omega) (by omega)).operations
    layer := hlayer
    implication := fun _ => himplication
    assignment := (of_implication hopens himplication).assignment }

/-- What is read as an operand is an expression of level eight. -/
theorem of_operand (hp : rules.Printable) (h : ∀ rest, Ends rules 8 (kindAt rest 0) →
    Reading rules (.phrase .operand) (print .plain t ++ rest) t rest) :
    ExpressionReads rules 8 t :=
  have hzero : LayerReads rules 0 t := fun rest hend => .layerOperand (h rest hend)
  have hfirst := of_operations hopens hp (k := 0) (by decide) hzero.operations
  { opens := hopens
    begins := fun hn => by omega
    value := fun hn => by omega
    operand := fun _ => h
    operations := fun j hj _ => (hzero.le hp (Nat.zero_le j) (by omega)).operations
    layer := fun j hj _ => hzero.le hp (Nat.zero_le j) hj
    implication := fun _ => hfirst.implication (by decide)
    assignment := hfirst.assignment }

omit hopens

/-- What begins like a value and is read in front of suffixes is an expression of level
nine. -/
theorem of_value (hs : rules.Scanless)
    (hopens : ∀ rest, opensValue rules (kindAt (print .plain t ++ rest) 0) = true)
    (h : ∀ rest v rest', Reading rules (.suffixes t) rest v rest' →
      Reading rules (.element .value) (print .plain t ++ rest) v rest') :
    ExpressionReads rules 9 t :=
  have hoperand : ∀ rest, opensOperand rules (kindAt (print .plain t ++ rest) 0) = true := by
    intro rest
    simp [opensOperand, hopens rest]
  have hread := of_operand hoperand hs.toPrintable fun rest hend => by
    obtain ⟨hordinary, hword⟩ := hs.values _ (hopens rest)
    have hnone : opensConstructor rules (print .plain t ++ rest) = false := by
      unfold opensConstructor
      rcases hs.style with hc | hc
      · obtain ⟨ha, ht, hf⟩ := hword hc
        simp [hc, ha, ht, hf]
      · simp [hc]
    exact .valueOperand hordinary hnone (h rest t rest (.suffixesEnd hend.1))
  { opens := hoperand
    begins := fun _ => hopens
    value := fun _ => h
    operand := fun _ => hread.operand (Nat.le_refl 8)
    operations := fun j hj _ => hread.operations j hj (by omega)
    layer := fun j hj _ => hread.layer j hj (by omega)
    implication := fun _ => hread.implication (by decide)
    assignment := hread.assignment }

/-- An expression is read as such where a token ends it. -/
theorem expression (hs : rules.Scanless) {n : Nat} {t : Tree Word}
    (h : ExpressionReads rules n t) (rest : List Word) (hend : Ends rules 0 (kindAt rest 0)) :
    Reading rules (.phrase .expression) (print .plain t ++ rest) t rest :=
  .assignmentExpression (by simp [opensControl, hs.control]) (h.assignment rest hend)

/-- An expression of the level of types is read as a type. -/
theorem type {t : Tree Word} (h : ExpressionReads rules rules.typeBound t)
    {rest : List Word} (hend : Ends rules rules.typeBound (kindAt rest 0)) :
    Reading rules .type (print .plain t ++ rest) t rest := by
  cases hl : rules.typeLevel with
  | operand =>
    have hbound : rules.typeBound = 8 := by rw [Rules.typeBound, hl]
    rw [hbound] at h hend
    exact .operandType hl (h.operand (Nat.le_refl 8) rest hend)
  | implication =>
    have hbound : rules.typeBound = 1 := by rw [Rules.typeBound, hl]
    rw [hbound] at h hend
    exact .implicationType hl (h.implication (Nat.le_refl 1) rest hend)

/-- An expression is no list, no declaration and no block. -/
theorem shape (hs : rules.Scanless) {n : Nat} {t : Tree Word}
    (h : ExpressionReads rules n t) :
    t.isList = false ∧ t.isDeclaration = false ∧ t.isBlock = false := by
  have hend : Ends rules 0 (kindAt [TokenKind.semicolon.word] 0) :=
    ends_of_mem hs.toPrintable (by decide)
  exact isExpression_shape ((h.expression hs _ hend).fits hs.arrows).passes

/-- An expression looks like the names of a definition only as a name that is marked. -/
theorem opensDefinition_eq (hs : rules.Scanless) {n : Nat} {t : Tree Word}
    (h : ExpressionReads rules n t) (rest : List Word) (hend : Ends rules 0 (kindAt rest 0))
    (hm : t.isIdentifier = true → marksNames rest = false) :
    opensDefinition (print .plain t ++ rest) = false := by
  refine Bool.eq_false_iff.2 fun ho => ?_
  have hread := h.expression hs rest hend
  obtain ⟨⟨name, rfl, -⟩, hmarks⟩ := (hread.opensDefinition_eq hs.toPrintable).1 ho
  rw [hm rfl] at hmarks
  contradiction

end ExpressionReads

end

end ConcreteSyntax
