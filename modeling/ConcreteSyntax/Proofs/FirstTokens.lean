import ConcreteSyntax.Proofs.ExchangedRests

/-!
# First tokens of phrases

The kind of the first token tells much about a phrase. Operands, and what is made of them by
operators, begin with a literal, a name, a prefix operator, an opening delimiter or the word of
a constructor. No expression begins with a separator, a closer, an arrow or a mark of a
definition. Tokens that are read as a definition or a parameter look like one, and those that
are read as a loop look like a loop.
-/

namespace ConcreteSyntax

open TokenParser Grammar

variable {τ : Type} [HasKind τ] {rules : Rules}

/-- The number of tokens that every phrase of a category takes at least. -/
def Category.taken : Category τ → Nat
  | .initial | .statements | .suffixes _ | .operations _ _ | .declarations => 0
  | _ => 1

/-- A reading takes the tokens of its category. -/
theorem Reading.taken_le {c : Category τ} {ts rest : List τ} {v : c.Result}
    (h : Reading rules c ts v rest) : rest.length + c.taken ≤ ts.length := by
  induction h <;> simp only [Category.taken, List.length_cons] at * <;> omega

/-! ## Kinds with which expressions begin -/

/-- The kinds with which operands of a dialect begin. -/
def Rules.operandBeginnings (rules : Rules) : KindSet :=
  ((KindSet.ofList [.ident, .leftParen, .leftBracket, .arrayKw, .templKw, .funcKw]).union
    rules.literals).union rules.prefixOperators

/-- The kinds with which no expression begins. -/
def nonStarters : KindSet := .ofList
  [.eof, .rightParen, .rightBracket, .leftBrace, .rightBrace, .colon, .semicolon, .comma, .eq,
    .fatArrow, .elseKw, .isKw, .defKw]

/-- Properties of the tables of a dialect on which completing a text relies. -/
structure Rules.Extensible (rules : Rules) : Prop extends rules.Printable where
  /-- No table contains the word of a loop. -/
  loopless : rules.Loopless
  /-- Operands begin neither with a kind with which no expression begins nor with the word of
  a loop. -/
  beginnings : ∀ k, rules.operandBeginnings.contains k = true →
    nonStarters.contains k = false ∧ k ≠ .whileKw
  /-- No result of a constructor begins with such a kind, or with the arrow of functions. -/
  results : ∀ k, rules.operandStart.contains k = true →
    nonStarters.contains k = false ∧ k ≠ .thinArrow
  /-- A number is a literal. -/
  numberLiteral : rules.literals.contains .intNumber = true
  /-- A number is no prefix operator. -/
  numberPrefix : rules.prefixOperators.contains .intNumber = false
  /-- A number may begin the result of a constructor. -/
  numberStart : rules.operandStart.contains .intNumber = true
  /-- Where there are branches, their arrow is no operator. -/
  branches : rules.control = true → rules.implicationOperators.contains .fatArrow = false

/-- The tables of the dialects are extensible. -/
theorem Dialect.extensible_rules (d : Dialect) : d.rules.Extensible where
  toPrintable := d.printable_rules
  loopless := d.loopless_rules
  beginnings := fun k => TokenKind.forall_of_all
    (p := fun k => d.rules.operandBeginnings.contains k = true →
      nonStarters.contains k = false ∧ k ≠ .whileKw)
    (by cases d <;> decide) k
  results := fun k => TokenKind.forall_of_all
    (p := fun k => d.rules.operandStart.contains k = true →
      nonStarters.contains k = false ∧ k ≠ .thinArrow)
    (by cases d <;> decide) k
  numberLiteral := by cases d <;> decide
  numberPrefix := by cases d <;> decide
  numberStart := by cases d <;> decide
  branches := by cases d <;> decide

/-- No control construct begins with a kind with which no expression begins. -/
theorem nonStarters_of_controlWord {k : TokenKind} (h : controlWords.contains k = true) :
    nonStarters.contains k = false :=
  TokenKind.forall_of_all (p := fun k => controlWords.contains k = true →
    nonStarters.contains k = false) (by decide) k h

/-- Whether every phrase of a category begins with an operand. -/
def Category.BeginsOperand : Category τ → Prop
  | .phrase .operand | .phrase .implication | .phrase .assignment | .element .value
  | .element .branch | .separated .value | .separated .branch | .type | .constructor | .primary
  | .layer _ => True
  | _ => False

/-- An enclosure begins with its opening delimiter. -/
theorem Reading.kindAt_of_enclosed {opening closing : TokenKind} {ts rest : List τ} {t : Tree τ}
    (h : Reading rules (.enclosed opening closing) ts t rest) : kindAt ts 0 = opening := by
  cases h <;> assumption

/-- A block begins with a brace. -/
theorem Reading.kindAt_of_block {ts rest : List τ} {t : Tree τ}
    (h : Reading rules .block ts t rest) : kindAt ts 0 = .leftBrace := by
  cases h
  assumption

/-- A choice begins with its word. -/
theorem Reading.kindAt_of_conditional {ts rest : List τ} {t : Tree τ}
    (h : Reading rules (.phrase .conditional) ts t rest) : kindAt ts 0 = .ifKw := by
  cases h <;> assumption

/-- What begins with an operand begins with a kind of an operand. -/
theorem Reading.operandBeginnings {c : Category τ} {ts rest : List τ} {v : c.Result}
    (h : Reading rules c ts v rest) (hc : c.BeginsOperand) :
    rules.operandBeginnings.contains (kindAt ts 0) = true := by
  have common : ∀ k, (KindSet.ofList [.ident, .leftParen, .leftBracket, .arrayKw, .templKw,
      .funcKw]).contains k = true → rules.operandBeginnings.contains k = true := by
    intro k hk
    simp only [Rules.operandBeginnings, KindSet.contains_union, hk, Bool.true_or]
  have opening : ∀ sort : ConstructorSort,
      rules.operandBeginnings.contains sort.opening = true := by
    intro sort
    exact common _ (by cases sort <;> decide)
  induction h with
  | @last e _ _ _ _ _ ih | @more e _ _ _ _ _ _ _ _ _ ih _ =>
    exact ih (by cases e <;> exact hc)
  | operandType _ _ ih | implicationType _ _ ih => exact ih trivial
  | @wordConstructor sort _ _ _ _ _ _ _ hm =>
    rw [kindAt_cons_zero, hm]
    exact common _ (by cases sort <;> decide)
  | unmarkedConstructor _ hs => exact hs.kindAt_of_enclosed ▸ opening _
  | markedConstructor _ _ hs => exact hs.kindAt_of_enclosed ▸ opening _
  | literal hl =>
    simp only [Rules.operandBeginnings, KindSet.contains_union, kindAt_cons_zero, hl,
      Bool.or_true, Bool.true_or]
  | identifier _ hk => exact common _ (by rw [kindAt_cons_zero, hk]; decide)
  | paren _ h | bracket _ h => exact common _ (by rw [h.kindAt_of_enclosed]; decide)
  | prefixOperand ho =>
    simp only [Rules.operandBeginnings, KindSet.contains_union, kindAt_cons_zero, ho, Bool.or_true]
  | value _ _ ih | constructorOperand _ _ ih | valueOperand _ _ _ ih | layerOperand _ ih
  | layer _ _ ih | implicationEnd _ _ ih | implication _ _ _ ih | assignmentEnd _ _ ih
  | assignment _ _ _ ih | branch _ _ _ ih => exact ih trivial
  | _ => exact absurd hc id

/-- What begins with an operand begins with no kind with which no expression begins. -/
theorem Reading.nonStarters_of_operand (he : rules.Extensible) {c : Category τ}
    {ts rest : List τ} {v : c.Result} (h : Reading rules c ts v rest) (hc : c.BeginsOperand) :
    nonStarters.contains (kindAt ts 0) = false :=
  (he.beginnings _ (h.operandBeginnings hc)).1

/-- A control construct begins with its word. -/
theorem Reading.controlWord {ts rest : List τ} {t : Tree τ}
    (h : Reading rules .control ts t rest) : controlWords.contains (kindAt ts 0) = true := by
  cases h with
  | conditionalControl hk => rw [hk]; decide
  | caseDistinction hk | doBlock hk | doWhile hk | functionValue hk | localBinding hk =>
    rw [kindAt_cons_zero, hk]
    decide
  | loop hk => rcases hk with hk | hk <;> (rw [kindAt_cons_zero, hk]; decide)

/-- An expression begins with no separator, closer, arrow or mark of a definition. -/
theorem Reading.nonStarters_of_expression (he : rules.Extensible) {ts rest : List τ} {t : Tree τ}
    (h : Reading rules (.phrase .expression) ts t rest) :
    nonStarters.contains (kindAt ts 0) = false := by
  cases h with
  | controlExpression _ h => exact nonStarters_of_controlWord h.controlWord
  | assignmentExpression _ h => exact h.nonStarters_of_operand he trivial

/-- A kind with which no expression begins is not that of other tokens. -/
theorem kind_ne_of_nonStarters {k k' : TokenKind} (h : nonStarters.contains k = false)
    (hk' : nonStarters.contains k' = true) : k ≠ k' := by
  rintro rfl
  rw [hk'] at h
  contradiction

/-! ## Definitions and parameters -/

/-- Typing begins with a colon or with the word of a constraint. -/
theorem Reading.kindAt_of_typing {ts rest : List τ} {v : Option (Tree τ)}
    (h : Reading rules .typing ts v rest) : kindAt ts 0 = .colon ∨ kindAt ts 0 = .isKw := by
  cases h with
  | omittedType hc | plainType hc | constrainedType hc | colonConstraint hc => exact .inl hc
  | bareConstraint hm => exact .inr hm

/-- Typing marks the names before it. -/
theorem Reading.marksNames_of_typing {ts rest : List τ} {v : Option (Tree τ)}
    (h : Reading rules .typing ts v rest) : marksNames ts = true := by
  unfold marksNames
  rcases h.kindAt_of_typing with hk | hk <;> rw [hk]

/-- Names in front of a mark begin a definition. -/
theorem Reading.opensDefinition_of_names {ts rest : List τ} {ns : List (Tree τ)}
    (h : Reading rules (.separated .name) ts ns rest) (hm : marksNames rest = true) :
    opensDefinition ts = true := by
  induction ns generalizing ts with
  | nil => cases h
  | cons n ns ih =>
    cases h with
    | last h =>
      cases h with
      | name hk => rw [opensDefinition_cons, hk, hm]; rfl
    | @more _ _ mid _ _ s _ h hs ho =>
      cases h with
      | name hk =>
        have hs : kindAt (s :: mid) 0 = .comma := hs
        rw [opensDefinition_cons, hk, marksNames, hs, List.drop_succ_cons, List.drop_zero, ih ho]
        rfl

/-- Names begin with a name. -/
theorem Reading.kindAt_of_names {ts rest : List τ} {ns : List (Tree τ)}
    (h : Reading rules (.separated .name) ts ns rest) : kindAt ts 0 = .ident := by
  cases h with
  | last h | more h =>
    cases h with
    | name hk => exact hk

/-- What is read as a parameter begins like one. -/
theorem Reading.opensParameter_of_parameter {ts rest : List τ} {t : Tree τ}
    (h : Reading rules .parameter ts t rest) : opensParameter ts = true := by
  rw [opensParameter, Bool.or_eq_true]
  cases h with
  | unnamedParameter hk => exact .inl (beq_iff_eq.2 hk)
  | namedParameter _ hn ht => exact .inr (hn.opensDefinition_of_names ht.marksNames_of_typing)

/-- What follows the names of a definition marks them. -/
theorem Reading.marksNames_of_defined {i : Option τ} {d t : Tree τ} {ts rest : List τ}
    (h : Reading rules (.defined i d) ts t rest) : marksNames ts = true := by
  cases h with
  | typedOnly ht | definedBlock ht | definedValue ht => exact ht.marksNames_of_typing

/-- What is read as a definition begins like a declaration. -/
theorem Reading.opensDeclaration_of_definition {ts rest : List τ} {t : Tree τ}
    (h : Reading rules .definition ts t rest) : opensDeclaration ts = true := by
  rw [opensDeclaration, Bool.or_eq_true]
  cases h with
  | introduced hi => exact .inl (beq_iff_eq.2 hi)
  | unintroduced _ hn h => exact .inr (hn.opensDefinition_of_names h.marksNames_of_defined)

/-- Tokens that begin like a parameter, with a colon at most where others have one, begin a
definition wherever the others do. -/
theorem opensDefinition_of_opensParameter {ts ts' : List τ} (ho : opensParameter ts = true)
    (hcolon : kindAt ts 0 = .colon → kindAt ts' 0 = .colon) (hd : opensDefinition ts' = true) :
    opensDefinition ts = true := by
  rw [opensParameter, Bool.or_eq_true, beq_iff_eq] at ho
  refine ho.resolve_left fun hk => ?_
  have hdeclares : opensDeclaration ts' = true := Bool.or_eq_true_iff.2 (.inr hd)
  have hname := kindAt_of_opensDeclaration hdeclares
  rw [hcolon hk] at hname
  rcases hname with h | h <;> contradiction

/-! ## Items and statements -/

/-- An item begins with a colon or like an expression. -/
theorem Reading.kindAt_of_item (he : rules.Extensible) {ts rest : List τ} {t : Tree τ}
    (h : Reading rules (.element .item) ts t rest) :
    kindAt ts 0 = .colon ∨ nonStarters.contains (kindAt ts 0) = false := by
  cases h with
  | expressionItem _ h => exact .inr (h.nonStarters_of_expression he)
  | parameterItem ho h =>
    cases h with
    | unnamedParameter hk => exact .inl hk
    | namedParameter _ hn => exact .inr (by rw [hn.kindAt_of_names]; decide)

/-- A group begins with a colon or like an expression. -/
theorem Reading.kindAt_of_group (he : rules.Extensible) {ts rest : List τ} {vs : List (Tree τ)}
    (h : Reading rules (.separated .items) ts vs rest) :
    kindAt ts 0 = .colon ∨ nonStarters.contains (kindAt ts 0) = false := by
  cases h with
  | last h | more h =>
    cases h with
    | items h => cases h with
      | last h | more h => exact h.kindAt_of_item he

/-- A group does not begin with a closer. -/
theorem Reading.ne_closing_of_group (he : rules.Extensible) {ts rest : List τ}
    {vs : List (Tree τ)} (h : Reading rules (.separated .items) ts vs rest) {closing : TokenKind}
    (hc : closers.contains closing = true) : kindAt ts 0 ≠ closing := by
  have hnon : nonStarters.contains closing = true ∧ closing ≠ .colon :=
    TokenKind.forall_of_all (p := fun k => closers.contains k = true →
      nonStarters.contains k = true ∧ k ≠ .colon) (by decide) closing hc
  rcases h.kindAt_of_group he with hk | hk
  · exact hk ▸ hnon.2.symm
  · exact kind_ne_of_nonStarters hk hnon.1

/-- A statement begins like a declaration or like an expression. -/
theorem Reading.kindAt_of_statement (he : rules.Extensible) {ts rest : List τ} {t : Tree τ}
    (h : Reading rules (.phrase .statement) ts t rest) :
    kindAt ts 0 = .defKw ∨ nonStarters.contains (kindAt ts 0) = false := by
  cases h with
  | definitionStatement ho =>
    refine (kindAt_of_opensDeclaration ho).imp_right fun hk => ?_
    rw [hk]
    decide
  | controlStatement _ _ h | terminatedControl _ _ h =>
    exact .inr (nonStarters_of_controlWord h.controlWord)
  | expressionStatement _ _ h => exact .inr (h.nonStarters_of_expression he)

/-- An expression in front of tokens that mark no names is no parameter. -/
theorem Reading.opensParameter_of_expression (he : rules.Extensible) {ts rest : List τ}
    {t : Tree τ} (h : Reading rules (.phrase .expression) ts t rest)
    (hm : marksNames rest = false) : opensParameter ts = false := by
  have hcolon : kindAt ts 0 ≠ .colon := kind_ne_of_nonStarters (h.nonStarters_of_expression he) rfl
  refine Bool.or_eq_false_iff.2 ⟨beq_eq_false_iff_ne.2 hcolon, Bool.eq_false_iff.2 fun hd => ?_⟩
  rw [((h.opensDefinition_eq he.toPrintable).1 hd).2] at hm
  contradiction

/-- An expression in front of a semicolon is a statement. -/
theorem Reading.statement_of_expression (he : rules.Extensible) {s : τ} {ts rest : List τ}
    {t : Tree τ} (h : Reading rules (.phrase .expression) ts t (s :: rest))
    (hs : kind s = .semicolon) : Reading rules (.phrase .statement) ts t rest := by
  have hdefinition : opensDefinition ts = false :=
    (Bool.or_eq_false_iff.1
      (h.opensParameter_of_expression he (by simp [marksNames, hs]))).2
  have hword : kindAt ts 0 ≠ .defKw := kind_ne_of_nonStarters (h.nonStarters_of_expression he) rfl
  have hd : opensDeclaration ts = false :=
    Bool.or_eq_false_iff.2 ⟨beq_eq_false_iff_ne.2 hword, hdefinition⟩
  cases h with
  | controlExpression ho h => exact .terminatedControl hd ho h hs
  | assignmentExpression ho h => exact .expressionStatement hd ho (.assignmentExpression ho h) hs

/-- A statement in front of the end of a block is all of its statements. -/
theorem Reading.statements_singleton (he : rules.Extensible) {ts rest : List τ} {t : Tree τ}
    (h : Reading rules (.phrase .statement) ts t rest) (hr : kindAt rest 0 = .rightBrace) :
    Reading rules .statements ts [t] rest := by
  have hfirst : ∀ k, nonStarters.contains k = true → k ≠ .defKw → kindAt ts 0 ≠ k := by
    intro k hnon hdef
    rcases h.kindAt_of_statement he with hk | hk
    · exact hk ▸ hdef.symm
    · exact kind_ne_of_nonStarters hk hnon
  exact .statements (hfirst _ (by decide) (by decide)) (hfirst _ (by decide) (by decide)) h
    (.noStatements (.inl hr))

/-- A control construct that begins with the word of a loop is a loop. -/
theorem Reading.startsLoop_of_control (hp : rules.Proper) {ts rest : List τ} {t : Tree τ}
    (h : Reading rules .control ts t rest) (hk : kindAt ts 0 = .whileKw) :
    startsLoop ts = true := by
  cases h with
  | loop _ hc hb => rw [hc.startsLoop_eq hp, hb.kindAt_of_block]; rfl
  | conditionalControl hk' => rw [hk] at hk'; contradiction
  | caseDistinction hk' | doBlock hk' | doWhile hk' | functionValue hk' | localBinding hk' =>
    rw [kindAt_cons_zero, hk'] at hk
    contradiction

/-- A statement that begins with the word of a loop is a loop. -/
theorem Reading.startsLoop_of_statement (he : rules.Extensible) {ts rest : List τ} {t : Tree τ}
    (h : Reading rules (.phrase .statement) ts t rest) (hk : kindAt ts 0 = .whileKw) :
    startsLoop ts = true := by
  cases h with
  | definitionStatement ho =>
    rcases kindAt_of_opensDeclaration ho with h | h <;> (rw [hk] at h; contradiction)
  | controlStatement _ _ h | terminatedControl _ _ h => exact h.startsLoop_of_control he.toProper hk
  | expressionStatement _ _ h =>
    cases h with
    | controlExpression _ h => exact h.startsLoop_of_control he.toProper hk
    | assignmentExpression _ h =>
      exact absurd hk (he.beginnings _ (h.operandBeginnings trivial)).2

end ConcreteSyntax
