import ConcreteSyntax.Proofs.BalancedBrackets
import ConcreteSyntax.Proofs.PrecedenceLayers

/-!
# What follows a phrase

Where a phrase ends depends on the tokens behind it, but only on a few properties of
them. Tokens that resemble the ones behind a phrase may take their place, and so may any
tokens behind a semicolon. Whether an expression looks like the names of a definition
depends on what follows, too: only a name alone does.
-/

namespace ConcreteSyntax

open TokenParser Grammar

/-- Properties of the tables of a dialect on which printing relies. -/
structure Rules.Printable (rules : Rules) : Prop extends rules.Proper where
  /-- Implications are written with arrows. -/
  arrows : rules.ArrowImplications
  /-- No result of a constructor begins with a semicolon or a branch arrow. -/
  starts : ∀ k, rules.operandStart.contains k = true → k ≠ .semicolon ∧ k ≠ .fatArrow
  /-- Where constructors are recognised by what follows them, the arrow of branches is no
  operator. -/
  lookahead : rules.constructors = .lookahead →
    rules.implicationOperators.contains .fatArrow = false
  /-- A name is no literal. -/
  nameLiteral : rules.literals.contains .ident = false
  /-- A name is no prefix operator. -/
  namePrefix : rules.prefixOperators.contains .ident = false

/-- The tables of the dialects are printable. -/
theorem Dialect.printable_rules (d : Dialect) : d.rules.Printable where
  toProper := d.proper_rules
  arrows := d.arrowImplications
  starts := by
    have hall : ∀ k ∈ TokenKind.all, d.rules.operandStart.contains k = true →
        k ≠ .semicolon ∧ k ≠ .fatArrow := by cases d <;> decide
    exact fun k => hall k k.mem_all
  lookahead := by cases d <;> decide
  nameLiteral := by cases d <;> decide
  namePrefix := by cases d <;> decide

variable {τ : Type} [HasKind τ] {rules : Rules}

/-! ## Tokens that may follow instead of others -/

/-- That tokens go on like others, as far as the end of a phrase depends on that. -/
structure GoesOnLike (rules : Rules) (rest rest' : List τ) : Prop where
  /-- The next tokens are of the same kind. -/
  kind : kindAt rest' 0 = kindAt rest 0
  /-- The next token does not begin a loop. -/
  noLoop : kindAt rest 0 ≠ .whileKw
  /-- Behind the arrow of a branch the tokens are of the same kind. -/
  arrow : rules.constructors = .lookahead → kindAt rest 0 = .fatArrow →
    kindAt rest' 1 = kindAt rest 1
  /-- Behind a comma the tokens look alike. -/
  comma : kindAt rest 0 = .comma → opensDefinition (rest'.drop 1) = opensDefinition (rest.drop 1)

/-- That tokens may follow a phrase instead of others: they go on like these, or a
semicolon comes next. -/
def MayReplace (rules : Rules) (rest rest' : List τ) : Prop :=
  kindAt rest' 0 = .semicolon ∨ GoesOnLike rules rest rest'

namespace MayReplace

variable {rest rest' : List τ}

/-- Tokens that begin with the same kind may follow, unless it is an arrow, a comma or the
word of a loop. -/
theorem of_kind {k : TokenKind} (hr : kindAt rest 0 = k) (hr' : kindAt rest' 0 = k)
    (hk : k ≠ .whileKw ∧ k ≠ .fatArrow ∧ k ≠ .comma := by decide) : MayReplace rules rest rest' :=
  .inr ⟨hr'.trans hr.symm, hr ▸ hk.1, fun _ h => absurd (hr.symm.trans h) hk.2.1,
    fun h => absurd (hr.symm.trans h) hk.2.2⟩

/-- What the kind of the next token excludes stays excluded, unless a semicolon has it. -/
theorem kind_preserved (h : MayReplace rules rest rest') {p : TokenKind → Prop}
    (hp : p (kindAt rest 0)) (hs : p .semicolon) : p (kindAt rest' 0) := by
  rcases h with h | h
  · exact h ▸ hs
  · exact h.kind ▸ hp

/-- A kind that does not come next does not do so after the replacement. -/
theorem kind_ne (h : MayReplace rules rest rest') {k : TokenKind} (hk : kindAt rest 0 ≠ k)
    (hs : k ≠ .semicolon) : kindAt rest' 0 ≠ k :=
  h.kind_preserved (p := (· ≠ k)) hk hs.symm

end MayReplace

/-! ## The first tokens of control constructs -/

/-- Whether a control construct begins depends on the first token alone. -/
theorem opensControl_congr {ts ts' : List τ}
    (h : kindAt ts' 0 = kindAt ts 0) : opensControl rules ts' = opensControl rules ts := by
  simp only [opensControl, h]

/-- A loop begins where a block follows a condition. -/
theorem Reading.startsLoop_eq (hp : rules.Proper) {ts rest : List τ}
    {c : Tree τ} (h : Reading rules (.enclosed .leftParen .rightParen) ts c rest) (w : τ) :
    startsLoop (w :: ts) = (kindAt rest 0 == .leftBrace) := by
  have hopening : kindAt ts 0 = .leftParen := by cases h <;> assumption
  have hdel : IsDelimiters .leftParen .rightParen := by unfold IsDelimiters; decide
  simp [startsLoop_eq_scan, hopening, h.bracketFollowedBy_eq hp hdel]

/-! ## Names in front of a mark -/

/-- Whether the tokens behind a name make it the name of a definition. -/
def marksNames (rest : List τ) : Bool :=
  match kindAt rest 0 with
  | .comma => opensDefinition (rest.drop 1)
  | .colon | .isKw => true
  | _ => false

/-- A definition begins with a name that the tokens behind it mark. -/
theorem opensDefinition_cons (n : τ) (rest : List τ) :
    opensDefinition (n :: rest) = (kind n == .ident && marksNames rest) := by
  cases rest with
  | nil => simp [opensDefinition, marksNames, kindAt]
  | cons m rest => rfl

/-- A declaration begins with the introducing word or with a name. -/
theorem kindAt_of_opensDeclaration {ts : List τ} (h : opensDeclaration ts = true) :
    kindAt ts 0 = .defKw ∨ kindAt ts 0 = .ident := by
  rw [opensDeclaration, Bool.or_eq_true] at h
  rcases h with h | h
  · exact .inl (by simpa using h)
  · cases ts with
    | nil => contradiction
    | cons n ts =>
      rw [opensDefinition_cons, Bool.and_eq_true, beq_iff_eq] at h
      exact .inr h.1

/-- The word of a control construct begins no declaration. -/
theorem opensDeclaration_of_opensControl {ts : List τ} (h : opensControl rules ts = true) :
    opensDeclaration ts = false := by
  have hall : ∀ k ∈ TokenKind.all, controlWords.contains k = true → k ≠ .defKw ∧ k ≠ .ident := by
    decide
  obtain ⟨hdef, hident⟩ := hall _ (TokenKind.mem_all _) (Bool.and_eq_true _ _ ▸ h).2
  refine Bool.or_eq_false_iff.2 ⟨beq_eq_false_iff_ne.2 hdef, ?_⟩
  cases ts with
  | nil => rfl
  | cons n ts =>
    rw [opensDefinition_cons]
    simp [show kind n ≠ .ident from hident]

/-- Tokens that may replace others mark a name only if those do. -/
theorem MayReplace.marksNames {rest rest' : List τ} (h : MayReplace rules rest rest')
    (hm : marksNames rest' = true) : marksNames rest = true := by
  unfold ConcreteSyntax.marksNames at hm ⊢
  rcases h with h | h
  · rw [h] at hm
    contradiction
  · rw [h.kind] at hm
    split at hm
    · next hk => exact h.comma hk ▸ hm
    · rfl
    · rfl
    · contradiction

/-- A token that marks a name continues no value and is no operator. -/
theorem ends_of_marksNames (hp : rules.Printable) {rest : List τ} (h : marksNames rest = true) :
    continuesValue rules (kindAt rest 0) = false ∧
      (∀ n, (layerOperators n).contains (kindAt rest 0) = false) ∧
      rules.implicationOperators.contains (kindAt rest 0) = false ∧ kindAt rest 0 ≠ .eq := by
  have hk : kindAt rest 0 = .comma ∨ kindAt rest 0 = .colon ∨ kindAt rest 0 = .isKw := by
    unfold marksNames at h
    split at h <;> simp_all
  have hlayer : ∀ n, (layerOperators n).contains (kindAt rest 0) = false := by
    intro n
    refine Bool.eq_false_iff.2 fun ho => ?_
    have hlevel := (operatorLevel?_of_layer ho).2.2.2.2
    rcases hk with hk | hk | hk <;> simp [hk, operatorLevel?] at hlevel
  have himplication : rules.implicationOperators.contains (kindAt rest 0) = false := by
    refine Bool.eq_false_iff.2 fun ho => ?_
    rcases hp.arrows _ ho with h | h <;> rcases hk with hk | hk | hk <;> simp [hk] at h
  refine ⟨?_, hlayer, himplication, ?_⟩
  · rcases hk with hk | hk | hk <;> rw [hk] <;> simp [continuesValue]
  · rcases hk with hk | hk | hk <;> rw [hk] <;> decide

/-- A name that is marked reads as an expression of its own. -/
theorem Reading.of_marked_name (hp : rules.Printable) {n : τ} (hn : kind n = .ident) {rest : List τ}
    (hm : marksNames rest = true) :
    Reading rules (.phrase .expression) (n :: rest) (.identifier n) rest := by
  obtain ⟨hvalue, hlayers, himplication, heq⟩ := ends_of_marksNames hp hm
  have hzero : kindAt (n :: rest) 0 = .ident := hn
  have hvalueReading : Reading rules (.element .value) (n :: rest) (.identifier n) rest :=
    .value (.identifier (by rw [hn]; exact hp.nameLiteral) hn) (.suffixesEnd hvalue)
  have hnone : opensConstructor rules (n :: rest) = false := by
    unfold opensConstructor
    cases rules.constructors with
    | lookahead =>
      simp [constructorAhead?, hzero]
    | _ => simp [hzero]
  have hoperand : Reading rules (.phrase .operand) (n :: rest) (.identifier n) rest :=
    .valueOperand (by rw [hzero]; exact hp.namePrefix) hnone hvalueReading
  have hlayer : ∀ k, Reading rules (.layer k) (n :: rest) (.identifier n) rest := by
    intro k
    induction k with
    | zero => exact .layerOperand hoperand
    | succ k ih => exact .layer ih (.operationsEnd (hlayers k))
  have hcontrol : opensControl rules (n :: rest) = false := by
    have hword : controlWords.contains .ident = false := by decide
    simp [opensControl, hzero, hword]
  exact .assignmentExpression hcontrol
    (.assignmentEnd (.implicationEnd (hlayer 6) himplication) heq)

/-- Readings of the same phrase of the same tokens have the same result and rest. -/
theorem Reading.phrase_unique (hp : rules.Proper) {p : Phrase} {ts rest rest' : List τ}
    {v v' : Tree τ} (h : Reading rules (.phrase p) ts v rest)
    (h' : Reading rules (.phrase p) ts v' rest') : v = v' ∧ rest = rest' := by
  have hdone : (ofRules rules).phrase p ts = .done v rest := h.yields hp
  have hdone' : (ofRules rules).phrase p ts = .done v' rest' := h'.yields hp
  rw [hdone] at hdone'
  exact ⟨(Outcome.done.inj hdone').1, (Outcome.done.inj hdone').2⟩

/-- That a category reads a name only as a name alone. What has been read before is the
name if the result is. -/
def Category.ReadsName : (c : Category τ) → List τ → c.Result → List τ → Prop
  | .phrase .statement, _, _, _ => True
  | .phrase .conditional, _, v, _ => ∀ n, v ≠ .identifier n
  | .phrase _, ts, v, rest => ∀ n, v = .identifier n → ts = n :: rest
  | .element .value, ts, v, rest => ∀ n, v = .identifier n → ts = n :: rest
  | .enclosed _ _, _, v, _ => ∀ n, v ≠ .identifier n
  | .constructor, _, v, _ => ∀ n, v ≠ .identifier n
  | .control, _, v, _ => ∀ n, v ≠ .identifier n
  | .primary, ts, v, rest => ∀ n, v = .identifier n → ts = n :: rest
  | .layer _, ts, v, rest => ∀ n, v = .identifier n → ts = n :: rest
  | .suffixes value, ts, v, rest => ∀ n, v = .identifier n → value = v ∧ ts = rest
  | .operations _ left, ts, v, rest => ∀ n, v = .identifier n → left = v ∧ ts = rest
  | _, _, _, _ => True

/-- A name is read from one token. -/
theorem Reading.readsName {c : Category τ} {ts rest : List τ} {v : c.Result}
    (h : Reading rules c ts v rest) : c.ReadsName ts v rest := by
  have hbuild : ∀ (sort : ConstructorSort) (m : Option τ) (s r : Tree τ) (n : τ),
      sort.build m s r ≠ .identifier n := by
    intro sort m s r n h
    cases sort <;> cases h
  induction h with
  | emptyEnclosure | enclosure => rintro n ⟨⟩
  | wordConstructor | unmarkedConstructor | markedConstructor => exact fun n => hbuild _ _ _ _ n
  | literal => rintro n ⟨⟩
  | identifier => rintro n ⟨⟩; rfl
  | paren _ _ ih => exact fun n hn => absurd hn (ih n)
  | bracket _ _ ih => exact fun n hn => absurd hn (ih n)
  | suffixesEnd => exact fun n _ => ⟨rfl, rfl⟩
  | call _ _ _ ih | index _ _ _ ih | member _ _ _ ih | caret _ _ _ ih =>
    intro n hn
    cases (ih n hn).1.trans hn
  | value _ _ ih ih' =>
    intro n hn
    obtain ⟨hv, rfl⟩ := ih' n hn
    exact ih n (hv.trans hn)
  | prefixOperand => rintro n ⟨⟩
  | constructorOperand _ _ ih => exact fun n hn => absurd hn (ih n)
  | valueOperand _ _ _ ih => exact ih
  | layerOperand _ ih => exact ih
  | layer _ _ ih ih' =>
    intro n hn
    obtain ⟨hv, rfl⟩ := ih' n hn
    exact ih n (hv.trans hn)
  | operationsEnd => exact fun n _ => ⟨rfl, rfl⟩
  | operation _ _ _ _ ih =>
    intro n hn
    cases (ih n hn).1.trans hn
  | implicationEnd _ _ ih => exact ih
  | implication => rintro n ⟨⟩
  | assignmentEnd _ _ ih => exact ih
  | assignment => rintro n ⟨⟩
  | conditional | choice => rintro n ⟨⟩
  | conditionalControl _ _ ih => exact ih
  | caseDistinction | loop | doBlock | doWhile | functionValue | localBinding =>
    rintro n ⟨⟩
  | controlExpression _ _ ih => exact fun n hn => absurd hn (ih n)
  | assignmentExpression _ _ ih => exact ih
  | _ => trivial

/-- An expression looks like the names of a definition exactly when it is a name that the
tokens behind it mark. -/
theorem Reading.opensDefinition_eq (hp : rules.Printable) {ts rest : List τ} {v : Tree τ}
    (h : Reading rules (.phrase .expression) ts v rest) :
    opensDefinition ts = true ↔ (∃ n, v = .identifier n ∧ kindAt ts 0 = .ident) ∧
      marksNames rest = true := by
  constructor
  · intro ho
    cases ts with
    | nil => simp [opensDefinition] at ho
    | cons n us =>
      rw [opensDefinition_cons, Bool.and_eq_true, beq_iff_eq] at ho
      obtain ⟨hn, hm⟩ := ho
      obtain ⟨rfl, rfl⟩ := h.phrase_unique hp.toProper (.of_marked_name hp hn hm)
      exact ⟨⟨n, rfl, hn⟩, hm⟩
  · rintro ⟨⟨n, rfl, hn⟩, hm⟩
    obtain rfl : ts = n :: rest := h.readsName n rfl
    rw [opensDefinition_cons, Bool.and_eq_true, beq_iff_eq]
    exact ⟨hn, hm⟩

end ConcreteSyntax
