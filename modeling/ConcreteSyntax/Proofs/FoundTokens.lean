import ConcreteSyntax.GrammarProgress
import ConcreteSyntax.Proofs.ParserFailures

/-!
# The token of a failure

A failure carries the token that was ahead when it was raised, and it is handed on through
every phrase around. Nothing is read and nothing is given back on the way. So wherever a parser of
the grammar fails, the token of the failure is the first of the tokens that are left, and there is
no token in it exactly when none is left.
-/

namespace ConcreteSyntax

open TokenParser

namespace TokenParser

variable {τ α β : Type}

/-- That a parser, where it fails, has found the first of the tokens that it leaves. -/
def Anchored (p : TokenParser τ α) : Prop :=
  ∀ ⦃ts rest : List τ⦄ ⦃e : Failure τ⦄, p ts = .failed e rest → e.found = rest.head?

/-! ## Combinators -/

theorem anchored_pure (a : α) : Anchored (pure a : TokenParser τ α) :=
  fun _ _ _ h => absurd h pure_ne_failed

theorem anchored_ahead : Anchored (ahead : TokenParser τ (List τ)) := by
  rintro ts rest e ⟨⟩

/-- A failure is raised with the token that is ahead. -/
theorem anchored_fail (e : Expectation) : Anchored (fail e : TokenParser τ α) := by
  rintro ts rest e' ⟨⟩
  rfl

theorem anchored_next? : Anchored (next? : TokenParser τ (Option τ)) := by
  rintro (_ | ⟨t, ts⟩) rest e ⟨⟩

/-- A sequence hands on the failure of its first part, with the tokens that are left there. -/
theorem Anchored.bind {p : TokenParser τ α} {f : α → TokenParser τ β} (hp : p.Anchored)
    (hf : ∀ a, (f a).Anchored) : (p >>= f).Anchored := by
  intro ts rest e h
  rcases bind_eq_failed h with h | ⟨a, mid, -, h⟩
  · exact hp h
  · exact hf a h

/-- A repetition hands on the failure of a turn. The induction runs over the budget. -/
theorem Anchored.many {p : TokenParser τ (Option α)} (hp : p.Anchored) : (many p).Anchored := by
  have hwithin : ∀ budget : List τ, (manyWithin p budget).Anchored := by
    intro budget
    induction budget with
    | nil => rintro ts rest e ⟨⟩
    | cons b budget ih =>
      intro ts rest e h
      rw [manyWithin] at h
      cases hts : p ts with
      | failed e' rest' =>
        rw [hts] at h
        cases h
        exact hp hts
      | done a mid =>
        rw [hts] at h
        cases a with
        | none => cases h
        | some a =>
          cases hmid : manyWithin p budget mid with
          | failed e' rest' =>
            simp only [hmid] at h
            cases h
            exact ih hmid
          | done as rest' =>
            simp only [hmid] at h
            cases h
  exact fun ts _ _ h => hwithin ts h

variable [HasKind τ]

theorem anchored_peek : Anchored (peek : TokenParser τ TokenKind) := by
  rintro ts rest e ⟨⟩

theorem anchored_eat (k : TokenKind) : Anchored (eat k : TokenParser τ (Option τ)) :=
  fun _ _ _ h => absurd h eat_ne_failed

theorem anchored_eatAny (kinds : KindSet) : Anchored (eatAny kinds : TokenParser τ (Option τ)) :=
  fun _ _ _ h => absurd h eatAny_ne_failed

/-- An expected token that is missing is not read. -/
theorem anchored_expect (k : TokenKind) : Anchored (expect k : TokenParser τ τ) := by
  intro ts rest e h
  obtain ⟨rfl, rfl⟩ := failure_of_expect h
  rfl

variable {p : TokenParser τ α} (hp : p.Anchored) (k : TokenKind)

include hp

theorem Anchored.unlessNext : (unlessNext k p).Anchored :=
  fun _ _ _ h => hp (unlessNext_eq_failed h).2

theorem Anchored.behind : (behind k p).Anchored := by
  intro ts rest e h
  obtain ⟨-, mid, -, -, h⟩ := behind_eq_failed h
  exact hp h

theorem Anchored.separatedBy : (separatedBy k p).Anchored :=
  hp.bind fun _ => (hp.behind k).many.bind fun _ => anchored_pure _

end TokenParser

namespace Grammar

variable {τ : Type} [HasKind τ]

/-! ## Groups, parameters and types -/

theorem anchored_identifier : (identifier : TokenParser τ (Tree τ)).Anchored :=
  (anchored_expect _).bind fun _ => anchored_pure _

theorem anchored_identifiers : (identifiers : TokenParser τ (Tree τ)).Anchored :=
  (anchored_identifier.separatedBy _).bind fun _ => anchored_pure _

variable {g : Grammar τ} (hg : ∀ phrase, (g.phrase phrase).Anchored)

include hg

omit [HasKind τ] in
theorem anchored_type : g.type.Anchored := by
  unfold Grammar.type
  split <;> exact hg _

theorem anchored_plainType? : g.plainType?.Anchored := by
  refine anchored_peek.bind fun next => ?_
  split
  · exact anchored_pure none
  · exact (anchored_type hg).bind fun _ => anchored_pure _

/-- The colon that a declaration lacks is looked for last, at the same token as the constraint. -/
theorem anchored_typing : g.typing.Anchored := by
  refine (anchored_eat _).bind fun colon => ?_
  cases colon with
  | none =>
    refine (anchored_eat _).bind fun mark => ?_
    cases mark with
    | none => exact anchored_fail _
    | some mark => exact (anchored_type hg).bind fun _ => anchored_pure _
  | some colon =>
    refine (anchored_plainType? hg).bind fun type => (anchored_eat _).bind fun mark => ?_
    cases mark with
    | none => exact anchored_pure type
    | some mark => exact (anchored_type hg).bind fun _ => anchored_pure _

theorem anchored_parameter : g.parameter.Anchored :=
  (anchored_identifiers.unlessNext _).bind fun _ => (anchored_typing hg).bind fun _ =>
    ((hg _).behind _).bind fun _ => anchored_pure _

theorem anchored_item : g.item.Anchored := by
  refine anchored_ahead.bind fun ts => ?_
  split
  · exact anchored_parameter hg
  · exact hg _

theorem anchored_items : g.items.Anchored :=
  ((anchored_item hg).separatedBy _).bind fun _ => anchored_pure _

theorem anchored_group : g.group.Anchored :=
  ((anchored_items hg).separatedBy _).bind fun _ => anchored_pure _

theorem anchored_enclosed (opening closing : TokenKind) : (g.enclosed opening closing).Anchored :=
  (anchored_expect _).bind fun _ => ((anchored_group hg).unlessNext _).bind fun _ =>
    (anchored_expect _).bind fun _ => anchored_pure _

theorem anchored_paren : g.paren.Anchored := anchored_enclosed hg _ _

theorem anchored_bracket : g.bracket.Anchored := anchored_enclosed hg _ _

/-! ## Blocks and type constructors -/

theorem anchored_statement? : g.statement?.Anchored := by
  refine anchored_peek.bind fun next => ?_
  split
  · exact anchored_pure none
  · exact anchored_pure none
  · exact (hg _).bind fun _ => anchored_pure _

theorem anchored_block : g.block.Anchored :=
  (anchored_expect _).bind fun _ => (anchored_statement? hg).many.bind fun _ =>
    (anchored_expect _).bind fun _ => anchored_pure _

theorem anchored_specifier (sort : ConstructorSort) : (g.specifier sort).Anchored := by
  cases sort with
  | function => exact anchored_paren hg
  | array | template => exact anchored_bracket hg

omit [HasKind τ] hg in
theorem anchored_mark? (marked : Bool) : (mark? marked : TokenParser τ (Option τ)).Anchored := by
  cases marked with
  | false => exact anchored_pure none
  | true => exact anchored_next?

theorem anchored_lookaheadConstructor : g.lookaheadConstructor.Anchored := by
  refine anchored_ahead.bind fun ts => ?_
  split
  · exact anchored_pure none
  · exact (anchored_specifier hg _).bind fun _ => (anchored_mark? _).bind fun _ =>
      (hg _).bind fun _ => anchored_pure _

theorem anchored_introducedConstructor (word : TokenKind) (sort : ConstructorSort) :
    (g.introducedConstructor word sort).Anchored :=
  (anchored_expect _).bind fun _ => (anchored_specifier hg _).bind fun _ =>
    (hg _).bind fun _ => anchored_pure _

theorem anchored_keywordConstructor : g.keywordConstructor.Anchored := by
  refine anchored_peek.bind fun next => ?_
  split
  · exact anchored_introducedConstructor hg _ _
  · exact anchored_introducedConstructor hg _ _
  · exact anchored_introducedConstructor hg _ _
  · exact anchored_pure none

theorem anchored_arrowConstructor : g.arrowConstructor.Anchored := by
  rw [arrowConstructor_eq_scan]
  refine anchored_peek.bind fun next => ?_
  split
  · exact (anchored_bracket hg).bind fun _ => (anchored_eat _).bind fun _ =>
      (hg _).bind fun _ => anchored_pure _
  · refine anchored_ahead.bind fun ts => ?_
    split
    · exact (anchored_paren hg).bind fun _ => (anchored_expect _).bind fun _ =>
        (hg _).bind fun _ => anchored_pure _
    · exact anchored_pure none
  · exact anchored_pure none

theorem anchored_parameterConstructor : g.parameterConstructor.Anchored := by
  refine anchored_peek.bind fun next => ?_
  split
  · exact (anchored_bracket hg).bind fun _ => (hg _).bind fun _ => anchored_pure _
  · refine anchored_ahead.bind fun ts => ?_
    split
    · exact (anchored_paren hg).bind fun _ => (hg _).bind fun _ => anchored_pure _
    · exact anchored_pure none
  · exact anchored_pure none

theorem anchored_constructor? : g.constructor?.Anchored := by
  unfold Grammar.constructor?
  split
  · exact anchored_lookaheadConstructor hg
  · exact anchored_keywordConstructor hg
  · exact anchored_arrowConstructor hg
  · exact anchored_parameterConstructor hg
  · exact anchored_pure none

/-! ## Operands and layers of operators -/

theorem anchored_primary : g.primary.Anchored := by
  refine (anchored_eatAny _).bind fun literal => ?_
  cases literal with
  | some literal => exact anchored_pure _
  | none =>
    refine (anchored_eat _).bind fun name => ?_
    cases name with
    | some name => exact anchored_pure _
    | none =>
      refine anchored_peek.bind fun next => ?_
      split
      · exact anchored_paren hg
      · exact anchored_bracket hg
      · exact anchored_fail _

theorem anchored_suffix? : g.suffix?.Anchored := by
  refine anchored_peek.bind fun next => ?_
  split
  · exact (anchored_paren hg).bind fun _ => anchored_pure _
  · exact (anchored_bracket hg).bind fun _ => anchored_pure _
  · refine (anchored_eat _).bind fun dot => ?_
    cases dot with
    | some dot => exact anchored_identifier.bind fun _ => anchored_pure _
    | none =>
      dsimp only
      split
      · exact (anchored_eat _).bind fun _ => anchored_pure _
      · exact anchored_pure none

theorem anchored_suffixed : g.suffixed.Anchored :=
  (anchored_primary hg).bind fun _ => (anchored_suffix? hg).many.bind fun _ => anchored_pure _

theorem anchored_operand : g.operand.Anchored := by
  refine (anchored_eatAny _).bind fun operator => ?_
  cases operator with
  | some operator => exact (hg _).bind fun _ => anchored_pure _
  | none =>
    refine (anchored_constructor? hg).bind fun constructor => ?_
    cases constructor with
    | some constructor => exact anchored_pure _
    | none => exact anchored_suffixed hg

omit hg in
theorem anchored_leftAssociative {operators : KindSet} {operand : TokenParser τ (Tree τ)}
    (h : operand.Anchored) : (leftAssociative operators operand).Anchored := by
  have hoperation : (operation? operators operand).Anchored := by
    refine (anchored_eatAny _).bind fun operator => ?_
    cases operator with
    | none => exact anchored_pure none
    | some operator => exact h.bind fun _ => anchored_pure _
  exact h.bind fun _ => hoperation.many.bind fun _ => anchored_pure _

theorem anchored_disjunction : g.disjunction.Anchored :=
  anchored_leftAssociative <| anchored_leftAssociative <| anchored_leftAssociative <|
    anchored_leftAssociative <| anchored_leftAssociative <| anchored_leftAssociative <|
    anchored_operand hg

theorem anchored_implication : g.implication.Anchored := by
  refine (anchored_disjunction hg).bind fun left => (anchored_eatAny _).bind fun mark => ?_
  cases mark with
  | none => exact anchored_pure _
  | some mark => exact (hg _).bind fun _ => anchored_pure _

theorem anchored_assignment : g.assignment.Anchored := by
  refine (anchored_implication hg).bind fun left => (anchored_eat _).bind fun mark => ?_
  cases mark with
  | none => exact anchored_pure _
  | some mark => exact (hg _).bind fun _ => anchored_pure _

/-! ## Control constructs -/

theorem anchored_alternative : g.alternative.Anchored := by
  refine anchored_peek.bind fun next => ?_
  split
  · exact hg _
  · exact anchored_block hg

theorem anchored_conditional : g.conditional.Anchored := by
  refine (anchored_expect _).bind fun keyword => (anchored_paren hg).bind fun condition =>
    (anchored_block hg).bind fun consequence => (anchored_eat _).bind fun mark => ?_
  cases mark with
  | none => exact anchored_pure _
  | some mark => exact (anchored_alternative hg).bind fun _ => anchored_pure _

theorem anchored_branch : g.branch.Anchored :=
  (anchored_disjunction hg).bind fun _ => (anchored_expect _).bind fun _ =>
    (anchored_block hg).bind fun _ => anchored_pure _

theorem anchored_caseDistinction : g.caseDistinction.Anchored :=
  (anchored_expect _).bind fun _ => (anchored_paren hg).bind fun _ =>
    ((anchored_branch hg).separatedBy _).bind fun _ => anchored_pure _

theorem anchored_loop (word : TokenKind) : (g.loop word).Anchored :=
  (anchored_expect _).bind fun _ => (anchored_paren hg).bind fun _ =>
    (anchored_block hg).bind fun _ => anchored_pure _

theorem anchored_repetition? : g.repetition?.Anchored := by
  refine anchored_peek.bind fun next => anchored_ahead.bind fun ts => ?_
  split
  · exact (anchored_expect _).bind fun _ => (anchored_paren hg).bind fun _ => anchored_pure _
  · exact anchored_pure none

theorem anchored_doBlock : g.doBlock.Anchored :=
  (anchored_expect _).bind fun _ => (anchored_block hg).bind fun _ =>
    (anchored_repetition? hg).bind fun _ => anchored_pure _

theorem anchored_functionHead : g.functionHead.Anchored := by
  refine anchored_peek.bind fun next => ?_
  split
  · exact (anchored_bracket hg).bind fun _ => (anchored_paren hg).bind fun _ => anchored_pure _
  · exact anchored_paren hg

theorem anchored_functionValue : g.functionValue.Anchored :=
  (anchored_expect _).bind fun _ => (anchored_functionHead hg).bind fun _ =>
    (anchored_block hg).bind fun _ => anchored_pure _

theorem anchored_scope : g.scope.Anchored := by
  refine anchored_peek.bind fun next => ?_
  split
  · exact anchored_block hg
  · exact hg _

theorem anchored_localBinding : g.localBinding.Anchored :=
  (anchored_expect _).bind fun _ => (anchored_paren hg).bind fun _ =>
    (anchored_scope hg).bind fun _ => anchored_pure _

theorem anchored_control : g.control.Anchored := by
  refine anchored_peek.bind fun next => ?_
  split
  · exact anchored_conditional hg
  · exact anchored_caseDistinction hg
  · exact anchored_loop hg _
  · exact anchored_loop hg _
  · exact anchored_doBlock hg
  · exact anchored_functionValue hg
  · exact anchored_localBinding hg
  · exact anchored_fail _

/-! ## Expressions, definitions and statements -/

theorem anchored_expression : g.expression.Anchored := by
  refine anchored_ahead.bind fun ts => ?_
  split
  · exact anchored_control hg
  · exact anchored_assignment hg

theorem anchored_declarators (introduced : Bool) : (g.declarators introduced).Anchored := by
  cases introduced with
  | false => exact anchored_identifiers
  | true => exact ((anchored_suffixed hg).separatedBy _).bind fun _ => anchored_pure _

omit hg in
theorem anchored_terminator? (typed : Bool) :
    (terminator? typed : TokenParser τ (Option τ)).Anchored := by
  cases typed with
  | false => exact anchored_pure none
  | true => exact anchored_eat _

theorem anchored_definiens : g.definiens.Anchored := by
  refine anchored_peek.bind fun next => ?_
  split
  · exact (anchored_block hg).bind fun _ => anchored_pure _
  · exact (anchored_expect _).bind fun _ => (hg _).bind fun _ =>
      (anchored_expect _).bind fun _ => anchored_pure _

theorem anchored_definition : g.definition.Anchored := by
  refine (anchored_eat _).bind fun introducer => (anchored_declarators hg _).bind fun declarator =>
    (anchored_typing hg).bind fun type => (anchored_terminator? _).bind fun terminator => ?_
  cases terminator with
  | some terminator => exact anchored_pure _
  | none => exact (anchored_definiens hg).bind fun _ => anchored_pure _

theorem anchored_declaration : g.declaration.Anchored := by
  refine anchored_ahead.bind fun ts => ?_
  split
  · exact anchored_definition hg
  · exact anchored_fail _

theorem anchored_statement : g.statement.Anchored := by
  refine anchored_ahead.bind fun ts => ?_
  split
  · exact anchored_definition hg
  · split
    · exact (anchored_control hg).bind fun _ => (anchored_eat _).bind fun _ => anchored_pure _
    · exact (anchored_expression hg).bind fun _ => (anchored_expect _).bind fun _ =>
        anchored_pure _

/-! ## All phrases -/

/-- Every phrase is anchored if the phrases nested in it are. -/
theorem anchored_body (phrase : Phrase) : (g.body phrase).Anchored := by
  cases phrase with
  | operand => exact anchored_operand hg
  | implication => exact anchored_implication hg
  | assignment => exact anchored_assignment hg
  | expression => exact anchored_expression hg
  | statement => exact anchored_statement hg
  | conditional => exact anchored_conditional hg

omit hg

/-- The phrases of every depth are anchored. -/
theorem anchored_nested (rules : Rules) (depth : Nat) (phrase : Phrase) :
    (nested rules depth phrase : TokenParser τ (Tree τ)).Anchored := by
  induction depth generalizing phrase with
  | zero => exact anchored_fail _
  | succ depth ih => exact anchored_body (g := ⟨rules, nested rules depth⟩) ih phrase

/-- The phrases of the grammar of a dialect are anchored. -/
theorem anchored_ofRules (rules : Rules) (phrase : Phrase) :
    ((ofRules rules : Grammar τ).phrase phrase).Anchored :=
  fun ts _ _ h => anchored_nested rules (ts.length + 1) phrase h

/-- Where a file is refused, the token that was found is the first one that is left. -/
theorem anchored_file (rules : Rules) : (ofRules rules : Grammar τ).file.Anchored :=
  ((anchored_declaration (anchored_ofRules rules)).unlessNext _).many.bind fun _ =>
    anchored_pure _

end Grammar

end ConcreteSyntax
