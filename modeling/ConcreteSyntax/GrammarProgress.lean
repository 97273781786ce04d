import ConcreteSyntax.DeclarationGrammar
import ConcreteSyntax.Proofs.ScannedBrackets
import ConcreteSyntax.ParserProgress

/-!
# Progress of the grammar

If the nested phrases consume, then so does every phrase that the grammar makes of
them. Since the phrases of depth zero only fail, all phrases of every depth consume:
whatever is parsed takes at least one token from the front, and failure leaves the
end of the list.
-/

namespace ConcreteSyntax

open TokenParser

namespace Grammar

variable {τ : Type} [HasKind τ]

/-! ## Groups, parameters and types -/

theorem consumes_identifier : (identifier : TokenParser τ (Tree τ)).Consumes :=
  (consumes_expect _).bind fun _ => trims_pure _

theorem consumes_identifiers : (identifiers : TokenParser τ (Tree τ)).Consumes :=
  (consumes_identifier.separatedBy _).bind fun _ => trims_pure _

variable {g : Grammar τ} (hg : ∀ phrase, (g.phrase phrase).Consumes)

include hg

omit [HasKind τ] in
theorem consumes_type : g.type.Consumes := by
  unfold Grammar.type
  split
  · exact hg _
  · exact hg _

theorem trims_plainType? : g.plainType?.Trims := by
  refine trims_peek.bind fun next => ?_
  split
  · exact trims_pure none
  · exact (consumes_type hg).trims.bind fun _ => trims_pure _

theorem consumes_typing : g.typing.Consumes := by
  refine (advances_eat _).bind_consumes ?_ fun colon => ?_
  · refine (advances_eat _).bind_consumes (consumes_fail _) fun mark => ?_
    exact (consumes_type hg).trims.bind fun _ => trims_pure _
  · refine (trims_plainType? hg).bind fun type => (advances_eat _).trims.bind fun mark => ?_
    cases mark with
    | none => exact trims_pure type
    | some mark => exact (consumes_type hg).trims.bind fun _ => trims_pure _

theorem consumes_parameter : g.parameter.Consumes :=
  (consumes_identifiers.unlessNext _).trims.bind_consumes fun _ =>
    (consumes_typing hg).bind fun _ => ((hg _).trims.behind _).trims.bind fun _ => trims_pure _

theorem consumes_item : g.item.Consumes := by
  refine trims_ahead.bind_consumes fun ts => ?_
  split
  · exact consumes_parameter hg
  · exact hg _

theorem consumes_items : g.items.Consumes :=
  ((consumes_item hg).separatedBy _).bind fun _ => trims_pure _

theorem consumes_group : g.group.Consumes :=
  ((consumes_items hg).separatedBy _).bind fun _ => trims_pure _

theorem consumes_enclosed (opening closing : TokenKind) : (g.enclosed opening closing).Consumes :=
  (consumes_expect _).bind fun _ => ((consumes_group hg).unlessNext _).trims.bind fun _ =>
    (consumes_expect _).trims.bind fun _ => trims_pure _

theorem consumes_paren : g.paren.Consumes := consumes_enclosed hg _ _

theorem consumes_bracket : g.bracket.Consumes := consumes_enclosed hg _ _

/-! ## Blocks and type constructors -/

theorem advances_statement? : g.statement?.Advances := by
  refine trims_peek.bind_advances fun next => ?_
  split
  · exact advances_none
  · exact advances_none
  · exact (hg _).bind_advances fun _ => trims_pure _

theorem consumes_block : g.block.Consumes :=
  (consumes_expect _).bind fun _ => (advances_statement? hg).trims.many.bind fun _ =>
    (consumes_expect _).trims.bind fun _ => trims_pure _

theorem consumes_specifier (sort : ConstructorSort) : (g.specifier sort).Consumes := by
  cases sort with
  | function => exact consumes_paren hg
  | array => exact consumes_bracket hg
  | template => exact consumes_bracket hg

omit [HasKind τ] hg in
theorem trims_mark? (marked : Bool) : (mark? marked : TokenParser τ (Option τ)).Trims := by
  cases marked with
  | false => exact trims_pure none
  | true => exact advances_next?.trims

theorem advances_lookaheadConstructor : g.lookaheadConstructor.Advances := by
  refine trims_ahead.bind_advances fun ts => ?_
  split
  · exact advances_none
  · exact (consumes_specifier hg _).bind_advances fun _ => (trims_mark? _).bind fun _ =>
      (hg _).trims.bind fun _ => trims_pure _

theorem advances_introducedConstructor (word : TokenKind) (sort : ConstructorSort) :
    (g.introducedConstructor word sort).Advances :=
  (consumes_expect _).bind_advances fun _ => (consumes_specifier hg _).trims.bind fun _ =>
    (hg _).trims.bind fun _ => trims_pure _

theorem advances_keywordConstructor : g.keywordConstructor.Advances := by
  refine trims_peek.bind_advances fun next => ?_
  split
  · exact advances_introducedConstructor hg _ _
  · exact advances_introducedConstructor hg _ _
  · exact advances_introducedConstructor hg _ _
  · exact advances_none

theorem advances_arrowConstructor : g.arrowConstructor.Advances := by
  rw [arrowConstructor_eq_scan]
  refine trims_peek.bind_advances fun next => ?_
  split
  · exact (consumes_bracket hg).bind_advances fun _ => (advances_eat _).trims.bind fun _ =>
      (hg _).trims.bind fun _ => trims_pure _
  · refine trims_ahead.bind_advances fun ts => ?_
    split
    · exact (consumes_paren hg).bind_advances fun _ => (consumes_expect _).trims.bind fun _ =>
        (hg _).trims.bind fun _ => trims_pure _
    · exact advances_none
  · exact advances_none

theorem advances_parameterConstructor : g.parameterConstructor.Advances := by
  refine trims_peek.bind_advances fun next => ?_
  split
  · exact (consumes_bracket hg).bind_advances fun _ => (hg _).trims.bind fun _ => trims_pure _
  · refine trims_ahead.bind_advances fun ts => ?_
    split
    · exact (consumes_paren hg).bind_advances fun _ => (hg _).trims.bind fun _ => trims_pure _
    · exact advances_none
  · exact advances_none

theorem advances_constructor? : g.constructor?.Advances := by
  unfold Grammar.constructor?
  split
  · exact advances_lookaheadConstructor hg
  · exact advances_keywordConstructor hg
  · exact advances_arrowConstructor hg
  · exact advances_parameterConstructor hg
  · exact advances_none

/-! ## Operands and layers of operators -/

theorem consumes_primary : g.primary.Consumes := by
  refine (advances_eatAny _).bind_consumes ?_ fun token => trims_pure _
  refine (advances_eat _).bind_consumes ?_ fun token => trims_pure _
  refine trims_peek.bind_consumes fun next => ?_
  split
  · exact consumes_paren hg
  · exact consumes_bracket hg
  · exact consumes_fail _

theorem advances_suffix? : g.suffix?.Advances := by
  refine trims_peek.bind_advances fun next => ?_
  split
  · exact (consumes_paren hg).bind_advances fun _ => trims_pure _
  · exact (consumes_bracket hg).bind_advances fun _ => trims_pure _
  · refine (advances_eat _).bind_advances ?_ fun dot =>
      consumes_identifier.trims.bind fun _ => trims_pure _
    cases g.rules.postfixCaret with
    | false => exact advances_none
    | true => exact (advances_eat _).bind_advances advances_none fun _ => trims_pure _

theorem consumes_suffixed : g.suffixed.Consumes :=
  (consumes_primary hg).bind fun _ => (advances_suffix? hg).trims.many.bind fun _ => trims_pure _

theorem consumes_operand : g.operand.Consumes := by
  refine (advances_eatAny _).bind_consumes ?_ fun operator =>
    (hg _).trims.bind fun _ => trims_pure _
  exact (advances_constructor? hg).bind_consumes (consumes_suffixed hg) fun _ => trims_pure _

omit hg in
theorem advances_operation? {operators : KindSet} {operand : TokenParser τ (Tree τ)}
    (h : operand.Consumes) : (operation? operators operand).Advances :=
  (advances_eatAny _).bind_advances advances_none fun _ => h.trims.bind fun _ => trims_pure _

omit hg in
theorem consumes_leftAssociative {operators : KindSet} {operand : TokenParser τ (Tree τ)}
    (h : operand.Consumes) : (leftAssociative operators operand).Consumes :=
  h.bind fun _ => (advances_operation? h).trims.many.bind fun _ => trims_pure _

theorem consumes_disjunction : g.disjunction.Consumes :=
  consumes_leftAssociative <| consumes_leftAssociative <| consumes_leftAssociative <|
    consumes_leftAssociative <| consumes_leftAssociative <| consumes_leftAssociative <|
    consumes_operand hg

theorem consumes_implication : g.implication.Consumes := by
  refine (consumes_disjunction hg).bind fun left => (advances_eatAny _).trims.bind fun mark => ?_
  cases mark with
  | none => exact trims_pure _
  | some mark => exact (hg _).trims.bind fun _ => trims_pure _

theorem consumes_assignment : g.assignment.Consumes := by
  refine (consumes_implication hg).bind fun left => (advances_eat _).trims.bind fun mark => ?_
  cases mark with
  | none => exact trims_pure _
  | some mark => exact (hg _).trims.bind fun _ => trims_pure _

/-! ## Control constructs -/

theorem consumes_alternative : g.alternative.Consumes := by
  refine trims_peek.bind_consumes fun next => ?_
  split
  · exact hg _
  · exact consumes_block hg

theorem consumes_conditional : g.conditional.Consumes := by
  refine (consumes_expect _).bind fun keyword => (consumes_paren hg).trims.bind fun condition =>
    (consumes_block hg).trims.bind fun consequence => (advances_eat _).trims.bind fun mark => ?_
  cases mark with
  | none => exact trims_pure _
  | some mark => exact (consumes_alternative hg).trims.bind fun _ => trims_pure _

theorem consumes_branch : g.branch.Consumes :=
  (consumes_disjunction hg).bind fun _ => (consumes_expect _).trims.bind fun _ =>
    (consumes_block hg).trims.bind fun _ => trims_pure _

theorem consumes_caseDistinction : g.caseDistinction.Consumes :=
  (consumes_expect _).bind fun _ => (consumes_paren hg).trims.bind fun _ =>
    ((consumes_branch hg).separatedBy _).trims.bind fun _ => trims_pure _

theorem consumes_loop (word : TokenKind) : (g.loop word).Consumes :=
  (consumes_expect _).bind fun _ => (consumes_paren hg).trims.bind fun _ =>
    (consumes_block hg).trims.bind fun _ => trims_pure _

theorem advances_repetition? : g.repetition?.Advances := by
  refine trims_peek.bind_advances fun next => trims_ahead.bind_advances fun ts => ?_
  split
  · exact (consumes_expect _).bind_advances fun _ => (consumes_paren hg).trims.bind fun _ =>
      trims_pure _
  · exact advances_none

theorem consumes_doBlock : g.doBlock.Consumes :=
  (consumes_expect _).bind fun _ => (consumes_block hg).trims.bind fun _ =>
    (advances_repetition? hg).trims.bind fun _ => trims_pure _

theorem consumes_functionHead : g.functionHead.Consumes := by
  refine trims_peek.bind_consumes fun next => ?_
  split
  · exact (consumes_bracket hg).bind fun _ => (consumes_paren hg).trims.bind fun _ => trims_pure _
  · exact consumes_paren hg

theorem consumes_functionValue : g.functionValue.Consumes :=
  (consumes_expect _).bind fun _ => (consumes_functionHead hg).trims.bind fun _ =>
    (consumes_block hg).trims.bind fun _ => trims_pure _

theorem consumes_scope : g.scope.Consumes := by
  refine trims_peek.bind_consumes fun next => ?_
  split
  · exact consumes_block hg
  · exact hg _

theorem consumes_localBinding : g.localBinding.Consumes :=
  (consumes_expect _).bind fun _ => (consumes_paren hg).trims.bind fun _ =>
    (consumes_scope hg).trims.bind fun _ => trims_pure _

theorem consumes_control : g.control.Consumes := by
  refine trims_peek.bind_consumes fun next => ?_
  split
  · exact consumes_conditional hg
  · exact consumes_caseDistinction hg
  · exact consumes_loop hg _
  · exact consumes_loop hg _
  · exact consumes_doBlock hg
  · exact consumes_functionValue hg
  · exact consumes_localBinding hg
  · exact consumes_fail _

/-! ## Expressions, definitions and statements -/

theorem consumes_expression : g.expression.Consumes := by
  refine trims_ahead.bind_consumes fun ts => ?_
  split
  · exact consumes_control hg
  · exact consumes_assignment hg

theorem consumes_declarators (introduced : Bool) : (g.declarators introduced).Consumes := by
  cases introduced with
  | false => exact consumes_identifiers
  | true => exact ((consumes_suffixed hg).separatedBy _).bind fun _ => trims_pure _

omit hg in
theorem trims_terminator? (typed : Bool) : (terminator? typed : TokenParser τ (Option τ)).Trims := by
  cases typed with
  | false => exact trims_pure none
  | true => exact (advances_eat _).trims

theorem consumes_definiens : g.definiens.Consumes := by
  refine trims_peek.bind_consumes fun next => ?_
  split
  · exact (consumes_block hg).bind fun _ => trims_pure _
  · exact (consumes_expect _).bind fun _ => (hg _).trims.bind fun _ =>
      (consumes_expect _).trims.bind fun _ => trims_pure _

theorem consumes_definition : g.definition.Consumes := by
  refine (advances_eat _).trims.bind_consumes fun introducer =>
    (consumes_declarators hg _).bind fun declarator => (consumes_typing hg).trims.bind fun type =>
    (trims_terminator? _).bind fun terminator => ?_
  cases terminator with
  | some terminator => exact trims_pure _
  | none => exact (consumes_definiens hg).trims.bind fun _ => trims_pure _

theorem consumes_declaration : g.declaration.Consumes := by
  refine trims_ahead.bind_consumes fun ts => ?_
  split
  · exact consumes_definition hg
  · exact consumes_fail _

theorem consumes_statement : g.statement.Consumes := by
  refine trims_ahead.bind_consumes fun ts => ?_
  split
  · exact consumes_definition hg
  · split
    · exact (consumes_control hg).bind fun _ => (advances_eat _).trims.bind fun _ => trims_pure _
    · exact (consumes_expression hg).bind fun _ => (consumes_expect _).trims.bind fun _ =>
        trims_pure _

/-! ## All phrases -/

/-- Every phrase consumes if the phrases nested in it do. -/
theorem consumes_body (phrase : Phrase) : (g.body phrase).Consumes := by
  cases phrase with
  | operand => exact consumes_operand hg
  | implication => exact consumes_implication hg
  | assignment => exact consumes_assignment hg
  | expression => exact consumes_expression hg
  | statement => exact consumes_statement hg
  | conditional => exact consumes_conditional hg

omit hg

/-- The phrases of every depth consume. -/
theorem consumes_nested (rules : Rules) (depth : Nat) (phrase : Phrase) :
    (nested rules depth phrase : TokenParser τ (Tree τ)).Consumes := by
  induction depth generalizing phrase with
  | zero => exact consumes_fail _
  | succ depth ih => exact consumes_body (g := ⟨rules, nested rules depth⟩) ih phrase

/-- The phrases of the grammar of a dialect consume. -/
theorem consumes_ofRules (rules : Rules) (phrase : Phrase) :
    ((ofRules rules : Grammar τ).phrase phrase).Consumes := by
  constructor
  · intro ts
    exact (consumes_nested rules (ts.length + 1) phrase).trims ts
  · intro ts a rest h
    exact (consumes_nested rules (ts.length + 1) phrase).shorter h

/-- Reading a file takes tokens from the front only. -/
theorem trims_file (rules : Rules) : (ofRules rules : Grammar τ).file.Trims :=
  ((consumes_declaration (consumes_ofRules rules)).unlessNext _).trims.many.bind fun _ =>
    trims_pure _

end Grammar

end ConcreteSyntax
