import ConcreteSyntax.GrammarProgress

/-!
# The recursion equation of the grammar

Parsers agree below a bound when they give the same outcome on all lists of tokens
that are shorter. Since nested phrases are only called after a token has been read,
a phrase on a list depends on the nested phrases on shorter lists only. Hence the
depth of nesting does not matter once it exceeds the number of tokens, and the
grammar of a dialect satisfies its own equations.
-/

namespace ConcreteSyntax

open TokenParser

namespace TokenParser

variable {τ α β : Type}

/-- Two parsers give the same outcome on all lists shorter than a bound. -/
def AgreeBelow (bound : Nat) (p q : TokenParser τ α) : Prop :=
  ∀ ts : List τ, ts.length < bound → p ts = q ts

namespace AgreeBelow

variable {n m : Nat} {p q : TokenParser τ α}

/-- A parser agrees with itself. -/
theorem refl (p : TokenParser τ α) : AgreeBelow n p p := fun _ _ => rfl

/-- Agreement passes to a smaller bound. -/
theorem mono (h : AgreeBelow n p q) (hm : m ≤ n) : AgreeBelow m p q :=
  fun ts ht => h ts (Nat.lt_of_lt_of_le ht hm)

/-- Agreement passes to the bound before. -/
theorem pred (h : AgreeBelow (n + 1) p q) : AgreeBelow n p q := h.mono (Nat.le_succ n)

/-- Sequences agree if their parts do: the second part sees no longer list. -/
theorem bind {f f' : α → TokenParser τ β} (h : AgreeBelow n p q) (hp : p.Trims)
    (hf : ∀ a, AgreeBelow n (f a) (f' a)) : AgreeBelow n (p >>= f) (q >>= f') := by
  intro ts ht
  rw [bind_apply, bind_apply, ← h ts ht]
  cases hpt : p ts with
  | failed e rest => rfl
  | done a rest =>
    have hl := hp.length_le hpt
    exact hf a rest (by omega)

/-- Behind a parser that consumes, agreement is needed on shorter lists only. -/
theorem bind_consumes {f f' : α → TokenParser τ β} (h : AgreeBelow (n + 1) p q)
    (hp : p.Consumes) (hf : ∀ a, AgreeBelow n (f a) (f' a)) :
    AgreeBelow (n + 1) (p >>= f) (q >>= f') := by
  intro ts ht
  rw [bind_apply, bind_apply, ← h ts ht]
  cases hpt : p ts with
  | failed e rest => rfl
  | done a rest =>
    have hl := hp.shorter hpt
    exact hf a rest (by omega)

/-- Behind a parser that advances, agreement is needed on shorter lists only where
that parser yields something. -/
theorem bind_advances {p q : TokenParser τ (Option α)} {f f' : Option α → TokenParser τ β}
    (h : AgreeBelow (n + 1) p q) (hp : p.Advances) (hn : AgreeBelow (n + 1) (f none) (f' none))
    (hs : ∀ a, AgreeBelow n (f (some a)) (f' (some a))) :
    AgreeBelow (n + 1) (p >>= f) (q >>= f') := by
  intro ts ht
  rw [bind_apply, bind_apply, ← h ts ht]
  cases hpt : p ts with
  | failed e rest => rfl
  | done a rest =>
    cases a with
    | none =>
      have hl := hp.trims.length_le hpt
      exact hn rest (by omega)
    | some a =>
      have hl := hp.shorter hpt
      exact hs a rest (by omega)

/-- Repetitions of parsers that agree do so, for no step sees a longer list. -/
theorem manyWithin {p q : TokenParser τ (Option α)} (h : AgreeBelow n p q) (hp : p.Trims)
    (budget : List τ) : AgreeBelow n (manyWithin p budget) (manyWithin q budget) := by
  induction budget with
  | nil => exact refl _
  | cons b budget ih =>
    intro ts ht
    simp only [TokenParser.manyWithin, ← h ts ht]
    cases hpt : p ts with
    | failed e rest => rfl
    | done a rest =>
      cases a with
      | none => rfl
      | some a =>
        have hl := hp.length_le hpt
        simp only
        rw [ih rest (by omega)]

/-- Repetitions within the tokens ahead agree. -/
theorem many {p q : TokenParser τ (Option α)} (h : AgreeBelow n p q) (hp : p.Trims) :
    AgreeBelow n (many p) (many q) :=
  fun ts ht => h.manyWithin hp ts ts ht

variable [HasKind τ]

/-- Parts that a token may replace agree. -/
theorem unlessNext (h : AgreeBelow n p q) (hp : p.Trims) (k : TokenKind) :
    AgreeBelow n (unlessNext k p) (unlessNext k q) := by
  refine (refl _).bind trims_peek fun next => ?_
  split
  · exact refl _
  · exact h.bind hp fun _ => refl _

/-- Parts behind a mark agree. -/
theorem behind (h : AgreeBelow n p q) (hp : p.Trims) (k : TokenKind) :
    AgreeBelow (n + 1) (behind k p) (behind k q) :=
  (refl _).bind_advances (advances_eat k) (refl _) fun _ => h.bind hp fun _ => refl _

/-- Values with separators between them agree. -/
theorem separatedBy (h : AgreeBelow n p q) (hp : p.Trims) (separator : TokenKind) :
    AgreeBelow n (separatedBy separator p) (separatedBy separator q) :=
  h.bind hp fun _ => ((h.behind hp separator).pred.many (hp.behind separator).trims).bind
    (hp.behind separator).trims.many fun _ => refl _

end AgreeBelow

end TokenParser

namespace Grammar

variable {τ : Type} [HasKind τ] {g : Grammar τ} {phrase' : Phrase → TokenParser τ (Tree τ)}
  {n : Nat} (hg : ∀ phrase, (g.phrase phrase).Consumes)
  (h : ∀ phrase, AgreeBelow n (g.phrase phrase) (phrase' phrase))

/-- The same rules with other parsers for the nested phrases. -/
def withPhrases (g : Grammar τ) (phrase' : Phrase → TokenParser τ (Tree τ)) : Grammar τ :=
  ⟨g.rules, phrase'⟩

section

include h

/-! ## Groups, parameters and types -/

omit [HasKind τ] in
theorem agree_type : AgreeBelow n g.type (g.withPhrases phrase').type := by
  unfold Grammar.type
  rw [show (g.withPhrases phrase').rules = g.rules from rfl]
  cases g.rules.typeLevel with
  | operand => exact h _
  | implication => exact h _

include hg

theorem agree_plainType? : AgreeBelow n g.plainType? (g.withPhrases phrase').plainType? := by
  refine (AgreeBelow.refl _).bind trims_peek fun next => ?_
  split
  · exact AgreeBelow.refl _
  · exact (agree_type h).bind (consumes_type hg).trims fun _ => AgreeBelow.refl _

theorem agree_typing : AgreeBelow (n + 1) g.typing (g.withPhrases phrase').typing := by
  refine (AgreeBelow.refl _).bind_advances (advances_eat _) ?_ fun colon => ?_
  · refine (AgreeBelow.refl _).bind_advances (advances_eat _) (AgreeBelow.refl _) fun mark => ?_
    exact (agree_type h).bind (consumes_type hg).trims fun _ => AgreeBelow.refl _
  · refine (agree_plainType? hg h).bind (trims_plainType? hg) fun type =>
      (AgreeBelow.refl _).bind (advances_eat _).trims fun mark => ?_
    cases mark with
    | none => exact AgreeBelow.refl _
    | some mark => exact (agree_type h).bind (consumes_type hg).trims fun _ => AgreeBelow.refl _

theorem agree_parameter : AgreeBelow (n + 1) g.parameter (g.withPhrases phrase').parameter :=
  (AgreeBelow.refl _).bind (consumes_identifiers.unlessNext _).trims fun _ =>
    (agree_typing hg h).bind (consumes_typing hg).trims fun _ =>
    ((h _).behind (hg _).trims _).bind ((hg _).trims.behind _).trims fun _ => AgreeBelow.refl _

theorem agree_item : AgreeBelow n g.item (g.withPhrases phrase').item := by
  refine (AgreeBelow.refl _).bind trims_ahead fun ts => ?_
  split
  · exact (agree_parameter hg h).pred
  · exact h _

theorem agree_items : AgreeBelow n g.items (g.withPhrases phrase').items :=
  ((agree_item hg h).separatedBy (consumes_item hg).trims _).bind
    ((consumes_item hg).separatedBy _).trims fun _ => AgreeBelow.refl _

theorem agree_group : AgreeBelow n g.group (g.withPhrases phrase').group :=
  ((agree_items hg h).separatedBy (consumes_items hg).trims _).bind
    ((consumes_items hg).separatedBy _).trims fun _ => AgreeBelow.refl _

theorem agree_enclosed (opening closing : TokenKind) :
    AgreeBelow (n + 1) (g.enclosed opening closing)
      ((g.withPhrases phrase').enclosed opening closing) :=
  (AgreeBelow.refl _).bind_consumes (consumes_expect _) fun _ =>
    ((agree_group hg h).unlessNext (consumes_group hg).trims _).bind
      ((consumes_group hg).unlessNext _).trims fun _ => AgreeBelow.refl _

theorem agree_paren : AgreeBelow (n + 1) g.paren (g.withPhrases phrase').paren :=
  agree_enclosed hg h _ _

theorem agree_bracket : AgreeBelow (n + 1) g.bracket (g.withPhrases phrase').bracket :=
  agree_enclosed hg h _ _

/-! ## Blocks and type constructors -/

omit hg in
theorem agree_statement? (hg : ∀ phrase, (g.phrase phrase).Consumes) :
    AgreeBelow n g.statement? (g.withPhrases phrase').statement? := by
  refine (AgreeBelow.refl _).bind trims_peek fun next => ?_
  split
  · exact AgreeBelow.refl _
  · exact AgreeBelow.refl _
  · exact (h _).bind (hg _).trims fun _ => AgreeBelow.refl _

theorem agree_block : AgreeBelow (n + 1) g.block (g.withPhrases phrase').block :=
  (AgreeBelow.refl _).bind_consumes (consumes_expect _) fun _ =>
    ((agree_statement? h hg).many (advances_statement? hg).trims).bind
      (advances_statement? hg).trims.many fun _ => AgreeBelow.refl _

theorem agree_specifier (sort : ConstructorSort) :
    AgreeBelow (n + 1) (g.specifier sort) ((g.withPhrases phrase').specifier sort) := by
  cases sort with
  | function => exact agree_paren hg h
  | array => exact agree_bracket hg h
  | template => exact agree_bracket hg h

theorem agree_lookaheadConstructor :
    AgreeBelow (n + 1) g.lookaheadConstructor (g.withPhrases phrase').lookaheadConstructor := by
  refine (AgreeBelow.refl _).bind trims_ahead fun ts => ?_
  rw [show (g.withPhrases phrase').rules = g.rules from rfl]
  cases constructorAhead? g.rules ts with
  | none => exact AgreeBelow.refl _
  | some form =>
    exact (agree_specifier hg h _).bind_consumes (consumes_specifier hg _) fun _ =>
      (AgreeBelow.refl _).bind (trims_mark? _) fun _ =>
      (h _).bind (hg _).trims fun _ => AgreeBelow.refl _

theorem agree_introducedConstructor (word : TokenKind) (sort : ConstructorSort) :
    AgreeBelow (n + 1) (g.introducedConstructor word sort)
      ((g.withPhrases phrase').introducedConstructor word sort) :=
  (AgreeBelow.refl _).bind_consumes (consumes_expect _) fun _ =>
    (agree_specifier hg h _).pred.bind (consumes_specifier hg _).trims fun _ =>
    (h _).bind (hg _).trims fun _ => AgreeBelow.refl _

theorem agree_keywordConstructor :
    AgreeBelow (n + 1) g.keywordConstructor (g.withPhrases phrase').keywordConstructor := by
  refine (AgreeBelow.refl _).bind trims_peek fun next => ?_
  split
  · exact agree_introducedConstructor hg h _ _
  · exact agree_introducedConstructor hg h _ _
  · exact agree_introducedConstructor hg h _ _
  · exact AgreeBelow.refl _

theorem agree_arrowConstructor :
    AgreeBelow (n + 1) g.arrowConstructor (g.withPhrases phrase').arrowConstructor := by
  rw [arrowConstructor_eq_scan, arrowConstructor_eq_scan]
  refine (AgreeBelow.refl _).bind trims_peek fun next => ?_
  split
  · exact (agree_bracket hg h).bind_consumes (consumes_bracket hg) fun _ =>
      (AgreeBelow.refl _).bind (advances_eat _).trims fun _ =>
      (h _).bind (hg _).trims fun _ => AgreeBelow.refl _
  · refine (AgreeBelow.refl _).bind trims_ahead fun ts => ?_
    split
    · exact (agree_paren hg h).bind_consumes (consumes_paren hg) fun _ =>
        (AgreeBelow.refl _).bind (consumes_expect _).trims fun _ =>
        (h _).bind (hg _).trims fun _ => AgreeBelow.refl _
    · exact AgreeBelow.refl _
  · exact AgreeBelow.refl _

theorem agree_parameterConstructor :
    AgreeBelow (n + 1) g.parameterConstructor (g.withPhrases phrase').parameterConstructor := by
  refine (AgreeBelow.refl _).bind trims_peek fun next => ?_
  split
  · exact (agree_bracket hg h).bind_consumes (consumes_bracket hg) fun _ =>
      (h _).bind (hg _).trims fun _ => AgreeBelow.refl _
  · refine (AgreeBelow.refl _).bind trims_ahead fun ts => ?_
    split
    · exact (agree_paren hg h).bind_consumes (consumes_paren hg) fun _ =>
        (h _).bind (hg _).trims fun _ => AgreeBelow.refl _
    · exact AgreeBelow.refl _
  · exact AgreeBelow.refl _

theorem agree_constructor? :
    AgreeBelow (n + 1) g.constructor? (g.withPhrases phrase').constructor? := by
  unfold Grammar.constructor?
  rw [show (g.withPhrases phrase').rules = g.rules from rfl]
  cases g.rules.constructors with
  | lookahead => exact agree_lookaheadConstructor hg h
  | keyword => exact agree_keywordConstructor hg h
  | arrow => exact agree_arrowConstructor hg h
  | parameter => exact agree_parameterConstructor hg h
  | absent => exact AgreeBelow.refl _

/-! ## Operands and layers of operators -/

theorem agree_primary : AgreeBelow (n + 1) g.primary (g.withPhrases phrase').primary := by
  refine AgreeBelow.bind_advances (AgreeBelow.refl _) (advances_eatAny _) ?_ fun _ =>
    AgreeBelow.refl _
  refine (AgreeBelow.refl _).bind_advances (advances_eat _) ?_ fun _ => AgreeBelow.refl _
  refine (AgreeBelow.refl _).bind trims_peek fun next => ?_
  split
  · exact agree_paren hg h
  · exact agree_bracket hg h
  · exact AgreeBelow.refl _

theorem agree_suffix? : AgreeBelow (n + 1) g.suffix? (g.withPhrases phrase').suffix? := by
  refine (AgreeBelow.refl _).bind trims_peek fun next => ?_
  split
  · exact (agree_paren hg h).bind (consumes_paren hg).trims fun _ => AgreeBelow.refl _
  · exact (agree_bracket hg h).bind (consumes_bracket hg).trims fun _ => AgreeBelow.refl _
  · exact AgreeBelow.refl _

theorem agree_suffixed : AgreeBelow (n + 1) g.suffixed (g.withPhrases phrase').suffixed :=
  (agree_primary hg h).bind (consumes_primary hg).trims fun _ =>
    ((agree_suffix? hg h).many (advances_suffix? hg).trims).bind
      (advances_suffix? hg).trims.many fun _ => AgreeBelow.refl _

theorem agree_operand : AgreeBelow (n + 1) g.operand (g.withPhrases phrase').operand := by
  refine AgreeBelow.bind_advances (AgreeBelow.refl _) (advances_eatAny _) ?_ fun _ =>
    (h _).bind (hg _).trims fun _ => AgreeBelow.refl _
  refine (agree_constructor? hg h).bind_advances (advances_constructor? hg)
    (agree_suffixed hg h) fun _ => AgreeBelow.refl _

omit h hg in
theorem agree_leftAssociative {p q : TokenParser τ (Tree τ)} (operators : KindSet)
    (hp : p.Consumes) (hpq : AgreeBelow n p q) :
    AgreeBelow n (leftAssociative operators p) (leftAssociative operators q) := by
  refine hpq.bind hp.trims fun first => AgreeBelow.bind (AgreeBelow.many ?_ ?_)
    (advances_operation? hp).trims.many fun _ => AgreeBelow.refl _
  · refine (AgreeBelow.refl _).bind (advances_eatAny _).trims fun operator => ?_
    cases operator with
    | none => exact AgreeBelow.refl _
    | some operator => exact hpq.bind hp.trims fun _ => AgreeBelow.refl _
  · exact (advances_operation? hp).trims

theorem agree_disjunction :
    AgreeBelow (n + 1) g.disjunction (g.withPhrases phrase').disjunction := by
  have h₁ : g.multiplicative.Consumes := consumes_leftAssociative (consumes_operand hg)
  have h₂ : g.additive.Consumes := consumes_leftAssociative h₁
  have h₃ : g.relational.Consumes := consumes_leftAssociative h₂
  have h₄ : g.equality.Consumes := consumes_leftAssociative h₃
  have h₅ : g.conjunction.Consumes := consumes_leftAssociative h₄
  exact agree_leftAssociative _ h₅ <| agree_leftAssociative _ h₄ <|
    agree_leftAssociative _ h₃ <| agree_leftAssociative _ h₂ <|
    agree_leftAssociative _ h₁ <| agree_leftAssociative _ (consumes_operand hg) <|
    agree_operand hg h

theorem agree_implication :
    AgreeBelow (n + 1) g.implication (g.withPhrases phrase').implication := by
  refine (agree_disjunction hg h).bind_consumes (consumes_disjunction hg) fun left =>
    (AgreeBelow.refl _).bind (advances_eatAny _).trims fun mark => ?_
  cases mark with
  | none => exact AgreeBelow.refl _
  | some mark => exact (h _).bind (hg _).trims fun _ => AgreeBelow.refl _

theorem agree_assignment :
    AgreeBelow (n + 1) g.assignment (g.withPhrases phrase').assignment := by
  refine (agree_implication hg h).bind_consumes (consumes_implication hg) fun left =>
    (AgreeBelow.refl _).bind (advances_eat _).trims fun mark => ?_
  cases mark with
  | none => exact AgreeBelow.refl _
  | some mark => exact (h _).bind (hg _).trims fun _ => AgreeBelow.refl _

/-! ## Control constructs -/

theorem agree_alternative : AgreeBelow n g.alternative (g.withPhrases phrase').alternative := by
  refine (AgreeBelow.refl _).bind trims_peek fun next => ?_
  split
  · exact h _
  · exact (agree_block hg h).pred

theorem agree_conditional :
    AgreeBelow (n + 1) g.conditional (g.withPhrases phrase').conditional := by
  refine (AgreeBelow.refl _).bind_consumes (consumes_expect _) fun keyword =>
    (agree_paren hg h).pred.bind (consumes_paren hg).trims fun condition =>
    (agree_block hg h).pred.bind (consumes_block hg).trims fun consequence =>
    (AgreeBelow.refl _).bind (advances_eat _).trims fun mark => ?_
  cases mark with
  | none => exact AgreeBelow.refl _
  | some mark =>
    exact (agree_alternative hg h).bind (consumes_alternative hg).trims fun _ => AgreeBelow.refl _

theorem agree_branch : AgreeBelow (n + 1) g.branch (g.withPhrases phrase').branch :=
  (agree_disjunction hg h).bind (consumes_disjunction hg).trims fun _ =>
    (AgreeBelow.refl _).bind (consumes_expect _).trims fun _ =>
    (agree_block hg h).bind (consumes_block hg).trims fun _ => AgreeBelow.refl _

theorem agree_caseDistinction :
    AgreeBelow (n + 1) g.caseDistinction (g.withPhrases phrase').caseDistinction :=
  (AgreeBelow.refl _).bind (consumes_expect _).trims fun _ =>
    (agree_paren hg h).bind (consumes_paren hg).trims fun _ =>
    ((agree_branch hg h).separatedBy (consumes_branch hg).trims _).bind
      ((consumes_branch hg).separatedBy _).trims fun _ => AgreeBelow.refl _

theorem agree_loop (word : TokenKind) :
    AgreeBelow (n + 1) (g.loop word) ((g.withPhrases phrase').loop word) :=
  (AgreeBelow.refl _).bind (consumes_expect _).trims fun _ =>
    (agree_paren hg h).bind (consumes_paren hg).trims fun _ =>
    (agree_block hg h).bind (consumes_block hg).trims fun _ => AgreeBelow.refl _

theorem agree_repetition? :
    AgreeBelow (n + 1) g.repetition? (g.withPhrases phrase').repetition? := by
  refine (AgreeBelow.refl _).bind trims_peek fun next =>
    (AgreeBelow.refl _).bind trims_ahead fun ts => ?_
  split
  · exact (AgreeBelow.refl _).bind (consumes_expect _).trims fun _ =>
      (agree_paren hg h).bind (consumes_paren hg).trims fun _ => AgreeBelow.refl _
  · exact AgreeBelow.refl _

theorem agree_doBlock : AgreeBelow (n + 1) g.doBlock (g.withPhrases phrase').doBlock :=
  (AgreeBelow.refl _).bind (consumes_expect _).trims fun _ =>
    (agree_block hg h).bind (consumes_block hg).trims fun _ =>
    (agree_repetition? hg h).bind (advances_repetition? hg).trims fun _ => AgreeBelow.refl _

theorem agree_functionHead :
    AgreeBelow (n + 1) g.functionHead (g.withPhrases phrase').functionHead := by
  refine (AgreeBelow.refl _).bind trims_peek fun next => ?_
  split
  · exact (agree_bracket hg h).bind (consumes_bracket hg).trims fun _ =>
      (agree_paren hg h).bind (consumes_paren hg).trims fun _ => AgreeBelow.refl _
  · exact agree_paren hg h

theorem agree_functionValue :
    AgreeBelow (n + 1) g.functionValue (g.withPhrases phrase').functionValue :=
  (AgreeBelow.refl _).bind (consumes_expect _).trims fun _ =>
    (agree_functionHead hg h).bind (consumes_functionHead hg).trims fun _ =>
    (agree_block hg h).bind (consumes_block hg).trims fun _ => AgreeBelow.refl _

theorem agree_scope : AgreeBelow n g.scope (g.withPhrases phrase').scope := by
  refine (AgreeBelow.refl _).bind trims_peek fun next => ?_
  split
  · exact (agree_block hg h).pred
  · exact h _

theorem agree_localBinding :
    AgreeBelow (n + 1) g.localBinding (g.withPhrases phrase').localBinding :=
  (AgreeBelow.refl _).bind_consumes (consumes_expect _) fun _ =>
    (agree_paren hg h).pred.bind (consumes_paren hg).trims fun _ =>
    (agree_scope hg h).bind (consumes_scope hg).trims fun _ => AgreeBelow.refl _

theorem agree_control : AgreeBelow (n + 1) g.control (g.withPhrases phrase').control := by
  refine (AgreeBelow.refl _).bind trims_peek fun next => ?_
  split
  · exact agree_conditional hg h
  · exact agree_caseDistinction hg h
  · exact agree_loop hg h _
  · exact agree_loop hg h _
  · exact agree_doBlock hg h
  · exact agree_functionValue hg h
  · exact agree_localBinding hg h
  · exact AgreeBelow.refl _

/-! ## Expressions, definitions and statements -/

theorem agree_expression :
    AgreeBelow (n + 1) g.expression (g.withPhrases phrase').expression := by
  refine (AgreeBelow.refl _).bind trims_ahead fun ts => ?_
  rw [show (g.withPhrases phrase').rules = g.rules from rfl]
  split
  · exact agree_control hg h
  · exact agree_assignment hg h

theorem agree_declarators (introduced : Bool) :
    AgreeBelow (n + 1) (g.declarators introduced)
      ((g.withPhrases phrase').declarators introduced) := by
  unfold Grammar.declarators
  cases introduced with
  | false => exact AgreeBelow.refl identifiers
  | true =>
    exact ((agree_suffixed hg h).separatedBy (consumes_suffixed hg).trims _).bind
      ((consumes_suffixed hg).separatedBy _).trims fun _ => AgreeBelow.refl _

theorem agree_definiens : AgreeBelow (n + 1) g.definiens (g.withPhrases phrase').definiens := by
  refine (AgreeBelow.refl _).bind trims_peek fun next => ?_
  split
  · exact (agree_block hg h).bind (consumes_block hg).trims fun _ => AgreeBelow.refl _
  · exact (AgreeBelow.refl _).bind_consumes (consumes_expect _) fun _ =>
      (h _).bind (hg _).trims fun _ => AgreeBelow.refl _

theorem agree_definition :
    AgreeBelow (n + 1) g.definition (g.withPhrases phrase').definition := by
  refine (AgreeBelow.refl _).bind (advances_eat _).trims fun introducer =>
    (agree_declarators hg h _).bind (consumes_declarators hg _).trims fun declarator =>
    (agree_typing hg h).bind (consumes_typing hg).trims fun type =>
    (AgreeBelow.refl _).bind (trims_terminator? _) fun terminator => ?_
  cases terminator with
  | some terminator => exact AgreeBelow.refl _
  | none => exact (agree_definiens hg h).bind (consumes_definiens hg).trims fun _ =>
      AgreeBelow.refl _

theorem agree_statement :
    AgreeBelow (n + 1) g.statement (g.withPhrases phrase').statement := by
  refine (AgreeBelow.refl _).bind trims_ahead fun ts => ?_
  rw [show (g.withPhrases phrase').rules = g.rules from rfl]
  split
  · exact agree_definition hg h
  · split
    · exact (agree_control hg h).bind (consumes_control hg).trims fun _ => AgreeBelow.refl _
    · exact (agree_expression hg h).bind (consumes_expression hg).trims fun _ =>
        AgreeBelow.refl _

/-! ## All phrases -/

/-- A phrase agrees on lists up to a length when the nested phrases agree on shorter
lists. -/
theorem agree_body (phrase : Phrase) :
    AgreeBelow (n + 1) (g.body phrase) ((g.withPhrases phrase').body phrase) := by
  cases phrase with
  | operand => exact agree_operand hg h
  | implication => exact agree_implication hg h
  | assignment => exact agree_assignment hg h
  | expression => exact agree_expression hg h
  | statement => exact agree_statement hg h
  | conditional => exact agree_conditional hg h

end

/-- On lists shorter than a bound, all depths of nesting from the bound on agree. -/
theorem nested_agree (rules : Rules) {bound depth depth' : Nat} (hd : bound ≤ depth)
    (hd' : bound ≤ depth') (phrase : Phrase) :
    AgreeBelow bound (nested rules depth phrase : TokenParser τ (Tree τ))
      (nested rules depth' phrase) := by
  induction bound generalizing depth depth' phrase with
  | zero => exact fun ts ht => absurd ht (Nat.not_lt_zero _)
  | succ bound ih =>
    obtain ⟨d, rfl⟩ : ∃ d, depth = d + 1 := ⟨depth - 1, by omega⟩
    obtain ⟨d', rfl⟩ : ∃ d', depth' = d' + 1 := ⟨depth' - 1, by omega⟩
    exact agree_body (g := ⟨rules, nested rules d⟩) (consumes_nested rules d)
      (fun p => ih (by omega) (by omega) p) phrase

/-- The phrases of a grammar are made of the phrases of the same grammar. -/
theorem ofRules_phrase (rules : Rules) (phrase : Phrase) :
    (ofRules rules : Grammar τ).phrase phrase = (ofRules rules : Grammar τ).body phrase := by
  funext ts
  have hb : AgreeBelow (ts.length + 1) (body ⟨rules, nested rules ts.length⟩ phrase)
      ((ofRules rules : Grammar τ).body phrase) :=
    agree_body (g := ⟨rules, nested rules ts.length⟩) (consumes_nested rules ts.length)
      (fun p us hus => nested_agree rules hus (Nat.le_refl _) p us (Nat.lt_succ_self _)) phrase
  exact hb ts (Nat.lt_succ_self _)

end Grammar

end ConcreteSyntax
