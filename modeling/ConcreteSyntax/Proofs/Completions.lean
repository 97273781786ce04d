import ConcreteSyntax.Proofs.ContinuedReadings
import ConcreteSyntax.Proofs.ParserFailures

/-!
# Completions

Tokens can be completed as a phrase from a place on when some tokens, put in place of those
behind it, make a phrase of them. The completed phrase has to be one whatever follows it, as
long as this is something before which such phrases end, so that a phrase around it can be
completed in turn. Only the kinds of tokens matter here, so the tokens are their kinds.
-/

namespace ConcreteSyntax

open TokenParser Grammar

variable {rules : Rules}

/-! ## Completable tokens -/

/-- That kinds are those of tokens that can be written. -/
def Writable (w : List TokenKind) : Prop := ∀ k ∈ w, k ≠ .eof ∧ k ≠ .invalid

instance (w : List TokenKind) : Decidable (Writable w) :=
  inferInstanceAs (Decidable (∀ k ∈ w, k ≠ .eof ∧ k ≠ .invalid))

/-- Kinds that can be written may be joined. -/
theorem Writable.append {w x : List TokenKind} (hw : Writable w) (hx : Writable x) :
    Writable (w ++ x) := fun k hk =>
  (List.mem_append.1 hk).elim (hw k) (hx k)

/-- That a completed element of a sequence ends before tokens. -/
def Element.EndsBefore (rules : Rules) : Element → List TokenKind → Prop
  | name, _ | branch, _ => True
  | value, after => continuesValue rules (kindAt after 0) = false
  | item, after | items, after => Concludes rules after

/-- That a completed phrase of a category ends before tokens. -/
def Category.EndsBefore (rules : Rules) : Category TokenKind → List TokenKind → Prop
  | .enclosed _ _, _ | .block, _ | .defined _ _, _ | .definition, _ | .functionHead, _
  | .primary, _ => True
  | .element e, after => e.EndsBefore rules after
  | .separated e, after => e.EndsBefore rules after ∧ kindAt after 0 ≠ e.separator
  | .suffixes _, after => Element.value.EndsBefore rules after
  | .phrase .statement, after | .statements, after => kindAt after 0 = .rightBrace
  | .declarations, after => after = []
  | _, after => Concludes rules after

/-- What a completed phrase has in common with the tokens that are completed: a colon in front
stays, items begin no definition unless those tokens did so, and parts that may be empty may
follow what those tokens followed. -/
def Category.Resumes (rules : Rules) : Category TokenKind → List TokenKind → List TokenKind → Prop
  | .typing, ts, ts' | .parameter, ts, ts' => kindAt ts 0 = .colon → kindAt ts' 0 = .colon
  | .element .item, ts, ts' | .separated .item, ts, ts' =>
    opensDefinition ts' = true → opensDefinition ts = true
  | .suffixes _, ts, ts' | .operations _ _, ts, ts' => MayFollow rules ts ts'
  | .statements, ts, ts' => MayFollow rules ts ts' ∧ kindAt ts' 0 ≠ .semicolon
  | _, _, _ => True

/-- That tokens can be completed as a phrase of a category from a rest of them on. -/
def Completable (rules : Rules) (c : Category TokenKind) (ts rest : List TokenKind) : Prop :=
  ∃ w, Writable w ∧ ∀ after, c.EndsBefore rules after → ∃ ts' v,
    SameFront ts rest ts' (w ++ after) ∧ Reading rules c ts' v after ∧ c.Resumes rules ts ts'

namespace Completable

variable {c c' : Category TokenKind} {ts us rest : List TokenKind}

/-- Tokens that are put in place of all others may be a phrase. -/
theorem of_start (w : List TokenKind) (hw : Writable w)
    (hresumes : ∀ ts', c.Resumes rules ts ts')
    (hread : ∀ after, c.EndsBefore rules after → ∃ v, Reading rules c (w ++ after) v after) :
    Completable rules c ts ts := by
  refine ⟨w, hw, fun after hafter => ?_⟩
  obtain ⟨v, h⟩ := hread after hafter
  exact ⟨w ++ after, v, .refl _ _, h, hresumes _⟩

/-- Tokens in place of a rest may complete what was read before it. -/
theorem of_rest (w : List TokenKind) (hw : Writable w)
    (hresumes : ∀ ts', c.Resumes rules ts ts')
    (hread : ∀ after, c.EndsBefore rules after → ∃ ts' v,
      SameFront ts rest ts' (w ++ after) ∧ Reading rules c ts' v after) :
    Completable rules c ts rest := by
  refine ⟨w, hw, fun after hafter => ?_⟩
  obtain ⟨ts', v, hts, h⟩ := hread after hafter
  exact ⟨ts', v, hts, h, hresumes ts'⟩

/-- Where a part can be completed, the whole can be completed if some tokens behind the
completed part make the whole of it. -/
theorem extend (h : Completable rules c us rest) (x : List TokenKind) (hx : Writable x)
    (hresumes : ∀ ts', c'.Resumes rules ts ts')
    (hends : ∀ {after}, c'.EndsBefore rules after → c.EndsBefore rules (x ++ after))
    (hread : ∀ {after us' v}, c'.EndsBefore rules after → c.Resumes rules us us' →
      Reading rules c us' v (x ++ after) →
        ∃ ts' v', SameFront ts us ts' us' ∧ Reading rules c' ts' v' after) :
    Completable rules c' ts rest := by
  obtain ⟨w, hw, hcomplete⟩ := h
  refine ⟨w ++ x, hw.append hx, fun after hafter => ?_⟩
  obtain ⟨us', v, hus, hpart, hresume⟩ := hcomplete (x ++ after) (hends hafter)
  obtain ⟨ts', v', hts, hwhole⟩ := hread hafter hresume hpart
  rw [List.append_assoc]
  exact ⟨ts', v', hts.trans hus, hwhole, hresumes ts'⟩

/-- Where the last part can be completed, the whole can be completed. -/
theorem last (h : Completable rules c us rest) (hresumes : ∀ ts', c'.Resumes rules ts ts')
    (hends : ∀ {after}, c'.EndsBefore rules after → c.EndsBefore rules after)
    (hread : ∀ {after us' v}, c'.EndsBefore rules after → c.Resumes rules us us' →
      Reading rules c us' v after →
        ∃ ts' v', SameFront ts us ts' us' ∧ Reading rules c' ts' v' after) :
    Completable rules c' ts rest :=
  h.extend [] (by decide) hresumes hends hread

/-- What is a phrase of another category as it stands can be completed as one. -/
theorem map (h : Completable rules c ts rest) (hresumes : ∀ ts', c'.Resumes rules ts ts')
    (hends : ∀ {after}, c'.EndsBefore rules after → c.EndsBefore rules after)
    (hread : ∀ {after ts' v}, c'.EndsBefore rules after → Reading rules c ts' v after →
      ∃ v', Reading rules c' ts' v' after) :
    Completable rules c' ts rest :=
  h.last hresumes hends fun hafter _ hpart => by
    obtain ⟨v', hwhole⟩ := hread hafter hpart
    exact ⟨_, v', .refl _ _, hwhole⟩

/-- Behind a token a part can be completed together with the token. -/
theorem behind {t : TokenKind} (h : Completable rules c ts rest)
    (hresumes : ∀ ts', c'.Resumes rules (t :: ts) (t :: ts'))
    (hends : ∀ {after}, c'.EndsBefore rules after → c.EndsBefore rules after)
    (hread : ∀ {after ts' v}, c'.EndsBefore rules after → Reading rules c ts' v after →
      ∃ v', Reading rules c' (t :: ts') v' after) :
    Completable rules c' (t :: ts) rest := by
  obtain ⟨w, hw, hcomplete⟩ := h
  refine ⟨w, hw, fun after hafter => ?_⟩
  obtain ⟨ts', v, hts, hpart, -⟩ := hcomplete after (hends hafter)
  obtain ⟨v', hwhole⟩ := hread hafter hpart
  exact ⟨t :: ts', v', hts.cons t, hwhole, hresumes ts'⟩

end Completable

/-- That wherever a parser fails the tokens before can be completed as a phrase of a category. -/
def Viable (rules : Rules) (c : Category TokenKind) {α : Type} (p : TokenParser TokenKind α) : Prop :=
  ∀ {ts rest : List TokenKind} {e : Failure TokenKind}, p ts = .failed e rest →
    Completable rules c ts rest

/-! ## The shortest phrases -/

section

variable {after : List TokenKind}

/-- A number begins no constructor. -/
theorem opensConstructor_number (us : List TokenKind) :
    opensConstructor rules (.intNumber :: us) = false := by
  unfold opensConstructor
  cases rules.constructors with
  | lookahead =>
    have hnone : constructorAhead? rules (.intNumber :: us) = none :=
      constructorAhead?_eq_none (show TokenKind.intNumber ≠ .leftParen by decide)
        (show TokenKind.intNumber ≠ .leftBracket by decide)
    simp only [hnone, Option.isSome_none]
  | _ => rfl

/-- A number begins no control construct. -/
theorem opensControl_number (us : List TokenKind) :
    opensControl rules (.intNumber :: us) = false := by
  have hword : controlWords.contains .intNumber = false := by decide
  have hkind : kindAt (TokenKind.intNumber :: us) 0 = .intNumber := rfl
  rw [opensControl, hkind, hword, Bool.and_false]

/-- An operand is read on every layer where phrases end behind it. -/
theorem Reading.layer_of_operand {τ : Type} [HasKind τ] {ts after : List τ} {t : Tree τ}
    (h : Reading rules (.phrase .operand) ts t after) (hafter : Concludes rules after) (n : Nat) :
    Reading rules (.layer n) ts t after := by
  induction n with
  | zero => exact .layerOperand h
  | succ n ih => exact .layer ih (.operationsEnd (hafter.layerOperators_eq n))

variable (he : rules.Extensible)

include he

/-- A number is a value. -/
theorem value_number (hafter : continuesValue rules (kindAt after 0) = false) :
    Reading rules (.element .value) (.intNumber :: after) (.literal .intNumber) after :=
  .value (.literal he.numberLiteral) (.suffixesEnd hafter)

variable (hafter : Concludes rules after)

include hafter

/-- A number is an operand. -/
theorem operand_number :
    Reading rules (.phrase .operand) (.intNumber :: after) (.literal .intNumber) after :=
  .valueOperand he.numberPrefix (opensConstructor_number after)
    (value_number he hafter.continuesValue_eq)

/-- A number is an implication. -/
theorem implication_number :
    Reading rules (.phrase .implication) (.intNumber :: after) (.literal .intNumber) after :=
  .implicationEnd ((operand_number he hafter).layer_of_operand hafter 6)
    (hafter.implicationOperators_eq he.toPrintable)

/-- A number is a type. -/
theorem type_number :
    Reading rules .type (.intNumber :: after) (.literal .intNumber) after := by
  cases hl : rules.typeLevel with
  | operand => exact .operandType hl (operand_number he hafter)
  | implication => exact .implicationType hl (implication_number he hafter)

/-- A number is an assignment. -/
theorem assignment_number :
    Reading rules (.phrase .assignment) (.intNumber :: after) (.literal .intNumber) after :=
  .assignmentEnd (implication_number he hafter) (hafter.kind_ne (by decide))

/-- A number is an expression. -/
theorem expression_number :
    Reading rules (.phrase .expression) (.intNumber :: after) (.literal .intNumber) after :=
  .assignmentExpression (opensControl_number after) (assignment_number he hafter)

/-- A colon and a number are typing. -/
theorem typing_number : Reading rules .typing (.colon :: .intNumber :: after)
    (some (.literal .intNumber)) after :=
  .plainType rfl (show typeOmitted.contains .intNumber = false by decide) (type_number he hafter) (hafter.kind_ne (by decide))

omit he hafter

/-- Braces around nothing are a block. -/
theorem block_nothing (after : List TokenKind) : Reading rules .block
    (.leftBrace :: .rightBrace :: after) (.enclosure .leftBrace none .rightBrace) after :=
  .block rfl (.noStatements (.inl rfl)) rfl

/-- Delimiters around nothing are a group. -/
theorem enclosed_nothing (opening closing : TokenKind) (after : List TokenKind) :
    Reading rules (.enclosed opening closing) (opening :: closing :: after)
      (.enclosure opening none closing) after :=
  .emptyEnclosure rfl rfl

/-- A choice with nothing in it is a choice. -/
theorem conditional_nothing (hafter : Concludes rules after) : ∃ t, Reading rules (.phrase .conditional)
    (.ifKw :: .leftParen :: .rightParen :: .leftBrace :: .rightBrace :: after) t after :=
  ⟨_, .conditional rfl (enclosed_nothing _ _ _) (block_nothing after)
    (hafter.kind_ne (by decide))⟩

/-- The tokens behind a name that is declared may be a type and a semicolon. -/
theorem defined_number (he : rules.Extensible) (i : Option TokenKind) (d : Tree TokenKind) :
    ∃ t, Reading rules (.defined i d) (.colon :: .intNumber :: .semicolon :: after) t after :=
  ⟨_, .typedOnly (typing_number he (.of_token rfl after rfl)) rfl⟩

end

/-- At any place a phrase can begin and be completed. -/
theorem completable_phrase (he : rules.Extensible) (p : Phrase) (ts : List TokenKind) :
    Completable rules (.phrase p) ts ts := by
  cases p with
  | operand => exact .of_start [.intNumber] (by decide) (fun _ => trivial) fun _ h => ⟨_, operand_number he h⟩
  | implication => exact .of_start [.intNumber] (by decide) (fun _ => trivial) fun _ h => ⟨_, implication_number he h⟩
  | assignment => exact .of_start [.intNumber] (by decide) (fun _ => trivial) fun _ h => ⟨_, assignment_number he h⟩
  | expression => exact .of_start [.intNumber] (by decide) (fun _ => trivial) fun _ h => ⟨_, expression_number he h⟩
  | statement =>
    exact .of_start [.intNumber, .semicolon] (by decide) (fun _ => trivial) fun after _ =>
      ⟨_, (expression_number he (.of_token rfl after rfl)).statement_of_expression he rfl⟩
  | conditional =>
    exact .of_start [.ifKw, .leftParen, .rightParen, .leftBrace, .rightBrace] (by decide) (fun _ => trivial) fun _ h =>
      conditional_nothing h

/-- At any place a block can begin and be completed. -/
theorem completable_block (ts : List TokenKind) : Completable rules .block ts ts :=
  .of_start [.leftBrace, .rightBrace] (by decide) (fun _ => trivial) fun after _ => ⟨_, block_nothing after⟩

/-- At any place a group can begin and be completed. -/
theorem completable_enclosed {opening closing : TokenKind}
    (hdel : IsGroupDelimiters opening closing) (ts : List TokenKind) :
    Completable rules (.enclosed opening closing) ts ts := by
  refine .of_start [opening, closing] ?_ (fun _ => trivial) fun after _ =>
    ⟨_, enclosed_nothing _ _ after⟩
  rcases hdel with ⟨rfl, rfl⟩ | ⟨rfl, rfl⟩ <;> decide

/-- An operand can be completed so that it begins as before or with a number. -/
theorem Completable.operand_beginning (he : rules.Extensible) {ts rest : List TokenKind}
    (h : Completable rules (.phrase .operand) ts rest) :
    ∃ w, Writable w ∧ ∀ after, Concludes rules after → ∃ ts' v,
      SameFront ts rest ts' (w ++ after) ∧ Reading rules (.phrase .operand) ts' v after ∧
        (kindAt ts' 0 = kindAt ts 0 ∨ kindAt ts' 0 = .intNumber) := by
  by_cases hrest : ts = rest
  · subst hrest
    exact ⟨[.intNumber], by decide, fun after hafter =>
      ⟨_, _, .refl _ _, operand_number he hafter, .inr rfl⟩⟩
  · obtain ⟨w, hw, hcomplete⟩ := h
    refine ⟨w, hw, fun after hafter => ?_⟩
    obtain ⟨ts', v, hts, hread, -⟩ := hcomplete after hafter
    exact ⟨ts', v, hts, hread, .inl (hts.kindAt_of_ne hrest)⟩

end ConcreteSyntax
