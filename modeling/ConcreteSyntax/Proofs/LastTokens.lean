import ConcreteSyntax.Proofs.InitialGroups
import ConcreteSyntax.Proofs.KeptTokens
import Mathlib.Data.List.ReduceOption

/-!
# Last tokens of phrases

An operand ends in a literal, a name, a closing delimiter or a caret, and so does what is made of
operands by operators. A control construct ends where its last part does: most of them end in a
block, but the scope of local bindings may be an operand, and a repetition may have a condition
behind its block. The tree tells which of the two it is.
-/

namespace ConcreteSyntax

open TokenParser Grammar

/-- The kinds in which operands of a dialect end. -/
def Rules.operandEndings (rules : Rules) : KindSet :=
  (KindSet.ofList [.ident, .rightParen, .rightBracket, .caret]).union rules.literals

/-- No token in which operands end is a separator or a brace. -/
theorem Dialect.operandEndings_spec (d : Dialect) (k : TokenKind)
    (h : d.rules.operandEndings.contains k = true) :
    droppedKinds.contains k = false ∧ k ≠ .semicolon ∧ k ≠ .rightBrace :=
  TokenKind.forall_of_all
    (p := fun k => d.rules.operandEndings.contains k = true →
      droppedKinds.contains k = false ∧ k ≠ .semicolon ∧ k ≠ .rightBrace)
    (by cases d <;> decide) k h

variable {τ : Type} [HasKind τ] {rules : Rules}

namespace Tree

/-- Whether a tree ends in a block: it is one, or it is a control construct the last part of which
ends in one. -/
def endsInBlock : Tree τ → Bool :=
  fold fun node inner =>
    match node with
    | .enclosure opening _ _ => HasKind.kind opening == .leftBrace
    | .control .. | .sequence _ => inner.reduceOption.getLast?.getD false
    | _ => false

@[simp] theorem endsInBlock_enclosure (a b : τ) (term : Option (Tree τ)) :
    (enclosure a term b).endsInBlock = (HasKind.kind a == .leftBrace) := rfl

@[simp] theorem endsInBlock_control (k : τ) (head : Option (Tree τ)) (body : Tree τ) :
    (control k head (some body)).endsInBlock = body.endsInBlock := by
  cases head <;> rfl

@[simp] theorem endsInBlock_control_head (k : τ) (head : Tree τ) :
    (control k (some head) none).endsInBlock = head.endsInBlock := rfl

/-- A sequence ends where its last term does. -/
theorem endsInBlock_sequence (ts : List (Tree τ)) :
    (sequence ts).endsInBlock = (ts.getLast?.map endsInBlock).getD false := by
  have hterms : (ts.map some).reduceOption = ts :=
    (List.filterMap_map ..).trans List.filterMap_some
  rw [endsInBlock, fold_eq]
  simp only [children]
  rw [← endsInBlock, List.reduceOption_map, hterms, List.getLast?_map]

@[simp] theorem endsInBlock_sequence_singleton (t : Tree τ) :
    (sequence [t]).endsInBlock = t.endsInBlock := endsInBlock_sequence [t]

/-- The first of several terms does not matter for the end. -/
theorem endsInBlock_sequence_cons {ts : List (Tree τ)} (hne : ts ≠ []) (t : Tree τ) :
    (sequence (t :: ts)).endsInBlock = (sequence ts).endsInBlock := by
  obtain ⟨u, us, rfl⟩ := List.exists_cons_of_ne_nil hne
  rw [endsInBlock_sequence, endsInBlock_sequence, List.getLast?_cons_cons]

/-- The kinds in which a tree ends that is an expression, a block or a control construct. -/
def lastKinds (rules : Rules) (t : Tree τ) : KindSet :=
  if t.endsInBlock then .ofList [.rightBrace] else rules.operandEndings

/-- A constructor is no block. -/
theorem endsInBlock_build (sort : ConstructorSort) (mark : Option τ) (s r : Tree τ) :
    (sort.build mark s r).endsInBlock = false := by
  cases sort <;> rfl

end Tree

/-- That some tokens in front of a rest end in a token of given kinds. -/
def EndsIn (kinds : KindSet) (ts rest : List τ) : Prop :=
  ∃ used last, ts = used ++ last :: rest ∧ kinds.contains (kind last) = true

namespace EndsIn

variable {kinds : KindSet} {ts mid rest : List τ}

/-- One token of such a kind. -/
theorem token {t : τ} (h : kinds.contains (kind t) = true) (rest : List τ) :
    EndsIn kinds (t :: rest) rest := ⟨[], t, rfl, h⟩

/-- More tokens may stand in front. -/
theorem of_suffix (h : EndsIn kinds mid rest) (hs : mid <:+ ts) : EndsIn kinds ts rest := by
  obtain ⟨used, last, rfl, hk⟩ := h
  obtain ⟨front, rfl⟩ := hs
  exact ⟨front ++ used, last, (List.append_assoc ..).symm, hk⟩

/-- A token may stand in front. -/
theorem cons (h : EndsIn kinds ts rest) (t : τ) : EndsIn kinds (t :: ts) rest :=
  h.of_suffix (List.suffix_cons t ts)

end EndsIn

/-- A control construct ends where its body does. -/
theorem EndsIn.control {ts mid rest : List τ} {k : τ} {head : Option (Tree τ)} {body : Tree τ}
    (h : EndsIn (body.lastKinds rules) mid rest) (hs : mid <:+ ts) :
    EndsIn ((Tree.control k head (some body)).lastKinds rules) ts rest := by
  rw [Tree.lastKinds, Tree.endsInBlock_control]
  exact h.of_suffix hs

/-- That a tree is no control construct or block and that its tokens end like those of an
operand. -/
def EndsOperand (rules : Rules) (ts : List τ) (t : Tree τ) (rest : List τ) : Prop :=
  t.endsInBlock = false ∧ EndsIn rules.operandEndings ts rest

/-- An operand ends in one of the kinds that its tree tells. -/
theorem EndsOperand.lastKinds {ts rest : List τ} {t : Tree τ} (h : EndsOperand rules ts t rest) :
    EndsIn (t.lastKinds rules) ts rest := by
  rw [Tree.lastKinds, h.1]
  exact h.2

/-- In which tokens a category ends. Where tokens follow what has been read before, there may be
none. -/
def Category.Ends (rules : Rules) : (c : Category τ) → List τ → c.Result → List τ → Prop
  | .phrase .operand, ts, v, rest | .phrase .implication, ts, v, rest
  | .phrase .assignment, ts, v, rest | .element .value, ts, v, rest | .type, ts, v, rest
  | .constructor, ts, v, rest | .primary, ts, v, rest | .layer _, ts, v, rest =>
    EndsOperand rules ts v rest
  | .enclosed opening closing, ts, v, rest =>
    IsGroupDelimiters opening closing → EndsOperand rules ts v rest
  | .suffixes held, ts, v, rest | .operations _ held, ts, v, rest =>
    (v = held ∧ ts = rest) ∨ EndsOperand rules ts v rest
  | .phrase .expression, ts, v, rest | .phrase .conditional, ts, v, rest | .control, ts, v, rest
  | .alternative, ts, v, rest | .scope, ts, v, rest | .block, ts, v, rest
  | .element .branch, ts, v, rest => EndsIn (v.lastKinds rules) ts rest
  | .separated .branch, ts, vs, rest => EndsIn ((Tree.sequence vs).lastKinds rules) ts rest
  | _, _, _, _ => True

/-- What is read behind an operand ends like one, or there is nothing behind it. -/
theorem EndsOperand.behind {ts mid rest : List τ} {held v : Tree τ}
    (hheld : EndsOperand rules ts held mid) (hs : mid <:+ ts)
    (h : (v = held ∧ mid = rest) ∨ EndsOperand rules mid v rest) : EndsOperand rules ts v rest := by
  rcases h with ⟨rfl, rfl⟩ | h
  · exact hheld
  · exact ⟨h.1, h.2.of_suffix hs⟩

/-- Each phrase ends in a token of the kinds of its category. -/
theorem Reading.ends {c : Category τ} {ts rest : List τ} {v : c.Result}
    (h : Reading rules c ts v rest) : c.Ends rules ts v rest := by
  have hending {k : TokenKind} (hk : (KindSet.ofList [.ident, .rightParen, .rightBracket,
      .caret]).contains k = true) : rules.operandEndings.contains k = true := by
    simp only [Rules.operandEndings, KindSet.contains_union, hk, Bool.true_or]
  have hgroup : ∀ {opening closing : TokenKind}, IsGroupDelimiters opening closing →
      (opening == .leftBrace) = false ∧ rules.operandEndings.contains closing = true := by
    rintro _ _ (⟨rfl, rfl⟩ | ⟨rfl, rfl⟩) <;> exact ⟨rfl, hending (by decide)⟩
  have hparen : IsGroupDelimiters .leftParen .rightParen := .inl ⟨rfl, rfl⟩
  have hbracket : IsGroupDelimiters .leftBracket .rightBracket := .inr ⟨rfl, rfl⟩
  have htail : ∀ {t : τ} {mid ts : List τ}, t :: mid <:+ ts → mid <:+ ts := fun {t mid ts} =>
    (List.suffix_cons t mid).trans
  induction h with
  | @last e _ _ t _ _ ih =>
    cases e with
    | branch =>
      have hlast : EndsIn (t.lastKinds rules) _ _ := ih
      simpa [Category.Ends, Tree.lastKinds] using hlast
    | name | item | items | value => trivial
  | @more e _ mid _ t _ vs h _ ho _ ih' =>
    cases e with
    | branch =>
      have hlast : EndsIn ((Tree.sequence vs).lastKinds rules) mid _ := ih'
      have hmore := hlast.of_suffix (htail h.suffix)
      rw [Tree.lastKinds, ← Tree.endsInBlock_sequence_cons ho.separated_ne_nil t] at hmore
      exact hmore
    | name | item | items | value => trivial
  | operandType _ _ ih | implicationType _ _ ih | constructorOperand _ _ ih
  | valueOperand _ _ _ ih | layerOperand _ ih | implicationEnd _ _ ih | assignmentEnd _ _ ih
  | furtherChoice _ _ ih | lastChoice _ _ ih | conditionalControl _ _ ih | blockScope _ _ ih
  | expressionScope _ _ ih | controlExpression _ _ ih => exact ih
  | @emptyEnclosure _ _ a b ts ha hb =>
    intro hdel
    obtain ⟨hopening, hclosing⟩ := hgroup hdel
    rw [← ha] at hopening
    rw [← hb] at hclosing
    exact ⟨hopening, (EndsIn.token hclosing ts).cons a⟩
  | @enclosure _ _ a b _ rest _ ha _ h hb =>
    intro hdel
    obtain ⟨hopening, hclosing⟩ := hgroup hdel
    rw [← ha] at hopening
    rw [← hb] at hclosing
    exact ⟨hopening, ((EndsIn.token hclosing rest).of_suffix h.suffix).cons a⟩
  | @block a b _ rest _ ha h hb =>
    have hclosing : (KindSet.ofList [.rightBrace]).contains (kind b) = true := by
      rw [hb]
      decide
    have hlast := ((EndsIn.token hclosing rest).of_suffix h.suffix).cons a
    simpa [Category.Ends, Tree.lastKinds, show HasKind.kind a = .leftBrace from ha] using hlast
  | wordConstructor _ _ hs _ _ ih' =>
    exact ⟨Tree.endsInBlock_build .., (ih'.2.of_suffix hs.suffix).cons _⟩
  | unmarkedConstructor _ hs _ _ ih' =>
    exact ⟨Tree.endsInBlock_build .., ih'.2.of_suffix hs.suffix⟩
  | markedConstructor _ _ hs _ _ ih' =>
    exact ⟨Tree.endsInBlock_build .., ih'.2.of_suffix (htail hs.suffix)⟩
  | literal hl =>
    exact ⟨rfl, .token (by simp only [Rules.operandEndings, KindSet.contains_union, hl,
      Bool.or_true]) _⟩
  | identifier _ hk => exact ⟨rfl, .token (hending (by rw [hk]; decide)) _⟩
  | paren _ _ ih => exact ih hparen
  | bracket _ _ ih => exact ih hbracket
  | suffixesEnd | operationsEnd => exact .inl ⟨rfl, rfl⟩
  | @call v a _ _ mid _ ha _ ih ih' =>
    have hheld : EndsOperand rules _ (.call v a) mid := ⟨rfl, (ih hparen).2⟩
    exact .inr (hheld.behind ha.suffix ih')
  | @index v a _ _ mid _ ha _ ih ih' =>
    have hheld : EndsOperand rules _ (.index v a) mid := ⟨rfl, (ih hbracket).2⟩
    exact .inr (hheld.behind ha.suffix ih')
  | @member v _ d n ts _ hd hn _ ih =>
    have hheld : EndsOperand rules (d :: n :: ts) (.infixOp v d (.identifier n)) ts :=
      ⟨rfl, (EndsIn.token (hending (by rw [hn]; decide)) ts).cons d⟩
    exact .inr (hheld.behind (htail (List.suffix_cons d _)) ih)
  | @caret v _ c ts _ hc _ _ ih =>
    have hheld : EndsOperand rules (c :: ts) (.postfixOp v c) ts :=
      ⟨rfl, .token (hending (by rw [hc]; decide)) ts⟩
    exact .inr (hheld.behind (List.suffix_cons c ts) ih)
  | value hp _ ih ih' => exact EndsOperand.behind ih hp.suffix ih'
  | layer hl _ ih ih' => exact EndsOperand.behind ih hl.suffix ih'
  | prefixOperand _ _ ih => exact ⟨rfl, ih.2.cons _⟩
  | @operation n l r _ o ts mid _ _ hr _ ih ih' =>
    have hheld : EndsOperand rules (o :: ts) (.infixOp l o r) mid := ⟨rfl, ih.2.cons o⟩
    exact .inr (hheld.behind (hr.suffix.trans (List.suffix_cons o ts)) ih')
  | implication hl _ _ _ ih' | assignment hl _ _ _ ih' =>
    exact ⟨rfl, ih'.2.of_suffix (htail hl.suffix)⟩
  | conditional _ hc _ _ _ ih' | loop _ hc _ _ ih' | caseDistinction _ hc _ _ ih'
  | functionValue _ hc _ _ ih' | localBinding _ hc _ _ ih' =>
    exact EndsIn.control ih' (hc.suffix.trans (List.suffix_cons ..))
  | choice _ hc hb _ _ _ _ ih'' =>
    exact EndsIn.control ih'' ((htail (hb.suffix.trans hc.suffix)).trans (List.suffix_cons ..))
  | branch hp _ _ _ ih' => exact EndsIn.control ih' (htail hp.suffix)
  | doBlock _ _ _ ih => exact EndsIn.cons ih _
  | @doWhile _ w _ _ _ _ c _ hb _ _ _ _ ih' =>
    have htailed : EndsIn ((Tree.control w (some c) none).lastKinds rules) _ _ :=
      EndsOperand.lastKinds (ih' hparen)
    exact EndsIn.control htailed ((htail hb.suffix).trans (List.suffix_cons ..))
  | assignmentExpression _ _ ih => exact EndsOperand.lastKinds ih
  | _ => trivial

/-- The last token of a phrase that ends like an expression or a block is the last one of its
tree. -/
theorem EndsIn.exists_last (d : Dialect) {ts rest : List τ} {t : Tree τ}
    (h : EndsIn (t.lastKinds d.rules) ts rest) (hkeeps : KeepsTo ts t.tokens rest) :
    ∃ used last, ts = used ++ last :: rest ∧ t.tokens.getLast? = some last ∧
      (t.lastKinds d.rules).contains (kind last) = true := by
  obtain ⟨used, last, rfl, hk⟩ := h
  obtain ⟨used', hused, hkeeps⟩ := hkeeps
  obtain rfl : used ++ [last] = used' := List.append_cancel_right (by simpa using hused)
  refine ⟨used, last, rfl, hkeeps.getLast?_eq ?_, hk⟩
  have hdropped : droppedKinds.contains (kind last) = false := by
    rw [Tree.lastKinds] at hk
    split at hk
    · have hbrace : ∀ k : TokenKind, (KindSet.ofList [.rightBrace]).contains k = true →
          droppedKinds.contains k = false := TokenKind.forall_of_all (by decide)
      exact hbrace _ hk
    · exact (d.operandEndings_spec _ hk).1
  exact Bool.eq_false_iff.1 hdropped

end ConcreteSyntax
