import ConcreteSyntax.Proofs.PrintedTrees
import ConcreteSyntax.Proofs.ReadingSoundness

/-!
# The tokens of a tree in grammatical order

The leading token of a node stands in front of its operands, between them or behind
them, and its trailing token behind them. In this order the tokens of a tree are the
tokens from which it was read, except for separators.
-/

namespace ConcreteSyntax

open TokenParser Grammar

variable {τ : Type} [HasKind τ]

namespace Tree

/-- The number of operands in front of the leading token of a node. Operators behind or
between operands, marks of constraints, arrows of constructors and branches, and the
word between the parts of a choice have one operand in front. -/
def operandsBefore : Tree τ → Nat
  | postfixOp .. | infixOp .. | constraint .. => 1
  | array mark .. | function mark .. | template mark .. => if leads mark then 0 else 1
  | control keyword .. =>
    if HasKind.kind keyword = .elseKw ∨ HasKind.kind keyword = .fatArrow then 1 else 0
  | _ => 0

/-- The tokens of a tree in grammatical order. -/
def tokens : Tree τ → List τ :=
  fold fun t inner =>
    (inner.take t.operandsBefore).flatMap (·.getD []) ++ t.token?.toList ++
      (inner.drop t.operandsBefore).flatMap (·.getD []) ++ t.trailingToken?.toList

/-- The tokens of an operand place. -/
def slotTokens (slot : Option (Tree τ)) : List τ := slot.elim [] tokens

@[simp] theorem slotTokens_none : slotTokens (none : Option (Tree τ)) = [] := rfl

@[simp] theorem slotTokens_some (t : Tree τ) : slotTokens (some t) = t.tokens := rfl

/-- The tokens of a node are its own and those of its operands. -/
theorem tokens_eq (t : Tree τ) :
    t.tokens = (t.children.take t.operandsBefore).flatMap slotTokens ++ t.token?.toList ++
      (t.children.drop t.operandsBefore).flatMap slotTokens ++ t.trailingToken?.toList := by
  have hflat : ∀ slots : List (Option (Tree τ)),
      (slots.map (Option.map tokens)).flatMap (·.getD []) = slots.flatMap slotTokens := by
    intro slots
    rw [List.flatMap_map]
    congr 1
    funext slot
    cases slot <;> rfl
  unfold tokens at hflat ⊢
  rw [fold_eq, ← List.map_take, ← List.map_drop, hflat, hflat]

section

variable (a b : Tree τ) (o e : τ) (s s' : Option (Tree τ)) (ts : List (Tree τ))

attribute [local simp] operandsBefore children token? trailingToken?

@[simp] theorem tokens_literal : (literal o).tokens = [o] := rfl

@[simp] theorem tokens_identifier : (identifier o).tokens = [o] := rfl

@[simp] theorem tokens_prefixOp : (prefixOp o a).tokens = o :: a.tokens := by
  simp [tokens_eq (prefixOp o a)]

@[simp] theorem tokens_postfixOp : (postfixOp a o).tokens = a.tokens ++ [o] := by
  simp [tokens_eq (postfixOp a o)]

@[simp] theorem tokens_enclosure :
    (enclosure o s e).tokens = o :: (slotTokens s ++ [e]) := by
  simp [tokens_eq (enclosure o s e)]

@[simp] theorem tokens_file : (file s).tokens = slotTokens s := by
  simp [tokens_eq (file s)]

@[simp] theorem tokens_infixOp : (infixOp a o b).tokens = a.tokens ++ o :: b.tokens := by
  simp [tokens_eq (infixOp a o b)]

/-- A reserved word stands in front of the specifier of a constructor. -/
theorem tokens_build_of_leads (sort : ConstructorSort) {mark : Option τ} (h : leads mark = true) :
    (sort.build mark a b).tokens = mark.toList ++ (a.tokens ++ b.tokens) := by
  cases sort <;> simp [ConstructorSort.build, tokens_eq, h]

/-- An arrow stands behind the specifier of a constructor. -/
theorem tokens_build_of_not_leads (sort : ConstructorSort) {mark : Option τ}
    (h : leads mark = false) :
    (sort.build mark a b).tokens = a.tokens ++ (mark.toList ++ b.tokens) := by
  cases sort <;> simp [ConstructorSort.build, tokens_eq, h]

@[simp] theorem tokens_call : (call a b).tokens = a.tokens ++ b.tokens := by
  simp [tokens_eq (call a b)]

@[simp] theorem tokens_index : (index a b).tokens = a.tokens ++ b.tokens := by
  simp [tokens_eq (index a b)]

/-- The word between the parts of a choice and the arrow of a branch stand behind the
first part. -/
theorem tokens_control_between (h : HasKind.kind o = .elseKw ∨ HasKind.kind o = .fatArrow) :
    (control o s s').tokens = slotTokens s ++ o :: slotTokens s' := by
  simp [tokens_eq (control o s s'), h]

/-- The word of any other control construct stands in front. -/
theorem tokens_control_before
    (h : ¬ (HasKind.kind o = .elseKw ∨ HasKind.kind o = .fatArrow)) :
    (control o s s').tokens = o :: (slotTokens s ++ slotTokens s') := by
  simp [tokens_eq (control o s s'), h]

@[simp] theorem tokens_constraint :
    (constraint o s b).tokens = slotTokens s ++ o :: b.tokens := by
  simp [tokens_eq (constraint o s b)]

@[simp] theorem tokens_capture : (capture a b).tokens = a.tokens ++ b.tokens := by
  simp [tokens_eq (capture a b)]

@[simp] theorem tokens_declaration (i t : Option τ) (s'' : Option (Tree τ)) :
    (declaration i s s' s'' t).tokens =
      i.toList ++ (slotTokens s ++ (slotTokens s' ++ (slotTokens s'' ++ t.toList))) := by
  simp [tokens_eq (declaration i s s' s'' t)]

@[simp] theorem tokens_list : (list ts).tokens = ts.flatMap tokens := by
  simp [tokens_eq (list ts), List.flatMap_map]

@[simp] theorem tokens_sequence : (sequence ts).tokens = ts.flatMap tokens := by
  simp [tokens_eq (sequence ts), List.flatMap_map]

@[simp] theorem tokens_joined : (joined ts).tokens = ts.flatMap tokens := by
  cases ts with
  | nil => simp [joined]
  | cons t ts => cases ts <;> simp [joined]

@[simp] theorem slotTokens_sequence? : slotTokens (sequence? ts) = ts.flatMap tokens := by
  cases ts <;> simp [sequence?]

end

end Tree

/-! ## Kept tokens -/

/-- The kinds of the tokens that trees drop. -/
def droppedKinds : KindSet := .ofList [.comma, .semicolon, .colon, .eq, .elseKw]

/-- That tokens are kept from others in order, and that all that are dropped may be. -/
inductive Keeps {τ : Type} (droppable : τ → Prop) : List τ → List τ → Prop
  /-- Nothing is kept of nothing. -/
  | nil : Keeps droppable [] []
  /-- A token is kept. -/
  | keep (t : τ) {kept used : List τ} (h : Keeps droppable kept used) :
    Keeps droppable (t :: kept) (t :: used)
  /-- A token is dropped. -/
  | drop {t : τ} {kept used : List τ} (ht : droppable t) (h : Keeps droppable kept used) :
    Keeps droppable kept (t :: used)

namespace Keeps

variable {τ : Type} {droppable : τ → Prop} {kept used kept' used' : List τ}

/-- All tokens may be kept. -/
theorem refl (ts : List τ) : Keeps droppable ts ts := by
  induction ts with
  | nil => exact .nil
  | cons t ts ih => exact .keep t ih

/-- What is kept of two parts is kept of both. -/
theorem append (h : Keeps droppable kept used) (h' : Keeps droppable kept' used') :
    Keeps droppable (kept ++ kept') (used ++ used') := by
  induction h with
  | nil => exact h'
  | keep t _ ih => exact .keep t ih
  | drop ht _ ih => exact .drop ht ih

/-- Kept tokens keep their order. -/
theorem sublist (h : Keeps droppable kept used) : kept.Sublist used := by
  induction h with
  | nil => exact .slnil
  | keep t _ ih => exact ih.cons_cons t
  | drop _ _ ih => exact ih.cons _

/-- Every token is kept or may be dropped. -/
theorem mem_or (h : Keeps droppable kept used) : ∀ t ∈ used, t ∈ kept ∨ droppable t := by
  induction h with
  | nil => simp
  | keep t _ ih =>
    intro u hu
    rcases List.mem_cons.1 hu with rfl | hu
    · exact .inl List.mem_cons_self
    · exact (ih u hu).imp_left (List.mem_cons_of_mem t)
  | drop ht _ ih =>
    intro u hu
    rcases List.mem_cons.1 hu with rfl | hu
    · exact .inr ht
    · exact ih u hu

end Keeps

/-- That tokens are kept from those between a list and one of its ends, and that only
separators are dropped. -/
def KeepsTo (ts kept rest : List τ) : Prop :=
  ∃ used, ts = used ++ rest ∧ Keeps (fun t => droppedKinds.contains (kind t) = true) kept used

namespace KeepsTo

variable {ts mid rest kept kept' : List τ}

/-- Nothing is kept where nothing is read. -/
theorem refl (ts : List τ) : KeepsTo ts [] ts := ⟨[], rfl, .nil⟩

/-- Kept tokens of two parts are joined. -/
theorem trans (h : KeepsTo ts kept mid) (h' : KeepsTo mid kept' rest) :
    KeepsTo ts (kept ++ kept') rest := by
  obtain ⟨used, rfl, hu⟩ := h
  obtain ⟨used', rfl, hu'⟩ := h'
  exact ⟨used ++ used', (List.append_assoc ..).symm, hu.append hu'⟩

/-- What is kept may be written in another way. -/
theorem cast (h : KeepsTo ts kept rest) (he : kept' = kept) : KeepsTo ts kept' rest := he ▸ h

/-- A token in front may be kept. -/
theorem keep (t : τ) (h : KeepsTo ts kept rest) : KeepsTo (t :: ts) (t :: kept) rest := by
  obtain ⟨used, rfl, hu⟩ := h
  exact ⟨t :: used, rfl, hu.keep t⟩

/-- A separator in front may be dropped. -/
theorem drop {t : τ} {k : TokenKind} (ht : kind t = k) (h : KeepsTo ts kept rest)
    (hk : droppedKinds.contains k = true := by decide) : KeepsTo (t :: ts) kept rest := by
  obtain ⟨used, rfl, hu⟩ := h
  exact ⟨t :: used, rfl, .drop (ht ▸ hk) hu⟩

end KeepsTo

/-! ## Readings keep their tokens -/

/-- That what a category reads keeps its tokens in grammatical order. The tokens of what
has been read before stand in front. -/
def Category.Ordered : (c : Category τ) → List τ → c.Result → List τ → Prop
  | .separated _, ts, vs, rest => KeepsTo ts (vs.flatMap Tree.tokens) rest
  | .statements, ts, vs, rest => KeepsTo ts (vs.flatMap Tree.tokens) rest
  | .declarations, ts, vs, rest => KeepsTo ts (vs.flatMap Tree.tokens) rest
  | .typing, ts, v, rest => KeepsTo ts (Tree.slotTokens v) rest
  | .initial, ts, v, rest => KeepsTo ts (Tree.slotTokens v) rest
  | .suffixes value, ts, v, rest =>
    ∃ kept, v.tokens = value.tokens ++ kept ∧ KeepsTo ts kept rest
  | .operations _ left, ts, v, rest =>
    ∃ kept, v.tokens = left.tokens ++ kept ∧ KeepsTo ts kept rest
  | .defined introducer declarator, ts, v, rest =>
    ∃ kept, v.tokens = introducer.toList ++ (declarator.tokens ++ kept) ∧ KeepsTo ts kept rest
  | .phrase _, ts, v, rest => KeepsTo ts v.tokens rest
  | .element _, ts, v, rest => KeepsTo ts v.tokens rest
  | .type, ts, v, rest => KeepsTo ts v.tokens rest
  | .parameter, ts, v, rest => KeepsTo ts v.tokens rest
  | .enclosed _ _, ts, v, rest => KeepsTo ts v.tokens rest
  | .block, ts, v, rest => KeepsTo ts v.tokens rest
  | .constructor, ts, v, rest => KeepsTo ts v.tokens rest
  | .primary, ts, v, rest => KeepsTo ts v.tokens rest
  | .layer _, ts, v, rest => KeepsTo ts v.tokens rest
  | .alternative, ts, v, rest => KeepsTo ts v.tokens rest
  | .functionHead, ts, v, rest => KeepsTo ts v.tokens rest
  | .scope, ts, v, rest => KeepsTo ts v.tokens rest
  | .control, ts, v, rest => KeepsTo ts v.tokens rest
  | .definition, ts, v, rest => KeepsTo ts v.tokens rest

/-- The reserved word of a constructor leads it. -/
theorem ConstructorSort.leads_word {sort : ConstructorSort} {m : τ} (hm : kind m = sort.word) :
    Tree.leads (some m) = true := by
  cases sort <;> simp [Tree.leads, hm, ConstructorSort.word]

/-- The arrow of a constructor does not lead it. -/
theorem ConstructorSort.not_leads_arrow {sort : ConstructorSort} {m : τ}
    (hm : kind m = sort.arrow) : Tree.leads (some m) = false := by
  cases sort <;> simp [Tree.leads, hm, ConstructorSort.arrow]

/-- Every reading keeps all tokens but separators, in grammatical order. -/
theorem Reading.ordered {rules : Rules} {c : Category τ} {ts rest : List τ} {v : c.Result}
    (h : Reading rules c ts v rest) : c.Ordered ts v rest := by
  induction h with
  | @name t _ hk => exact .keep t (.refl _)
  | last _ _ ih => exact KeepsTo.cast ih (by simp)
  | @more e _ _ _ _ _ _ _ hs _ ih ih' =>
    have hsep : droppedKinds.contains e.separator = true := by cases e <;> decide
    exact (KeepsTo.trans ih (.drop hs ih' hsep)).cast (by simp)
  | operandType _ _ ih => exact ih
  | implicationType _ _ ih => exact ih
  | omittedType hc => exact .drop hc (.refl _)
  | plainType hc _ _ _ ih => exact .drop hc ih
  | @constrainedType _ m _ _ _ _ _ hc _ _ hm _ ih ih' =>
    exact (KeepsTo.drop hc (KeepsTo.trans ih (.keep m ih'))).cast (by simp)
  | @colonConstraint _ m _ _ _ hc hm _ ih => exact (KeepsTo.drop hc (.keep m ih)).cast (by simp)
  | @bareConstraint m _ _ _ hm _ ih => exact (KeepsTo.keep m ih).cast (by simp)
  | noInitial => exact .refl _
  | initial he _ ih => exact .drop he ih
  | unnamedParameter _ _ _ ih ih' => exact (KeepsTo.trans ih ih').cast (by simp)
  | namedParameter _ _ _ _ ih ih' ih'' =>
    exact (KeepsTo.trans ih (KeepsTo.trans ih' ih'')).cast (by simp)
  | parameterItem _ _ ih => exact ih
  | expressionItem _ _ ih => exact ih
  | items _ ih => exact KeepsTo.cast ih (by simp)
  | @emptyEnclosure _ _ a b => exact (KeepsTo.keep a (.keep b (.refl _))).cast (by simp)
  | @enclosure _ _ a b _ _ _ _ _ _ _ ih =>
    exact (KeepsTo.keep a (KeepsTo.trans ih (.keep b (.refl _)))).cast (by simp)
  | noStatements => exact .refl _
  | statements _ _ _ _ ih ih' => exact (KeepsTo.trans ih ih').cast (by simp)
  | @block a b _ _ _ _ _ _ ih =>
    exact (KeepsTo.keep a (KeepsTo.trans ih (.keep b (.refl _)))).cast (by simp)
  | @wordConstructor sort m _ _ _ s r _ hm _ _ ih ih' =>
    exact (KeepsTo.keep m (KeepsTo.trans ih ih')).cast
      (Tree.tokens_build_of_leads s r sort (ConstructorSort.leads_word hm))
  | @unmarkedConstructor sort _ _ _ s r _ _ _ ih ih' =>
    exact (KeepsTo.trans ih ih').cast (Tree.tokens_build_of_not_leads s r sort rfl)
  | @markedConstructor sort m _ _ _ s r _ hm _ _ ih ih' =>
    exact (KeepsTo.trans ih (.keep m ih')).cast
      (Tree.tokens_build_of_not_leads s r sort (ConstructorSort.not_leads_arrow hm))
  | @literal t => exact .keep t (.refl _)
  | @identifier t => exact .keep t (.refl _)
  | paren _ _ ih => exact ih
  | bracket _ _ ih => exact ih
  | suffixesEnd => exact ⟨[], by simp, .refl _⟩
  | call _ _ ih ih' =>
    obtain ⟨kept, hv, hk⟩ := ih'
    exact ⟨_, by rw [hv, Tree.tokens_call, List.append_assoc], KeepsTo.trans ih hk⟩
  | index _ _ ih ih' =>
    obtain ⟨kept, hv, hk⟩ := ih'
    exact ⟨_, by rw [hv, Tree.tokens_index, List.append_assoc], KeepsTo.trans ih hk⟩
  | @member _ _ d n _ _ _ _ _ ih =>
    obtain ⟨kept, hv, hk⟩ := ih
    exact ⟨d :: n :: kept, by simp [hv], .keep d (.keep n hk)⟩
  | @caret _ _ c _ _ _ _ _ ih =>
    obtain ⟨kept, hv, hk⟩ := ih
    exact ⟨c :: kept, by simp [hv], .keep c hk⟩
  | value _ _ ih ih' =>
    obtain ⟨kept, hv, hk⟩ := ih'
    exact (KeepsTo.trans ih hk).cast hv
  | @prefixOperand o _ _ _ _ _ ih => exact (KeepsTo.keep o ih).cast (by simp)
  | constructorOperand _ _ ih => exact ih
  | valueOperand _ _ _ ih => exact ih
  | layerOperand _ ih => exact ih
  | layer _ _ ih ih' =>
    obtain ⟨kept, hv, hk⟩ := ih'
    exact (KeepsTo.trans ih hk).cast hv
  | operationsEnd => exact ⟨[], by simp, .refl _⟩
  | @operation _ _ r _ o _ _ _ _ _ _ ih ih' =>
    obtain ⟨kept, hv, hk⟩ := ih'
    exact ⟨o :: (r.tokens ++ kept), by simp [hv], .keep o (KeepsTo.trans ih hk)⟩
  | implicationEnd _ _ ih => exact ih
  | @implication _ _ _ _ _ o _ _ _ ih ih' =>
    exact (KeepsTo.trans ih (.keep o ih')).cast (by simp)
  | assignmentEnd _ _ ih => exact ih
  | @assignment _ _ _ _ _ o _ _ _ ih ih' =>
    exact (KeepsTo.trans ih (.keep o ih')).cast (by simp)
  | @conditional k _ _ _ _ _ hk _ _ _ ih ih' =>
    exact (KeepsTo.keep k (KeepsTo.trans ih ih')).cast
      (Tree.tokens_control_before _ _ _ (by rw [hk]; decide))
  | @choice k e _ _ _ _ _ _ _ hk _ _ he _ ih ih' ih'' =>
    refine (KeepsTo.keep k (KeepsTo.trans ih (KeepsTo.trans ih' (.keep e ih'')))).cast ?_
    rw [Tree.tokens_control_between _ _ _ (.inl he), Tree.slotTokens_some,
      Tree.tokens_control_before _ _ _ (by rw [hk]; decide)]
    simp
  | furtherChoice _ _ ih => exact ih
  | lastChoice _ _ ih => exact ih
  | @branch a _ _ _ _ _ _ ha _ ih ih' =>
    exact (KeepsTo.trans ih (.keep a ih')).cast (Tree.tokens_control_between _ _ _ (.inr ha))
  | conditionalControl _ _ ih => exact ih
  | @caseDistinction k _ _ _ _ _ hk _ _ ih ih' =>
    refine (KeepsTo.keep k (KeepsTo.trans ih ih')).cast ?_
    rw [Tree.tokens_control_before _ _ _ (by rw [hk]; decide)]
    simp
  | @loop k _ _ _ _ _ hk _ _ ih ih' =>
    exact (KeepsTo.keep k (KeepsTo.trans ih ih')).cast
      (Tree.tokens_control_before _ _ _ (by rcases hk with hk | hk <;> (rw [hk]; decide)))
  | @doBlock k _ _ _ hk _ _ ih =>
    refine (KeepsTo.keep k ih).cast ?_
    rw [Tree.tokens_control_before _ _ _ (by rw [hk]; decide)]
    simp
  | @doWhile k w _ _ _ _ _ hk _ hw _ _ ih ih' =>
    refine (KeepsTo.keep k (KeepsTo.trans ih (.keep w ih'))).cast ?_
    rw [Tree.tokens_control_before _ _ _ (by rw [hk]; decide), Tree.slotTokens_some,
      Tree.slotTokens_some, Tree.tokens_control_before _ _ _ (by rw [hw]; decide)]
    simp
  | captures _ _ _ ih ih' => exact (KeepsTo.trans ih ih').cast (by simp)
  | noCaptures _ _ ih => exact ih
  | @functionValue k _ _ _ _ _ hk _ _ ih ih' =>
    exact (KeepsTo.keep k (KeepsTo.trans ih ih')).cast
      (Tree.tokens_control_before _ _ _ (by rw [hk]; decide))
  | blockScope _ _ ih => exact ih
  | expressionScope _ _ ih => exact ih
  | @localBinding k _ _ _ _ _ hk _ _ ih ih' =>
    exact (KeepsTo.keep k (KeepsTo.trans ih ih')).cast
      (Tree.tokens_control_before _ _ _ (by rw [hk]; decide))
  | controlExpression _ _ ih => exact ih
  | assignmentExpression _ _ ih => exact ih
  | @typedOnly _ _ type s _ _ _ _ ih =>
    exact ⟨type.tokens ++ [s], by simp, KeepsTo.trans ih (.keep s (.refl _))⟩
  | @definedBlock _ _ b type _ _ _ _ _ ih ih' =>
    exact ⟨Tree.slotTokens type ++ b.tokens, by simp, KeepsTo.trans ih ih'⟩
  | @definedValue _ _ v type _ s _ _ _ _ he _ _ ih ih' =>
    exact ⟨Tree.slotTokens type ++ (v.tokens ++ [s]), by simp,
      KeepsTo.trans ih (.drop he (KeepsTo.trans ih' (.keep s (.refl _))))⟩
  | @introduced i _ _ _ _ _ _ _ _ ih ih' =>
    obtain ⟨kept, hv, hk⟩ := ih'
    exact (KeepsTo.keep i (KeepsTo.trans ih hk)).cast (by simp [hv])
  | unintroduced _ _ _ ih ih' =>
    obtain ⟨kept, hv, hk⟩ := ih'
    exact (KeepsTo.trans ih hk).cast (by simp [hv])
  | definitionStatement _ _ ih => exact ih
  | controlStatement _ _ _ _ ih => exact ih
  | terminatedControl _ _ _ hs ih => exact (KeepsTo.trans ih (.drop hs (.refl _))).cast (by simp)
  | expressionStatement _ _ _ hs ih => exact (KeepsTo.trans ih (.drop hs (.refl _))).cast (by simp)
  | noDeclarations => exact .refl _
  | declarations _ _ _ ih ih' => exact (KeepsTo.trans ih ih').cast (by simp)

end ConcreteSyntax
