import ConcreteSyntax.Proofs.GrammarReadings

/-!
# Balanced brackets

Counting brackets passes over balanced tokens without a change of depth. Every reading
takes balanced tokens, although the readings of enclosures pair delimiters by type and
the counting does not. Hence the closer that counting finds for the opener of an
enclosure is the closer of that enclosure.
-/

namespace ConcreteSyntax

open TokenParser Grammar

/-- The kinds that open or close a bracket. -/
def TokenKind.isBracket (k : TokenKind) : Bool := openers.contains k || closers.contains k

/-- Operators and literals are neither brackets nor the end of the text. -/
structure Rules.Proper (rules : Rules) : Prop where
  /-- Prefix operators are ordinary tokens. -/
  prefixes : ∀ {k : TokenKind}, rules.prefixOperators.contains k = true →
    k.isBracket = false ∧ k ≠ .eof
  /-- Implication operators are ordinary tokens. -/
  implications : ∀ {k : TokenKind}, rules.implicationOperators.contains k = true →
    k.isBracket = false ∧ k ≠ .eof
  /-- Literals are ordinary tokens. -/
  literals : ∀ {k : TokenKind}, rules.literals.contains k = true →
    k.isBracket = false ∧ k ≠ .eof

/-- What holds of all listed kinds holds of all kinds. -/
theorem TokenKind.forall_of_all {p : TokenKind → Prop} (h : ∀ k ∈ TokenKind.all, p k)
    (k : TokenKind) : p k := h k k.mem_all

/-- The operators and literals of the dialects are proper. -/
theorem Dialect.proper_rules (d : Dialect) : d.rules.Proper := by
  constructor
  · exact fun {k} => TokenKind.forall_of_all
      (p := fun k => d.rules.prefixOperators.contains k = true → k.isBracket = false ∧ k ≠ .eof)
      (by cases d <;> decide) k
  · exact fun {k} => TokenKind.forall_of_all
      (p := fun k => d.rules.implicationOperators.contains k = true →
        k.isBracket = false ∧ k ≠ .eof)
      (by cases d <;> decide) k
  · exact fun {k} => TokenKind.forall_of_all
      (p := fun k => d.rules.literals.contains k = true → k.isBracket = false ∧ k ≠ .eof)
      (by cases d <;> decide) k

/-- The operators of the layers are ordinary tokens. -/
theorem layerOperators_proper {n : Nat} {k : TokenKind}
    (h : (layerOperators n).contains k = true) : k.isBracket = false ∧ k ≠ .eof := by
  have hall : ∀ m < 6, ∀ k ∈ TokenKind.all,
      (layerOperators m).contains k = true → k.isBracket = false ∧ k ≠ .eof := by decide
  by_cases hn : n < 6
  · exact hall n hn k k.mem_all h
  · obtain ⟨m, rfl⟩ : ∃ m, n = m + 6 := ⟨n - 6, by omega⟩
    simp [layerOperators, KindSet.contains_empty] at h

variable {τ : Type} [HasKind τ]

/-- Tokens over which counting brackets passes without a change of depth. -/
def Balanced (used : List τ) : Prop :=
  ∀ (depth place : Nat) (rest : List τ),
    closerFrom depth place (used ++ rest) = closerFrom depth (place + used.length) rest

/-- The tokens between a list and one of its ends are balanced. -/
def BalancedTo (ts rest : List τ) : Prop := ∃ used, ts = used ++ rest ∧ Balanced used

namespace BalancedTo

variable {ts mid rest : List τ}

/-- No tokens are balanced. -/
theorem refl (ts : List τ) : BalancedTo ts ts := ⟨[], rfl, fun _ _ _ => rfl⟩

/-- Balanced tokens may be joined. -/
theorem trans (h : BalancedTo ts mid) (h' : BalancedTo mid rest) : BalancedTo ts rest := by
  obtain ⟨used, rfl, hu⟩ := h
  obtain ⟨used', rfl, hu'⟩ := h'
  refine ⟨used ++ used', (List.append_assoc ..).symm, fun depth place rest => ?_⟩
  rw [List.append_assoc, hu, hu', List.length_append, Nat.add_assoc]

/-- A token that is no bracket is balanced. -/
theorem token {t : τ} (hk : (kind t).isBracket = false) (ts : List τ) :
    BalancedTo (t :: ts) ts := by
  refine ⟨[t], rfl, fun depth place rest => ?_⟩
  obtain ⟨ho, hc⟩ := Bool.or_eq_false_iff.1 hk
  simp [closerFrom, ho, hc]

/-- A token that is no bracket may stand in front. -/
theorem cons {t : τ} (hk : (kind t).isBracket = false) (h : BalancedTo ts rest) :
    BalancedTo (t :: ts) rest :=
  (token hk ts).trans h

/-- A token of a given kind that is no bracket may stand in front. -/
theorem consOf {t : τ} {k : TokenKind} (ht : kind t = k) (h : BalancedTo ts rest)
    (hk : k.isBracket = false := by decide) : BalancedTo (t :: ts) rest :=
  cons (ht ▸ hk) h

/-- Brackets around balanced tokens are balanced. -/
theorem brackets {a b : τ} (ha : openers.contains (kind a) = true)
    (hb : closers.contains (kind b) = true) (hb' : openers.contains (kind b) = false)
    (h : BalancedTo ts (b :: rest)) : BalancedTo (a :: ts) rest := by
  obtain ⟨used, rfl, hu⟩ := h
  refine ⟨a :: (used ++ [b]), by simp, fun depth place rest => ?_⟩
  have hin : closerFrom (depth + 1) (place + 1) (used ++ b :: rest) =
      closerFrom depth (place + 1 + used.length + 1) rest := by
    rw [hu, closerFrom, if_neg (by simp [hb']), if_pos hb]
  simp only [List.cons_append, List.append_assoc, List.nil_append, closerFrom, ha, if_true, hin,
    List.length_cons, List.length_append, List.length_nil]
  congr 1
  omega

end BalancedTo

/-- The delimiters of an enclosure of the grammar. -/
def IsDelimiters (opening closing : TokenKind) : Prop :=
  openers.contains opening = true ∧ closers.contains closing = true ∧
    openers.contains closing = false

/-- Parentheses and brackets are delimiters. -/
theorem ConstructorSort.isDelimiters (sort : ConstructorSort) :
    IsDelimiters sort.opening sort.closing := by
  cases sort <;> (unfold IsDelimiters; decide)

/-- The brackets that a category may read as delimiters. -/
def Category.Delimited : Category τ → Prop
  | .enclosed opening closing => IsDelimiters opening closing
  | _ => True

/-- Every reading takes balanced tokens. -/
theorem Reading.balancedTo {rules : Rules} (hp : rules.Proper) {c : Category τ} {ts rest : List τ}
    {v : c.Result} (h : Reading rules c ts v rest) (hdel : c.Delimited) : BalancedTo ts rest := by
  have paren : IsDelimiters .leftParen .rightParen := by unfold IsDelimiters; decide
  have bracket : IsDelimiters .leftBracket .rightBracket := by unfold IsDelimiters; decide
  induction h with
  | name hk => exact .consOf hk (.refl _)
  | last _ _ ih => exact ih trivial
  | @more e _ _ _ _ _ _ _ hs _ ih ih' =>
    exact (ih trivial).trans (.cons (by rw [hs]; cases e <;> decide) (ih' trivial))
  | operandType _ _ ih => exact ih trivial
  | implicationType _ _ ih => exact ih trivial
  | omittedType hc => exact .consOf hc (.refl _)
  | plainType hc _ _ _ ih => exact .consOf hc (ih trivial)
  | constrainedType hc _ _ hm _ ih ih' =>
    exact .consOf hc ((ih trivial).trans (.consOf hm (ih' trivial)))
  | colonConstraint hc hm _ ih => exact .consOf hc (.consOf hm (ih trivial))
  | bareConstraint hm _ ih => exact .consOf hm (ih trivial)
  | noInitial => exact .refl _
  | initial he _ ih => exact .consOf he (ih trivial)
  | unnamedParameter _ _ _ ih ih' => exact (ih trivial).trans (ih' trivial)
  | namedParameter _ _ _ _ ih ih' ih'' =>
    exact (ih trivial).trans ((ih' trivial).trans (ih'' trivial))
  | parameterItem _ _ ih => exact ih trivial
  | expressionItem _ _ ih => exact ih trivial
  | items _ ih => exact ih trivial
  | emptyEnclosure ha hb =>
    exact .brackets (by rw [ha]; exact hdel.1) (by rw [hb]; exact hdel.2.1)
      (by rw [hb]; exact hdel.2.2)
      (.refl _)
  | enclosure ha _ _ hb ih =>
    exact .brackets (by rw [ha]; exact hdel.1) (by rw [hb]; exact hdel.2.1)
      (by rw [hb]; exact hdel.2.2)
      (ih trivial)
  | noStatements => exact .refl _
  | statements _ _ _ _ ih ih' => exact (ih trivial).trans (ih' trivial)
  | block ha _ hb ih =>
    exact .brackets (by rw [ha]; decide) (by rw [hb]; decide) (by rw [hb]; decide) (ih trivial)
  | @wordConstructor sort _ _ _ _ _ _ _ hm _ _ ih ih' =>
    exact .cons (by rw [hm]; cases sort <;> decide)
      ((ih sort.isDelimiters).trans (ih' trivial))
  | @unmarkedConstructor sort _ _ _ _ _ _ _ _ ih ih' =>
    exact (ih sort.isDelimiters).trans (ih' trivial)
  | @markedConstructor sort _ _ _ _ _ _ _ hm _ _ ih ih' =>
    exact (ih sort.isDelimiters).trans
      (.cons (by rw [hm]; cases sort <;> decide) (ih' trivial))
  | literal hl => exact .cons (hp.literals hl).1 (.refl _)
  | identifier _ hk => exact .consOf hk (.refl _)
  | paren _ _ ih => exact ih paren
  | bracket _ _ ih => exact ih bracket
  | suffixesEnd => exact .refl _
  | call _ _ ih ih' => exact (ih paren).trans (ih' trivial)
  | index _ _ ih ih' => exact (ih bracket).trans (ih' trivial)
  | member hd hn _ ih => exact .consOf hd (.consOf hn (ih trivial))
  | caret hc _ _ ih => exact .consOf hc (ih trivial)
  | value _ _ ih ih' => exact (ih trivial).trans (ih' trivial)
  | prefixOperand ho _ ih => exact .cons (hp.prefixes ho).1 (ih trivial)
  | constructorOperand _ _ ih => exact ih trivial
  | valueOperand _ _ _ ih => exact ih trivial
  | layerOperand _ ih => exact ih trivial
  | layer _ _ ih ih' => exact (ih trivial).trans (ih' trivial)
  | operationsEnd => exact .refl _
  | operation ho _ _ ih ih' =>
    exact .cons (layerOperators_proper ho).1 ((ih trivial).trans (ih' trivial))
  | implicationEnd _ _ ih => exact ih trivial
  | implication _ ho _ ih ih' =>
    exact (ih trivial).trans (.cons (hp.implications ho).1 (ih' trivial))
  | assignmentEnd _ _ ih => exact ih trivial
  | assignment _ ho _ ih ih' => exact (ih trivial).trans (.consOf ho (ih' trivial))
  | conditional hk _ _ _ ih ih' => exact .consOf hk ((ih paren).trans (ih' trivial))
  | choice hk _ _ he _ ih ih' ih'' =>
    exact .consOf hk ((ih paren).trans ((ih' trivial).trans (.consOf he (ih'' trivial))))
  | furtherChoice _ _ ih => exact ih trivial
  | lastChoice _ _ ih => exact ih trivial
  | branch _ ha _ ih ih' => exact (ih trivial).trans (.consOf ha (ih' trivial))
  | conditionalControl _ _ ih => exact ih trivial
  | caseDistinction hk _ _ ih ih' => exact .consOf hk ((ih paren).trans (ih' trivial))
  | loop hk _ _ ih ih' =>
    exact .cons (by rcases hk with hk | hk <;> (rw [hk]; decide)) ((ih paren).trans (ih' trivial))
  | doBlock hk _ _ ih => exact .consOf hk (ih trivial)
  | doWhile hk _ hw _ _ ih ih' => exact .consOf hk ((ih trivial).trans (.consOf hw (ih' paren)))
  | captures _ _ _ ih ih' => exact (ih bracket).trans (ih' paren)
  | noCaptures _ _ ih => exact ih paren
  | functionValue hk _ _ ih ih' => exact .consOf hk ((ih trivial).trans (ih' trivial))
  | blockScope _ _ ih => exact ih trivial
  | expressionScope _ _ ih => exact ih trivial
  | localBinding hk _ _ ih ih' => exact .consOf hk ((ih paren).trans (ih' trivial))
  | controlExpression _ _ ih => exact ih trivial
  | assignmentExpression _ _ ih => exact ih trivial
  | typedOnly _ hs ih => exact (ih trivial).trans (.consOf hs (.refl _))
  | definedBlock _ _ ih ih' => exact (ih trivial).trans (ih' trivial)
  | definedValue _ he _ hs ih ih' =>
    exact (ih trivial).trans (.consOf he ((ih' trivial).trans (.consOf hs (.refl _))))
  | introduced hi _ _ ih ih' => exact .consOf hi ((ih trivial).trans (ih' trivial))
  | unintroduced _ _ _ ih ih' => exact (ih trivial).trans (ih' trivial)
  | definitionStatement _ _ ih => exact ih trivial
  | controlStatement _ _ _ _ ih => exact ih trivial
  | terminatedControl _ _ _ hs ih => exact (ih trivial).trans (.consOf hs (.refl _))
  | expressionStatement _ _ _ hs ih => exact (ih trivial).trans (.consOf hs (.refl _))
  | noDeclarations => exact .refl _
  | declarations _ _ _ ih ih' => exact (ih trivial).trans (ih' trivial)

/-- Whether a node is an enclosure around nothing. -/
def Tree.isHollow : Tree τ → Bool
  | .enclosure _ none _ => true
  | _ => false

/-- The closer that counting finds for the opener of an enclosure ends the enclosure. It
follows the opener at once exactly when the enclosure is empty. -/
theorem Reading.matchingCloser_eq {rules : Rules} (hp : rules.Proper)
    {opening closing : TokenKind} {ts rest : List τ} {t : Tree τ}
    (h : Reading rules (.enclosed opening closing) ts t rest)
    (hdel : IsDelimiters opening closing) :
    ∃ close, matchingCloser ts = some close ∧ ts.drop (close + 1) = rest ∧
      (close == 1) = t.isHollow := by
  obtain ⟨hopen, hclose, hne⟩ := hdel
  cases h with
  | @emptyEnclosure _ _ a b _ ha hb =>
    refine ⟨1, ?_, rfl, rfl⟩
    simp [matchingCloser, closerFrom, ha, hb, hopen, hclose, hne]
  | @enclosure _ _ a b ts _ vs ha hn hvs hb =>
    obtain ⟨used, rfl, hu⟩ := hvs.balancedTo hp trivial
    refine ⟨1 + used.length, ?_, ?_, ?_⟩
    · simp only [matchingCloser, ha, hopen, if_true]
      rw [hu, closerFrom, hb, if_neg (by simp [hne]), if_pos hclose]
    · rw [show 1 + used.length + 1 = (used.length + 1) + 1 by omega, List.drop_succ_cons,
        List.drop_append, List.drop_eq_nil_of_le (Nat.le_succ _), Nat.add_sub_cancel_left]
      rfl
    · cases used with
      | nil => exact absurd (by simpa [kindAt] using hb) hn
      | cons u used => simp [Tree.isHollow]

/-- The constructor that an enclosure begins, judged by its opening delimiter, by whether
it is empty or begins with a parameter, and by the kinds of the two tokens behind it. -/
def constructorForm? (rules : Rules) (opening : TokenKind) (hollow parameters : Bool)
    (first second : TokenKind) : Option ConstructorForm :=
  match opening with
  | .leftParen =>
    if hollow || parameters then
      if first = .thinArrow then some ⟨.function, true⟩
      else if rules.operandStart.contains first then some ⟨.function, false⟩
      else none
    else none
  | .leftBracket =>
    if first = .fatArrow && rules.operandStart.contains second then some ⟨.template, true⟩
    else if rules.operandStart.contains first then
      some ⟨if parameters then .template else .array, false⟩
    else none
  | _ => none

/-- Where an enclosure stands, looking past the matching closer is looking past the
enclosure. -/
theorem Reading.constructorAhead?_eq {rules : Rules} (hp : rules.Proper)
    {opening closing : TokenKind} {ts rest : List τ} {t : Tree τ}
    (h : Reading rules (.enclosed opening closing) ts t rest)
    (hdel : IsDelimiters opening closing) :
    constructorAhead? rules ts = constructorForm? rules (kindAt ts 0) t.isHollow
      (opensParameter (ts.drop 1)) (kindAt rest 0) (kindAt rest 1) := by
  obtain ⟨close, hclose, hrest, hempty⟩ := h.matchingCloser_eq hp hdel
  have hfirst : kindAt ts (close + 1) = kindAt rest 0 := by rw [← hrest, kindAt_drop]
  have hsecond : kindAt ts (close + 2) = kindAt rest 1 := by rw [← hrest, kindAt_drop]
  simp only [constructorAhead?_eq_scan, hclose, hfirst, hsecond, hempty]
  rfl

/-- A mark that is announced behind a specifier is the arrow of the constructor. -/
theorem Reading.arrow_of_constructorAhead? {rules : Rules} (hp : rules.Proper)
    {sort : ConstructorSort} {ts mid : List τ} {s : Tree τ} {m : τ}
    (h : Reading rules (.enclosed sort.opening sort.closing) ts s (m :: mid))
    (ha : constructorAhead? rules ts = some ⟨sort, true⟩) : kind m = sort.arrow := by
  rw [h.constructorAhead?_eq hp sort.isDelimiters] at ha
  have hm : kindAt (m :: mid) 0 = kind m := rfl
  rw [hm] at ha
  unfold constructorForm? at ha
  grind [ConstructorSort.arrow]

/-- Whether a token follows the closer of an enclosure is whether it follows the
enclosure. -/
theorem Reading.bracketFollowedBy_eq {rules : Rules} (hp : rules.Proper)
    {opening closing : TokenKind} {ts rest : List τ} {t : Tree τ}
    (h : Reading rules (.enclosed opening closing) ts t rest)
    (hdel : IsDelimiters opening closing) (k : TokenKind) :
    bracketFollowedBy k ts = (kindAt rest 0 == k) := by
  obtain ⟨close, hclose, hrest, -⟩ := h.matchingCloser_eq hp hdel
  rw [bracketFollowedBy, hclose, ← hrest, kindAt_drop]
  rfl

end ConcreteSyntax
