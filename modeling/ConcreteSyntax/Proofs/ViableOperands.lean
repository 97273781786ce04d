import ConcreteSyntax.Proofs.ViableGroups

/-!
# Viable operands

Operands, and what operators make of them, are viable. Whether a group is the specifier of a
constructor is decided by looking past it and into it, so a group that is completed may cease
to be a specifier, or become one. It is an operand in either case, if a specifier gets a
result.
-/

namespace ConcreteSyntax

open TokenParser Grammar

variable {rules : Rules}

/-! ## Completed groups as operands -/

/-- Fronts may be put one behind the other. -/
theorem SameFront.append {τ : Type} {ts rest ts' w x us : List τ}
    (h : SameFront ts rest ts' w) (h' : SameFront ts' [] us x) :
    SameFront ts rest us (w ++ x) := by
  obtain ⟨used, rfl, rfl⟩ := h
  obtain ⟨used', hused, rfl⟩ := h'
  obtain rfl : used ++ w = used' := hused.trans (List.append_nil _)
  exact ⟨used, rfl, List.append_assoc ..⟩

/-- A group is no prefix operator. -/
theorem Reading.prefixOperators_of_enclosed (hp : rules.Proper) {opening closing : TokenKind}
    (hdel : IsGroupDelimiters opening closing) {ts rest : List TokenKind} {t : Tree TokenKind}
    (h : Reading rules (.enclosed opening closing) ts t rest) :
    rules.prefixOperators.contains (kindAt ts 0) = false := by
  refine Bool.eq_false_iff.2 fun ho => ?_
  have hbracket := (hp.prefixes ho).1
  rw [h.kindAt_of_enclosed, TokenKind.isBracket, hdel.isDelimiters.1] at hbracket
  contradiction

/-- A group is a value. -/
theorem Reading.primary_of_group (hp : rules.Proper) {opening closing : TokenKind}
    (hdel : IsGroupDelimiters opening closing) {ts rest : List TokenKind} {t : Tree TokenKind}
    (h : Reading rules (.enclosed opening closing) ts t rest) :
    Reading rules .primary ts t rest := by
  have hl : rules.literals.contains (kindAt ts 0) = false := by
    refine Bool.eq_false_iff.2 fun hl => ?_
    have hbracket := (hp.literals hl).1
    rw [h.kindAt_of_enclosed, TokenKind.isBracket, hdel.isDelimiters.1] at hbracket
    contradiction
  rcases hdel with ⟨rfl, rfl⟩ | ⟨rfl, rfl⟩
  · exact .paren hl h
  · exact .bracket hl h

/-- A group that begins no constructor is a value and an operand. -/
theorem Reading.operand_of_group (he : rules.Extensible) {opening closing : TokenKind}
    (hdel : IsGroupDelimiters opening closing) {ts rest : List TokenKind} {t : Tree TokenKind}
    (h : Reading rules (.enclosed opening closing) ts t rest)
    (hc : opensConstructor rules ts = false) (hr : Concludes rules rest) :
    Reading rules (.phrase .operand) ts t rest :=
  .valueOperand (h.prefixOperators_of_enclosed he.toProper hdel) hc
    (.value (h.primary_of_group he.toProper hdel) (.suffixesEnd hr.continuesValue_eq))

/-- Whether a group is the specifier of a constructor whatever follows it: a bracket in two
styles, and in one of them a parenthesis with parameters. -/
def alwaysSpecifies (rules : Rules) (ts : List TokenKind) : Bool :=
  match rules.constructors with
  | .arrow => kindAt ts 0 == .leftBracket
  | .parameter => kindAt ts 0 == .leftBracket || opensParameters ts
  | .lookahead | .keyword | .absent => false

section

variable {opening closing : TokenKind} (hdel : IsGroupDelimiters opening closing)
  {ts rest : List TokenKind} {t : Tree TokenKind}

include hdel

/-- Where phrases end behind a group, it is no constructor unless it always is a specifier. -/
theorem Reading.opensConstructor_of_concludes (he : rules.Extensible)
    (h : Reading rules (.enclosed opening closing) ts t rest) (hr : Concludes rules rest)
    (hs : alwaysSpecifies rules ts = false) : opensConstructor rules ts = false := by
  have hopen := h.kindAt_of_enclosed
  unfold alwaysSpecifies at hs
  unfold opensConstructor
  cases hc : rules.constructors with
  | lookahead =>
    simp only [h.constructorAhead?_eq he.toProper hdel.isDelimiters,
      (hr.beginsNoResult he).constructorForm?_eq_none, Option.isSome_none]
  | keyword =>
    simp only [hopen]
    rcases hdel with ⟨rfl, -⟩ | ⟨rfl, -⟩ <;> rfl
  | arrow =>
    simp only [hc] at hs
    have hfollow : bracketFollowedBy .thinArrow ts = false := by
      rw [h.bracketFollowedBy_eq he.toProper hdel.isDelimiters]
      exact beq_eq_false_iff_ne.2 (hr.kind_ne (by decide))
    simp only [hs, hfollow, Bool.and_false, Bool.or_false]
  | parameter =>
    simp only [hc, Bool.or_eq_false_iff] at hs
    simp only [hs.1, hs.2, Bool.and_false, Bool.or_false]
  | absent => rfl

/-- A group that always is a specifier is an operand with a number behind it. -/
theorem Reading.operand_of_alwaysSpecifies (he : rules.Extensible)
    (h : Reading rules (.enclosed opening closing) ts t (.intNumber :: rest))
    (hr : Concludes rules rest) (hs : alwaysSpecifies rules ts = true) :
    ∃ v, Reading rules (.phrase .operand) ts v rest := by
  have hopen := h.kindAt_of_enclosed
  have hpre := h.prefixOperators_of_enclosed he.toProper hdel
  suffices ∃ sort : ConstructorSort, sort.opening = opening ∧ sort.closing = closing ∧
      OpensUnmarked rules sort ts (TokenKind.intNumber :: rest) by
    obtain ⟨sort, rfl, rfl, ho⟩ := this
    exact ⟨_, .constructorOperand hpre (.unmarkedConstructor ho h (operand_number he hr))⟩
  unfold alwaysSpecifies at hs
  unfold OpensUnmarked
  cases hc : rules.constructors with
  | arrow =>
    simp only [hc, beq_iff_eq] at hs
    rcases hdel with ⟨rfl, rfl⟩ | ⟨rfl, rfl⟩
    · rw [hopen] at hs
      contradiction
    · exact ⟨.array, rfl, rfl, rfl, hs, show TokenKind.intNumber ≠ .fatArrow by decide⟩
  | parameter =>
    simp only [hc, Bool.or_eq_true, beq_iff_eq] at hs
    rcases hdel with ⟨rfl, rfl⟩ | ⟨rfl, rfl⟩
    · refine ⟨.function, rfl, rfl, .inr ⟨rfl, hopen, hs.resolve_left ?_⟩⟩
      rw [hopen]
      decide
    · exact ⟨.array, rfl, rfl, .inl ⟨rfl, hopen⟩⟩
  | lookahead | keyword | absent =>
    simp only [hc] at hs
    contradiction

/-- Whether a group always is a specifier depends on what is inside it. -/
theorem Reading.alwaysSpecifies_eq (h : Reading rules (.enclosed opening closing) ts t rest)
    {ts' rest' : List TokenKind} (h' : Reading rules (.enclosed opening closing) ts' t rest')
    (hin : Resembles (ts.drop 1) (ts'.drop 1)) :
    alwaysSpecifies rules ts' = alwaysSpecifies rules ts := by
  unfold alwaysSpecifies
  cases rules.constructors with
  | arrow => simp only [h.kindAt_of_enclosed, h'.kindAt_of_enclosed]
  | parameter =>
    simp only [h.kindAt_of_enclosed, h'.kindAt_of_enclosed]
    rcases hdel with ⟨rfl, rfl⟩ | ⟨rfl, rfl⟩
    · rw [h.opensParameters_eq, h'.opensParameters_eq, hin.opensNamed_eq]
    · rfl
  | lookahead | keyword | absent => rfl

/-- Where a group can be completed, an operand can, either by the group as it stands or by a
number behind it. -/
theorem Completable.operand_of_group (he : rules.Extensible)
    (h : Completable rules (.enclosed opening closing) ts rest) :
    Completable rules (.phrase .operand) ts rest := by
  obtain ⟨w, hw, hcomplete⟩ := h
  -- Which way it is does not depend on what follows, so the group is tried in front of nothing.
  obtain ⟨ts₀, t, hts₀, hread₀, -⟩ := hcomplete [] trivial
  rw [List.append_nil] at hts₀
  cases hs : alwaysSpecifies rules ts₀ with
  | true =>
    refine ⟨w ++ [.intNumber], hw.append (by decide), fun after hafter => ?_⟩
    obtain ⟨ts', hts, hread, hin⟩ := hread₀.again_of_enclosed he hdel (.intNumber :: after)
    have hs' := (hread₀.alwaysSpecifies_eq hdel hread hin).trans hs
    obtain ⟨v, hoperand⟩ := hread.operand_of_alwaysSpecifies hdel he hafter hs'
    rw [List.append_assoc]
    exact ⟨ts', v, hts₀.append hts, hoperand, trivial⟩
  | false =>
    refine ⟨w, hw, fun after hafter => ?_⟩
    obtain ⟨ts', hts, hread, hin⟩ := hread₀.again_of_enclosed he hdel after
    have hs' := (hread₀.alwaysSpecifies_eq hdel hread hin).trans hs
    exact ⟨ts', t, hts₀.append hts, hread.operand_of_group he hdel
      (hread.opensConstructor_of_concludes hdel he hafter hs') hafter, trivial⟩

end

/-! ## Constructors -/

section

variable {sort : ConstructorSort} {ts mid rest : List TokenKind} {s : Tree TokenKind}

/-- An operand that is completed begins a result where the old one did. -/
theorem beginsResult_of_number (he : rules.Extensible) {mid mid' : List TokenKind}
    (hk : kindAt mid' 0 = kindAt mid 0 ∨ kindAt mid' 0 = .intNumber) :
    BeginsResult rules mid mid' := by
  refine hk.imp_right fun hk => ?_
  rw [hk]
  exact ⟨he.numberStart, by decide⟩

/-- A constructor without a mark can be completed where its result can. -/
theorem Completable.unmarkedConstructor (he : rules.Extensible)
    (h : Completable rules (.phrase .operand) mid rest)
    (hs : Reading rules (.enclosed sort.opening sort.closing) ts s mid)
    (ho : OpensUnmarked rules sort ts mid) : Completable rules (.phrase .operand) ts rest := by
  obtain ⟨w, hw, hcomplete⟩ := h.operand_beginning he
  refine ⟨w, hw, fun after hafter => ?_⟩
  obtain ⟨mid', r, hmid, hresult, hk⟩ := hcomplete after hafter
  obtain ⟨ts', hts, hspecifier, hin⟩ := hs.again_of_enclosed he sort.isGroupDelimiters mid'
  have hopens : OpensUnmarked rules sort ts' mid' :=
    ho.again he.toPrintable hs hspecifier (hs.kindAt_of_front hts rfl) (hin.opensAlike _)
      (beginsResult_of_number he hk)
  exact ⟨ts', _, hts.trans hmid, .constructorOperand
    (hspecifier.prefixOperators_of_enclosed he.toProper sort.isGroupDelimiters)
    (.unmarkedConstructor hopens hspecifier hresult), trivial⟩

/-- A constructor with an arrow can be completed where its result can. -/
theorem Completable.markedConstructor (he : rules.Extensible) {m : TokenKind}
    (h : Completable rules (.phrase .operand) mid rest) (hm : kind m = sort.arrow)
    (hs : Reading rules (.enclosed sort.opening sort.closing) ts s (m :: mid))
    (ho : OpensMarked rules sort ts) : Completable rules (.phrase .operand) ts rest := by
  obtain ⟨w, hw, hcomplete⟩ := h.operand_beginning he
  refine ⟨w, hw, fun after hafter => ?_⟩
  obtain ⟨mid', r, hmid, hresult, hk⟩ := hcomplete after hafter
  obtain ⟨ts', hts, hspecifier, hin⟩ := hs.again_of_enclosed he sort.isGroupDelimiters (m :: mid')
  have hopens : OpensMarked rules sort ts' :=
    ho.again he.toPrintable hs hspecifier (hs.kindAt_of_front hts rfl) (hin.opensAlike _)
      (beginsResult_of_number he hk)
  exact ⟨ts', _, hts.trans (hmid.cons m), .constructorOperand
    (hspecifier.prefixOperators_of_enclosed he.toProper sort.isGroupDelimiters)
    (.markedConstructor hopens hm hspecifier hresult), trivial⟩

end

namespace Grammar

variable {g : Grammar TokenKind} (hg : g.IsViable)

include hg

/-- A group that fails can be completed as an operand. -/
theorem completable_operand_of_group {opening closing : TokenKind}
    (hdel : IsGroupDelimiters opening closing) {ts rest : List TokenKind} {e : Failure TokenKind}
    (h : g.enclosed opening closing ts = .failed e rest) :
    Completable g.rules (.phrase .operand) ts rest :=
  (viable_enclosed hg hdel h).operand_of_group hdel hg.extensible

theorem viable_lookaheadConstructor (hc : g.rules.constructors = .lookahead) :
    Viable g.rules (.phrase .operand) g.lookaheadConstructor := by
  intro ts rest e h
  have he := hg.extensible
  rcases bind_eq_failed h with h₁ | ⟨us, mid, hus, h₁⟩
  · cases h₁
  obtain ⟨rfl, rfl⟩ := ahead_eq_done.1 hus
  cases hf : constructorAhead? g.rules mid with
  | none =>
    rw [hf] at h₁
    exact absurd h₁ pure_ne_failed
  | some form =>
    obtain ⟨sort, marked⟩ := form
    rw [hf] at h₁
    rcases bind_eq_failed h₁ with h₂ | ⟨s, mid', hs, h₂⟩
    · rw [specifier_eq] at h₂
      exact completable_operand_of_group hg sort.isGroupDelimiters h₂
    have hspecifier := reads_specifier hg.consumes hg.reads sort hs
    rcases bind_eq_failed h₂ with h₃ | ⟨m, mid'', hm, h₃⟩
    · cases marked with
      | false => cases h₃
      | true => cases mid' <;> cases h₃
    have hresult := hg.viable _ (map_eq_failed h₃)
    cases marked with
    | false =>
      obtain ⟨rfl, rfl⟩ := pure_eq_done.1 hm
      exact hresult.unmarkedConstructor he hspecifier (by simpa [OpensUnmarked, hc] using hf)
    | true =>
      cases mid' with
      | nil =>
        -- The arrow that was seen ahead is there.
        rw [hspecifier.constructorAhead?_eq he.toProper sort.isDelimiters] at hf
        simp only [kindAt_nil] at hf
        unfold constructorForm? at hf
        grind
      | cons t mid' =>
        cases hm
        exact hresult.markedConstructor he (hspecifier.arrow_of_constructorAhead? he.toProper hf)
          hspecifier (by simpa [OpensMarked, hc] using hf)

theorem viable_introducedConstructor (hc : g.rules.constructors = .keyword)
    (sort : ConstructorSort) {ts rest : List TokenKind} {e : Failure TokenKind}
    (hk : kindAt ts 0 = sort.word)
    (ho : g.rules.prefixOperators.contains (kindAt ts 0) = false)
    (h : g.introducedConstructor sort.word sort ts = .failed e rest) :
    Completable g.rules (.phrase .operand) ts rest := by
  have he := hg.extensible
  rcases bind_eq_failed h with h₁ | ⟨m, mid, hm, h₁⟩
  · exact absurd hk (expect_eq_failed h₁ (by cases sort <;> decide)).2
  obtain ⟨rfl, hm'⟩ := expect_eq_done.1 hm
  rcases bind_eq_failed h₁ with h₂ | ⟨s, mid', hs, h₂⟩
  · rw [specifier_eq] at h₂
    exact (viable_enclosed hg sort.isGroupDelimiters h₂).extend [.intNumber] (by decide)
      (fun _ => trivial) (fun _ => trivial)
      (fun hafter _ hpart => ⟨_, _, .token m _ _, .constructorOperand ho
        (.wordConstructor hc hm' hpart (operand_number he hafter))⟩)
  have hspecifier := reads_specifier hg.consumes hg.reads sort hs
  refine (hg.viable _ (map_eq_failed h₂)).last (fun _ => trivial) id fun _ _ hpart => ?_
  obtain ⟨ts', hts, hread⟩ := hspecifier.again_of_closes he trivial sort.isDelimiters _
  exact ⟨_, _, hts.cons m, .constructorOperand ho (.wordConstructor hc hm' hread hpart)⟩

theorem viable_keywordConstructor (hc : g.rules.constructors = .keyword)
    {ts rest : List TokenKind} {e : Failure TokenKind}
    (ho : g.rules.prefixOperators.contains (kindAt ts 0) = false)
    (h : g.keywordConstructor ts = .failed e rest) :
    Completable g.rules (.phrase .operand) ts rest := by
  rcases bind_eq_failed h with h₁ | ⟨k, mid, hk, h₁⟩
  · cases h₁
  obtain ⟨rfl, rfl⟩ := peek_eq_done.1 hk
  cases hk : kindAt mid 0
  case arrayKw => rw [hk] at h₁; exact viable_introducedConstructor hg hc .array hk ho h₁
  case templKw => rw [hk] at h₁; exact viable_introducedConstructor hg hc .template hk ho h₁
  case funcKw => rw [hk] at h₁; exact viable_introducedConstructor hg hc .function hk ho h₁
  all_goals
    rw [hk] at h₁
    exact absurd h₁ pure_ne_failed

theorem viable_arrowConstructor (hc : g.rules.constructors = .arrow) :
    Viable g.rules (.phrase .operand) g.arrowConstructor := by
  rw [arrowConstructor_eq_scan]
  intro ts rest e h
  have he := hg.extensible
  rcases bind_eq_failed h with h₁ | ⟨k, mid, hk, h₁⟩
  · cases h₁
  obtain ⟨rfl, rfl⟩ := peek_eq_done.1 hk
  cases hk : kindAt mid 0
  case leftBracket =>
    rw [hk] at h₁
    rcases bind_eq_failed h₁ with h₂ | ⟨s, mid', hs, h₂⟩
    · exact completable_operand_of_group hg isGroupDelimiters_bracket h₂
    have hspecifier := reads_specifier hg.consumes hg.reads .array hs
    rcases bind_eq_failed h₂ with h₃ | ⟨m, mid'', hm, h₃⟩
    · exact absurd h₃ eat_ne_failed
    have hresult := hg.viable _ (map_eq_failed h₃)
    cases m with
    | none =>
      obtain ⟨rfl, hne⟩ := (eat_eq_none (by decide)).1 hm
      exact hresult.unmarkedConstructor he hspecifier (by simp [OpensUnmarked, hc, hk, hne])
    | some m =>
      obtain ⟨rfl, hm'⟩ := eat_eq_some.1 hm
      have hopens : OpensMarked g.rules .template mid := by simp [OpensMarked, hc, hk]
      exact hresult.markedConstructor he hm'
        (reads_specifier hg.consumes hg.reads .template hs) hopens
  case leftParen =>
    rw [hk] at h₁
    rcases bind_eq_failed h₁ with h₂ | ⟨us, mid', hus, h₂⟩
    · cases h₂
    obtain ⟨rfl, rfl⟩ := ahead_eq_done.1 hus
    split at h₂
    · rename_i hf
      rcases bind_eq_failed h₂ with h₃ | ⟨s, mid'', hs, h₃⟩
      · exact completable_operand_of_group hg isGroupDelimiters_paren h₃
      have hspecifier := reads_specifier hg.consumes hg.reads .function hs
      rcases bind_eq_failed h₃ with h₄ | ⟨m, mid''', hm, h₄⟩
      · -- The arrow that was seen ahead is there.
        rw [hspecifier.bracketFollowedBy_eq he.toProper (ConstructorSort.isDelimiters _)] at hf
        exact absurd (beq_iff_eq.1 hf) (expect_eq_failed h₄ (by decide)).2
      obtain ⟨rfl, hm'⟩ := expect_eq_done.1 hm
      have hopens : OpensMarked g.rules .function mid' := by simp [OpensMarked, hc, hk, hf]
      exact (hg.viable _ (map_eq_failed h₄)).markedConstructor he hm' hspecifier hopens
    · exact absurd h₂ pure_ne_failed
  all_goals
    rw [hk] at h₁
    exact absurd h₁ pure_ne_failed

theorem viable_parameterConstructor (hc : g.rules.constructors = .parameter) :
    Viable g.rules (.phrase .operand) g.parameterConstructor := by
  intro ts rest e h
  have he := hg.extensible
  rcases bind_eq_failed h with h₁ | ⟨k, mid, hk, h₁⟩
  · cases h₁
  obtain ⟨rfl, rfl⟩ := peek_eq_done.1 hk
  cases hk : kindAt mid 0
  case leftBracket =>
    rw [hk] at h₁
    rcases bind_eq_failed h₁ with h₂ | ⟨s, mid', hs, h₂⟩
    · exact completable_operand_of_group hg isGroupDelimiters_bracket h₂
    have hopens : OpensUnmarked g.rules .array mid mid' := by simp [OpensUnmarked, hc, hk]
    exact (hg.viable _ (map_eq_failed h₂)).unmarkedConstructor he
      (reads_specifier hg.consumes hg.reads .array hs) hopens
  case leftParen =>
    rw [hk] at h₁
    rcases bind_eq_failed h₁ with h₂ | ⟨us, mid', hus, h₂⟩
    · cases h₂
    obtain ⟨rfl, rfl⟩ := ahead_eq_done.1 hus
    split at h₂
    · rename_i hf
      rcases bind_eq_failed h₂ with h₃ | ⟨s, mid'', hs, h₃⟩
      · exact completable_operand_of_group hg isGroupDelimiters_paren h₃
      have hopens : OpensUnmarked g.rules .function mid' mid'' := by
        simp [OpensUnmarked, hc, hk, hf]
      exact (hg.viable _ (map_eq_failed h₃)).unmarkedConstructor he
        (reads_specifier hg.consumes hg.reads .function hs) hopens
    · exact absurd h₂ pure_ne_failed
  all_goals
    rw [hk] at h₁
    exact absurd h₁ pure_ne_failed

/-- Where the parser of constructors fails, an operand can be completed. -/
theorem viable_constructor? {ts rest : List TokenKind} {e : Failure TokenKind}
    (ho : g.rules.prefixOperators.contains (kindAt ts 0) = false)
    (h : g.constructor? ts = .failed e rest) :
    Completable g.rules (.phrase .operand) ts rest := by
  unfold Grammar.constructor? at h
  cases hc : g.rules.constructors with
  | lookahead => rw [hc] at h; exact viable_lookaheadConstructor hg hc h
  | keyword => rw [hc] at h; exact viable_keywordConstructor hg hc ho h
  | arrow => rw [hc] at h; exact viable_arrowConstructor hg hc h
  | parameter => rw [hc] at h; exact viable_parameterConstructor hg hc h
  | absent => rw [hc] at h; exact absurd h pure_ne_failed

/-! ## Values and operands -/

/-- A value fails at its first token or in its group. -/
theorem primary_eq_failed {ts rest : List TokenKind} {e : Failure TokenKind}
    (h : g.primary ts = .failed e rest) :
    rest = ts ∨ ∃ opening closing, IsGroupDelimiters opening closing ∧
      g.enclosed opening closing ts = .failed e rest := by
  have hp := hg.extensible.toProper
  have heof : g.rules.literals.contains .eof = false :=
    Bool.eq_false_iff.2 fun h => (hp.literals h).2 rfl
  rcases bind_eq_failed h with h₁ | ⟨token, mid, htoken, h₁⟩
  · exact absurd h₁ eatAny_ne_failed
  cases token with
  | some t => exact absurd h₁ pure_ne_failed
  | none =>
    obtain ⟨rfl, -⟩ := (eatAny_eq_none heof).1 htoken
    rcases bind_eq_failed h₁ with h₂ | ⟨token, mid', htoken, h₂⟩
    · exact absurd h₂ eat_ne_failed
    cases token with
    | some t => exact absurd h₂ pure_ne_failed
    | none =>
      obtain ⟨rfl, -⟩ := (eat_eq_none (by decide)).1 htoken
      rcases bind_eq_failed h₂ with h₃ | ⟨k, mid'', hk, h₃⟩
      · cases h₃
      obtain ⟨rfl, rfl⟩ := peek_eq_done.1 hk
      cases hk : kindAt mid'' 0
      case leftParen => rw [hk] at h₃; exact .inr ⟨_, _, isGroupDelimiters_paren, h₃⟩
      case leftBracket => rw [hk] at h₃; exact .inr ⟨_, _, isGroupDelimiters_bracket, h₃⟩
      all_goals
        rw [hk] at h₃
        exact .inl (fail_eq_failed h₃)

theorem viable_primary : Viable g.rules .primary g.primary := by
  intro ts rest e h
  have he := hg.extensible
  rcases primary_eq_failed hg h with rfl | ⟨opening, closing, hdel, h⟩
  · exact .of_start [.intNumber] (by decide) (fun _ => trivial)
      fun _ _ => ⟨_, .literal he.numberLiteral⟩
  · exact (viable_enclosed hg hdel h).map (fun _ => trivial) id
      fun _ h => ⟨_, h.primary_of_group he.toProper hdel⟩

omit hg in
/-- A suffix fails in its group or at the name of a member. -/
theorem suffix?_eq_failed {ts rest : List TokenKind} {e : Failure TokenKind}
    (h : g.suffix? ts = .failed e rest) :
    (∃ opening closing, IsGroupDelimiters opening closing ∧ kindAt ts 0 = opening ∧
      g.enclosed opening closing ts = .failed e rest) ∨
    ∃ d, ts = d :: rest ∧ kind d = .dot := by
  by_cases hparen : kindAt ts 0 = .leftParen
  · rcases bind_eq_failed h with h₁ | ⟨k, mid, hk, h₁⟩
    · cases h₁
    obtain ⟨rfl, rfl⟩ := peek_eq_done.1 hk
    rw [hparen] at h₁
    exact .inl ⟨_, _, isGroupDelimiters_paren, hparen, map_eq_failed h₁⟩
  by_cases hbracket : kindAt ts 0 = .leftBracket
  · rcases bind_eq_failed h with h₁ | ⟨k, mid, hk, h₁⟩
    · cases h₁
    obtain ⟨rfl, rfl⟩ := peek_eq_done.1 hk
    rw [hbracket] at h₁
    exact .inl ⟨_, _, isGroupDelimiters_bracket, hbracket, map_eq_failed h₁⟩
  rw [suffix?_apply hparen hbracket] at h
  rcases bind_eq_failed h with h₁ | ⟨dot, mid, hdot, h₁⟩
  · exact absurd h₁ eat_ne_failed
  cases dot with
  | some d =>
    obtain ⟨rfl, hd⟩ := eat_eq_some.1 hdot
    obtain ⟨rfl, -⟩ := expect_eq_failed (map_eq_failed (map_eq_failed h₁)) nofun
    exact .inr ⟨d, rfl, hd⟩
  | none =>
    cases hcaret : g.rules.postfixCaret with
    | false =>
      simp only [hcaret] at h₁
      exact absurd h₁ pure_ne_failed
    | true =>
      simp only [hcaret] at h₁
      exact absurd (map_eq_failed h₁) eat_ne_failed

omit hg in
/-- A group behind a value is a suffix of it. -/
theorem exists_suffix_of_group {opening closing : TokenKind}
    (hdel : IsGroupDelimiters opening closing) {ts mid : List TokenKind} {a : Tree TokenKind}
    (h : Reading g.rules (.enclosed opening closing) ts a mid) :
    ∃ s : Suffix TokenKind, ∀ {v t : Tree TokenKind} {rest : List TokenKind},
      Reading g.rules (.suffixes (s.attach v)) mid t rest →
        Reading g.rules (.suffixes v) ts t rest := by
  rcases hdel with ⟨rfl, rfl⟩ | ⟨rfl, rfl⟩
  · exact ⟨.call a, fun hs => .call h hs⟩
  · exact ⟨.index a, fun hs => .index h hs⟩

omit hg in
/-- Groups with the same opening delimiter may follow each other. -/
theorem mayFollow_of_opening {opening closing : TokenKind}
    (hdel : IsGroupDelimiters opening closing) {ts ts' : List TokenKind}
    (hk : kindAt ts 0 = opening) (hk' : kindAt ts' 0 = opening) : MayFollow g.rules ts ts' := by
  rcases hdel with ⟨rfl, -⟩ | ⟨rfl, -⟩
  · exact .of_kind hk hk' (by decide)
  · exact .of_kind hk hk' (by decide)

theorem viable_suffix? (v : Tree TokenKind) : Viable g.rules (.suffixes v) g.suffix? := by
  intro ts rest e h
  rcases suffix?_eq_failed h with ⟨opening, closing, hdel, hk, h₁⟩ | ⟨d, rfl, hd⟩
  · obtain ⟨w, hw, hcomplete⟩ := viable_enclosed hg hdel h₁
    refine ⟨w, hw, fun after hafter => ?_⟩
    obtain ⟨ts', a, hts, hread, -⟩ := hcomplete after trivial
    obtain ⟨s, hs⟩ := exists_suffix_of_group hdel hread
    exact ⟨ts', _, hts, hs (.suffixesEnd hafter),
      mayFollow_of_opening hdel hk hread.kindAt_of_enclosed⟩
  · exact ⟨[.ident], by decide, fun after hafter =>
      ⟨_, _, .token d _ _, .member hd rfl (.suffixesEnd hafter), .of_token hd _ _ (by decide)⟩⟩

/-- A suffix that was read is read again in front of any tokens. -/
theorem suffix?_again {ts mid : List TokenKind} {s : Suffix TokenKind}
    (h : g.suffix? ts = .done (some s) mid) (mid' : List TokenKind) :
    ∃ ts', SameFront ts mid ts' mid' ∧ MayFollow g.rules ts ts' ∧
      ∀ {v t : Tree TokenKind} {rest : List TokenKind},
        Reading g.rules (.suffixes (s.attach v)) mid' t rest →
          Reading g.rules (.suffixes v) ts' t rest := by
  have he := hg.extensible
  by_cases hparen : kindAt ts 0 = .leftParen
  · obtain ⟨k, mid, hk, h₁⟩ := bind_eq_done.1 h
    obtain ⟨rfl, rfl⟩ := peek_eq_done.1 hk
    rw [hparen] at h₁
    obtain ⟨a, mid, ha, h₂⟩ := bind_eq_done.1 h₁
    obtain ⟨hs, rfl⟩ := pure_eq_done.1 h₂
    cases hs
    obtain ⟨ts', hts, hread⟩ := (reads_enclosed hg.consumes hg.reads _ _ ha).again_of_paren he mid'
    exact ⟨ts', hts, .of_kind hparen hread.kindAt_of_enclosed (by decide), fun hs => .call hread hs⟩
  by_cases hbracket : kindAt ts 0 = .leftBracket
  · obtain ⟨k, mid, hk, h₁⟩ := bind_eq_done.1 h
    obtain ⟨rfl, rfl⟩ := peek_eq_done.1 hk
    rw [hbracket] at h₁
    obtain ⟨a, mid, ha, h₂⟩ := bind_eq_done.1 h₁
    obtain ⟨hs, rfl⟩ := pure_eq_done.1 h₂
    cases hs
    obtain ⟨ts', hts, hread⟩ :=
      (reads_enclosed hg.consumes hg.reads _ _ ha).again_of_bracket he mid'
    exact ⟨ts', hts, .of_kind hbracket hread.kindAt_of_enclosed (by decide),
      fun hs => .index hread hs⟩
  rw [suffix?_apply hparen hbracket] at h
  obtain ⟨dot, mid, hdot, h₁⟩ := bind_eq_done.1 h
  cases dot with
  | some d =>
    obtain ⟨rfl, hd⟩ := eat_eq_some.1 hdot
    obtain ⟨name, mid, hname, h₂⟩ := bind_eq_done.1 h₁
    obtain ⟨hs, rfl⟩ := pure_eq_done.1 h₂
    cases hs
    obtain ⟨n, mid, hn, h₃⟩ := bind_eq_done.1 hname
    obtain ⟨rfl, hn'⟩ := expect_eq_done.1 hn
    obtain ⟨rfl, rfl⟩ := pure_eq_done.1 h₃
    exact ⟨d :: n :: mid', (SameFront.token n _ _).cons d, .of_token hd _ _ (by decide),
      fun hs => .member hd hn' hs⟩
  | none =>
    cases hcaret : g.rules.postfixCaret with
    | false =>
      simp only [hcaret] at h₁
      cases (pure_eq_done.1 h₁).1
    | true =>
      simp only [hcaret] at h₁
      obtain ⟨c, mid, hc, h₂⟩ := bind_eq_done.1 h₁
      obtain ⟨hs, rfl⟩ := pure_eq_done.1 h₂
      cases c with
      | none => cases hs
      | some c =>
        cases hs
        obtain ⟨rfl, hc'⟩ := eat_eq_some.1 hc
        obtain ⟨rfl, -⟩ := (eat_eq_none (by decide)).1 hdot
        exact ⟨c :: mid', .token c _ _, .of_token hc' _ _ (by decide),
          fun hs => .caret hc' hcaret hs⟩

/-- Suffixes are viable. The induction is on the number of tokens. -/
theorem viable_suffixes (v : Tree TokenKind) : Viable g.rules (.suffixes v) (many g.suffix?) := by
  intro ts rest e h
  induction hn : ts.length using Nat.strongRecOn generalizing ts v with
  | ind n ih =>
    rcases (repeats_suffix? hg.consumes).many_eq_failed h with h₁ | ⟨s, mid, hs, h₁⟩
    · exact viable_suffix? hg v h₁
    · have hshort : mid.length < n := by
        have := (repeats_suffix? hg.consumes).advances.shorter hs
        omega
      obtain ⟨w, hw, hcomplete⟩ := ih mid.length hshort (s.attach v) h₁ rfl
      refine ⟨w, hw, fun after hafter => ?_⟩
      obtain ⟨mid', t, hmid, hothers, -⟩ := hcomplete after hafter
      obtain ⟨ts', hts, hfollow, hstep⟩ := suffix?_again hg hs mid'
      exact ⟨ts', t, hts.trans hmid, hstep hothers, hfollow⟩

theorem viable_suffixed : Viable g.rules (.element .value) g.suffixed := by
  intro ts rest e h
  rcases bind_eq_failed h with h₁ | ⟨v, mid, hv, h₁⟩
  · exact (viable_primary hg h₁).map (fun _ => trivial) (fun _ => trivial) fun hafter h =>
      ⟨_, .value h (.suffixesEnd hafter)⟩
  have hprimary := reads_primary hg.consumes hg.extensible.toProper hg.reads hv
  refine (viable_suffixes hg v (map_eq_failed h₁)).last (fun _ => trivial) id fun _ _ hpart => ?_
  obtain ⟨ts', hts, hread⟩ := (hprimary.continues hg.extensible id).again trivial
  exact ⟨ts', _, hts, .value hread hpart⟩

/-- A value that fails where no constructor begins can be completed as an operand. -/
theorem viable_valueOperand {ts rest : List TokenKind} {e : Failure TokenKind}
    (ho : g.rules.prefixOperators.contains (kindAt ts 0) = false)
    (hc : opensConstructor g.rules ts = false) (h : g.suffixed ts = .failed e rest) :
    Completable g.rules (.phrase .operand) ts rest := by
  have he := hg.extensible
  rcases bind_eq_failed h with h₁ | ⟨v, mid, hv, h₁⟩
  · rcases primary_eq_failed hg h₁ with rfl | ⟨opening, closing, hdel, h₂⟩
    · exact completable_phrase he .operand rest
    · exact completable_operand_of_group hg hdel h₂
  have hprimary := reads_primary hg.consumes he.toProper hg.reads hv
  refine (viable_suffixes hg v (map_eq_failed h₁)).last (fun _ => trivial)
    (fun hafter => Concludes.continuesValue_eq hafter) fun _ hfollow hpart => ?_
  obtain ⟨ts', hts, hread, hplain⟩ := hprimary.continues he id _ trivial
  exact ⟨ts', _, hts, .valueOperand (hprimary.kindAt_of_front hts rfl ▸ ho) (hplain hfollow hc)
    (.value hread hpart)⟩

theorem viable_operand : Viable g.rules (.phrase .operand) g.operand := by
  intro ts rest e h
  have hp := hg.extensible.toProper
  have heof : g.rules.prefixOperators.contains .eof = false :=
    Bool.eq_false_iff.2 fun h => (hp.prefixes h).2 rfl
  rcases bind_eq_failed h with h₁ | ⟨o, mid, ho, h₁⟩
  · exact absurd h₁ eatAny_ne_failed
  cases o with
  | some o =>
    obtain ⟨rfl, ho'⟩ := eatAny_eq_some.1 ho
    exact (hg.viable _ (map_eq_failed h₁)).behind (fun _ => trivial) id
      fun _ h => ⟨_, .prefixOperand ho' h⟩
  | none =>
    obtain ⟨rfl, ho'⟩ := (eatAny_eq_none heof).1 ho
    rcases bind_eq_failed h₁ with h₂ | ⟨c, mid', hc, h₂⟩
    · exact viable_constructor? hg ho' h₂
    obtain ⟨rfl, rfl, hn⟩ | ⟨t, rfl, -⟩ := reads_constructor? hg.consumes hp hg.reads hc
    · exact viable_valueOperand hg ho' hn h₂
    · exact absurd h₂ pure_ne_failed

/-! ## Operators -/

omit hg in
/-- Operations are viable if their operands are. The induction is on the number of tokens. -/
theorem viable_operations {rules : Rules} (he : rules.Extensible) {n : Nat}
    {p : TokenParser TokenKind (Tree TokenKind)} (hp : p.Consumes) (hr : Reads rules (.layer n) p)
    (hv : Viable rules (.layer n) p) (l : Tree TokenKind) :
    Viable rules (.operations n l) (many (operation? (layerOperators n) p)) := by
  intro ts rest e h
  induction hn : ts.length using Nat.strongRecOn generalizing ts l with
  | ind m ih =>
    rcases (repeats_operation? hp).many_eq_failed h with h₁ | ⟨⟨o, r⟩, mid, hs, h₁⟩
    · rcases bind_eq_failed h₁ with h₂ | ⟨o, mid, ho, h₂⟩
      · exact absurd h₂ eatAny_ne_failed
      cases o with
      | none => exact absurd h₂ pure_ne_failed
      | some o =>
        obtain ⟨rfl, ho'⟩ := eatAny_eq_some.1 ho
        exact (hv (map_eq_failed h₂)).behind (fun _ => .of_layer ho' rfl) id fun hafter h =>
          ⟨_, .operation ho' h (.operationsEnd (Concludes.layerOperators_eq hafter n))⟩
    · have hshort : mid.length < m := by
        have := (repeats_operation? hp).advances.shorter hs
        omega
      obtain ⟨o, mid', ho, h₂⟩ := bind_eq_done.1 hs
      cases o with
      | none => cases (pure_eq_done.1 h₂).1
      | some o =>
        obtain ⟨r, mid, hr', h₃⟩ := bind_eq_done.1 h₂
        obtain ⟨hpair, rfl⟩ := pure_eq_done.1 h₃
        cases hpair
        obtain ⟨rfl, ho'⟩ := eatAny_eq_some.1 ho
        obtain ⟨w, hw, hcomplete⟩ := ih mid.length hshort (.infixOp l o r) h₁ rfl
        refine ⟨w, hw, fun after hafter => ?_⟩
        obtain ⟨us, t, hus, hothers, hfollow⟩ := hcomplete after hafter
        obtain ⟨ts', hts, hoperand⟩ := ((hr hr').continues he id).again hfollow
        exact ⟨_, t, (hts.trans hus).cons o, .operation ho' hoperand hothers, .of_layer ho' rfl⟩

theorem viable_layerParser (n : Nat) : Viable g.rules (.layer n) (g.layerParser n) := by
  have he := hg.extensible
  induction n with
  | zero =>
    exact fun h => (viable_operand hg h).map (fun _ => trivial) id
      fun _ h => ⟨_, .layerOperand h⟩
  | succ n ih =>
    intro ts rest e h
    have hp : (g.layerParser n).Consumes := consumes_layerParser hg.consumes n
    have hr : Reads g.rules (.layer n) (g.layerParser n) :=
      reads_layerParser hg.consumes he.toProper hg.reads n
    rcases bind_eq_failed h with h₁ | ⟨l, mid, hl, h₁⟩
    · exact (ih h₁).map (fun _ => trivial) id
        fun hafter h => ⟨_, .layer h (.operationsEnd (hafter.layerOperators_eq n))⟩
    refine (viable_operations he hp hr ih l (map_eq_failed h₁)).last (fun _ => trivial) id
      fun _ hfollow hpart => ?_
    obtain ⟨ts', hts, hread⟩ := ((hr hl).continues he id).again hfollow
    exact ⟨ts', _, hts, .layer hread hpart⟩

theorem viable_disjunction : Viable g.rules (.layer 6) g.disjunction := viable_layerParser hg 6

theorem viable_implication : Viable g.rules (.phrase .implication) g.implication := by
  intro ts rest e h
  have he := hg.extensible
  rcases bind_eq_failed h with h₁ | ⟨l, mid, hl, h₁⟩
  · exact (viable_disjunction hg h₁).map (fun _ => trivial) id fun hafter h =>
      ⟨_, .implicationEnd h (hafter.implicationOperators_eq he.toPrintable)⟩
  rcases bind_eq_failed h₁ with h₂ | ⟨o, mid', ho, h₂⟩
  · exact absurd h₂ eatAny_ne_failed
  cases o with
  | none => exact absurd h₂ pure_ne_failed
  | some o =>
    obtain ⟨rfl, ho'⟩ := eatAny_eq_some.1 ho
    have hleft := reads_disjunction hg.consumes he.toProper hg.reads hl
    refine (hg.viable _ (map_eq_failed h₂)).last (fun _ => trivial) id fun {_ us' _} _ _ hpart => ?_
    have hfollow : MayFollow g.rules (o :: mid') (o :: us') := .of_implication he ho' rfl
    obtain ⟨ts', hts, hread⟩ := (hleft.continues he id).again hfollow
    exact ⟨ts', _, hts.trans (.token o _ _), .implication hread ho' hpart⟩

theorem viable_assignment : Viable g.rules (.phrase .assignment) g.assignment := by
  intro ts rest e h
  have he := hg.extensible
  rcases bind_eq_failed h with h₁ | ⟨l, mid, hl, h₁⟩
  · exact (viable_implication hg h₁).map (fun _ => trivial) id fun hafter h =>
      ⟨_, .assignmentEnd h (hafter.kind_ne (by decide))⟩
  rcases bind_eq_failed h₁ with h₂ | ⟨o, mid', ho, h₂⟩
  · exact absurd h₂ eat_ne_failed
  cases o with
  | none => exact absurd h₂ pure_ne_failed
  | some o =>
    obtain ⟨rfl, ho'⟩ := eat_eq_some.1 ho
    have hleft := reads_implication hg.consumes he.toProper hg.reads hl
    refine (hg.viable _ (map_eq_failed h₂)).last (fun _ => trivial) id fun {_ us' _} _ _ hpart => ?_
    obtain ⟨ts', hts, hread⟩ := (hleft.continues he id).again (.of_token ho' mid' us' (by decide))
    exact ⟨ts', _, hts.trans (.token o _ _), .assignment hread ho' hpart⟩

end Grammar

end ConcreteSyntax
