import ConcreteSyntax.Proofs.ViableOperands

/-!
# Viable control constructs

Most control constructs are a word, a head and a body. They can be completed in the head,
behind which a body of their own is written, and in the body, in front of which the head is
read again. A branch ends its pattern by an arrow with a block behind it, and a loop that
follows a block is told from a condition by the block behind the condition.
-/

namespace ConcreteSyntax

open TokenParser Grammar

namespace Grammar

/-! ## Heads and bodies -/

section

variable {rules : Rules} {α β : Type} {c head body : Category TokenKind}
  {p : TokenParser TokenKind head.Result} {q : TokenParser TokenKind β}
  {f : TokenKind → head.Result → β → TokenParser TokenKind α} {word : TokenKind}

/-- Behind its word a construct of a head and a body can be completed where one of them fails,
or it fails behind them. The tokens `x` are a body of their own. -/
theorem completable_headed (x : List TokenKind) (hp : Reads rules head p)
    (hvp : Viable rules head p) (hvq : Viable rules body q)
    (hagain : ∀ {ts rest v}, Reading rules head ts v rest → ∀ rest',
      ∃ ts', SameFront ts rest ts' rest' ∧ Reading rules head ts' v rest')
    (hbody : ∀ {after}, c.EndsBefore rules after → ∃ v, Reading rules body (x ++ after) v after)
    (hwhole : ∀ {k : TokenKind} {ts mid after v v'}, kind k = word → Reading rules head ts v mid →
      Reading rules body mid v' after → c.EndsBefore rules after →
        ∃ t, Reading rules c (k :: ts) t after)
    {ts rest : List TokenKind} {e : Failure TokenKind} (hk : kindAt ts 0 = word)
    (h : (do f (← expect word) (← p) (← q) : TokenParser TokenKind α) ts = .failed e rest)
    (hx : Writable x) (hword : word ≠ .eof) (hresumes : ∀ ts', c.Resumes rules ts ts')
    (hhead : ∀ after, head.EndsBefore rules after)
    (hends : ∀ {after}, c.EndsBefore rules after → body.EndsBefore rules after) :
    Completable rules c ts rest ∨ ∃ k v v' us mid mid', ts = k :: us ∧ kind k = word ∧
      Reading rules head us v mid ∧ q mid = .done v' mid' ∧ f k v v' mid' = .failed e rest := by
  rcases bind_eq_failed h with h₁ | ⟨k, us, hkeyword, h₁⟩
  · exact absurd hk (expect_eq_failed h₁ hword).2
  obtain ⟨rfl, hk'⟩ := expect_eq_done.1 hkeyword
  rcases bind_eq_failed h₁ with h₂ | ⟨v, mid, hv, h₂⟩
  · refine .inl ((hvp h₂).extend x hx hresumes (fun _ => hhead _) fun hafter _ hpart => ?_)
    obtain ⟨v', hown⟩ := hbody hafter
    obtain ⟨t, ht⟩ := hwhole hk' hpart hown hafter
    exact ⟨_, t, .token k _ _, ht⟩
  rcases bind_eq_failed h₂ with h₃ | ⟨v', mid', hv', h₃⟩
  · refine .inl ((hvq h₃).last hresumes hends fun hafter _ hpart => ?_)
    obtain ⟨us', hus, hread⟩ := hagain (hp hv) _
    obtain ⟨t, ht⟩ := hwhole hk' hread hpart hafter
    exact ⟨_, t, hus.cons k, ht⟩
  · exact .inr ⟨k, v, v', us, mid, mid', rfl, hk', hp hv, hv', h₃⟩

end

variable {g : Grammar TokenKind} (hg : g.IsViable)

include hg

/-! ## Choices -/

theorem viable_alternative : Viable g.rules .alternative g.alternative := by
  intro ts rest e h
  rcases bind_eq_failed h with h₁ | ⟨k, mid, hk, h₁⟩
  · cases h₁
  obtain ⟨rfl, rfl⟩ := peek_eq_done.1 hk
  split at h₁
  · exact (hg.viable _ h₁).map (fun _ => trivial) id fun _ h => ⟨_, .furtherChoice h.kindAt_of_conditional h⟩
  · exact (viable_block hg h₁).map (fun _ => trivial) (fun _ => trivial) fun _ h =>
      ⟨_, .lastChoice (by rw [h.kindAt_of_block]; decide) h⟩

theorem viable_conditional : Viable g.rules (.phrase .conditional) g.conditional := by
  intro ts rest e h
  have he := hg.extensible
  by_cases hk : kindAt ts 0 = .ifKw
  · rcases completable_headed (c := .phrase .conditional) [.leftBrace, .rightBrace]
      (reads_enclosed hg.consumes hg.reads _ _) (viable_paren hg) (viable_block hg)
      (fun h => h.again_of_paren he)
      (fun {after} _ => ⟨_, block_nothing after⟩)
      (fun hk hc hb hafter => ⟨_, .conditional hk hc hb (hafter.kind_ne (by decide))⟩) hk h
      (by decide) nofun (fun _ => trivial) (fun _ => trivial) (fun _ => trivial) with
      hdone | ⟨k, c, b, us, mid, mid', rfl, hk', hcond, hb, h₁⟩
    · exact hdone
    have hblock := reads_block hg.consumes hg.reads hb
    rcases bind_eq_failed h₁ with h₂ | ⟨el, mid'', hel, h₂⟩
    · exact absurd h₂ eat_ne_failed
    cases el with
    | none => exact absurd h₂ pure_ne_failed
    | some el =>
      obtain ⟨rfl, hel'⟩ := eat_eq_some.1 hel
      refine (viable_alternative hg (map_eq_failed h₂)).last (fun _ => trivial) id fun _ _ hpart => ?_
      obtain ⟨mid₁, hmid, hbody⟩ := hblock.again_of_block he _
      obtain ⟨us', hus, hcondition⟩ := hcond.again_of_paren he mid₁
      exact ⟨_, _, ((hus.trans hmid).trans (.token el _ _)).cons k,
        .choice hk' hcondition hbody hel' hpart⟩
  · rcases bind_eq_failed h with h₁ | ⟨k, mid, hkeyword, -⟩
    · obtain ⟨rfl, -⟩ := expect_eq_failed h₁ nofun
      exact completable_phrase he .conditional rest
    · obtain ⟨rfl, hk'⟩ := expect_eq_done.1 hkeyword
      exact absurd hk' hk

/-! ## Case distinctions -/

theorem viable_branch (hc : g.rules.control = true) :
    Viable g.rules (.element .branch) g.branch := by
  intro ts rest e h
  have he := hg.extensible
  have harrow := he.branches hc
  rcases bind_eq_failed h with h₁ | ⟨p, mid, hp, h₁⟩
  · exact (viable_disjunction hg h₁).extend [.fatArrow, .leftBrace, .rightBrace] (by decide) (fun _ => trivial)
      (fun _ => .of_branch rfl rfl harrow)
      fun _ _ hpart => ⟨_, _, .refl _ _, .branch hpart rfl (block_nothing _)⟩
  have hpattern := (reads_disjunction hg.consumes he.toProper hg.reads hp).continues he id
  rcases bind_eq_failed h₁ with h₂ | ⟨a, mid', ha, h₂⟩
  · obtain ⟨rfl, -⟩ := expect_eq_failed h₂ nofun
    refine .of_rest [.fatArrow, .leftBrace, .rightBrace] (by decide) (fun _ => trivial) fun after _ => ?_
    have hbody : Reading g.rules .block _ _ after := block_nothing after
    obtain ⟨ts', hts, hread⟩ := hpattern.again (.inl (.of_branch rfl hbody.kindAt_of_block harrow))
    exact ⟨ts', _, hts, .branch hread rfl hbody⟩
  obtain ⟨rfl, ha'⟩ := expect_eq_done.1 ha
  refine (viable_block hg (map_eq_failed h₂)).last (fun _ => trivial) (fun _ => trivial) fun _ _ hpart => ?_
  obtain ⟨ts', hts, hread⟩ := hpattern.again (.inl (.of_branch ha' hpart.kindAt_of_block harrow))
  exact ⟨ts', _, hts.trans (.token a _ _), .branch hread ha' hpart⟩

/-- A case distinction can be completed wherever it fails. -/
theorem completable_caseDistinction (hc : g.rules.control = true) {ts rest : List TokenKind}
    {e : Failure TokenKind} (hk : kindAt ts 0 = .caseKw) (h : g.caseDistinction ts = .failed e rest) :
    Completable g.rules .control ts rest := by
  have he := hg.extensible
  have hbranches : Viable g.rules (.separated .branch) (separatedBy .elseKw g.branch) := fun h =>
    viable_separatedBy he (consumes_branch hg.consumes)
      (reads_branch hg.consumes he.toProper hg.reads) (viable_branch hg hc) h
  have hown : ∀ after : List TokenKind, Concludes g.rules after →
      ∃ vs, Reading g.rules (.separated .branch)
        (.intNumber :: .fatArrow :: .leftBrace :: .rightBrace :: after) vs after := by
    intro after hafter
    have harrow : Concludes g.rules (TokenKind.fatArrow :: .leftBrace :: .rightBrace :: after) :=
      .of_branch rfl rfl (he.branches hc)
    exact ⟨_, .last (.branch ((operand_number he harrow).layer_of_operand harrow 6) rfl
      (block_nothing _)) (hafter.kind_ne (by decide))⟩
  rcases completable_headed (c := .control) [.intNumber, .fatArrow, .leftBrace, .rightBrace]
    (reads_enclosed hg.consumes hg.reads _ _) (viable_paren hg) hbranches
    (fun h => h.again_of_paren he) (hown _) (fun hk hs hb _ => ⟨_, .caseDistinction hk hs hb⟩)
    hk h (by decide) nofun (fun _ => trivial) (fun _ => trivial)
    (fun hafter => ⟨trivial, Concludes.kind_ne hafter (by decide)⟩) with
    hdone | ⟨_, _, _, _, _, _, -, -, -, -, h₁⟩
  · exact hdone
  · exact absurd h₁ pure_ne_failed

/-! ## Loops and function values -/

/-- A loop can be completed wherever it fails. -/
theorem completable_loop {word : TokenKind} (hw : word = .forKw ∨ word = .whileKw)
    {ts rest : List TokenKind} {e : Failure TokenKind} (hk : kindAt ts 0 = word)
    (h : g.loop word ts = .failed e rest) : Completable g.rules .control ts rest := by
  rcases completable_headed (c := .control) [.leftBrace, .rightBrace]
    (reads_enclosed hg.consumes hg.reads _ _) (viable_paren hg) (viable_block hg)
    (fun h => h.again_of_paren hg.extensible)
    (fun {after} _ => ⟨_, block_nothing after⟩)
    (fun hk hc hb _ => ⟨_, .loop (hk ▸ hw) hc hb⟩) hk h (by decide)
    (by rcases hw with rfl | rfl <;> decide) (fun _ => trivial) (fun _ => trivial)
    (fun _ => trivial) with
    hdone | ⟨_, _, _, _, _, _, -, -, -, -, h₁⟩
  · exact hdone
  · exact absurd h₁ pure_ne_failed

/-- A repeated block can be completed wherever it fails. -/
theorem completable_doBlock {ts rest : List TokenKind} {e : Failure TokenKind}
    (hk : kindAt ts 0 = .doKw) (h : g.doBlock ts = .failed e rest) :
    Completable g.rules .control ts rest := by
  have he := hg.extensible
  rcases bind_eq_failed h with h₁ | ⟨k, mid, hkeyword, h₁⟩
  · exact absurd hk (expect_eq_failed h₁ nofun).2
  obtain ⟨rfl, hk'⟩ := expect_eq_done.1 hkeyword
  rcases bind_eq_failed h₁ with h₂ | ⟨b, mid', hb, h₂⟩
  · exact (viable_block hg h₂).last (fun _ => trivial) (fun _ => trivial) fun hafter _ hpart =>
      ⟨_, _, .token k _ _, .doBlock hk' hpart fun hword =>
        absurd hword (Concludes.kind_ne hafter (by decide))⟩
  have hblock := reads_block hg.consumes hg.reads hb
  rcases bind_eq_failed (map_eq_failed h₂) with h₃ | ⟨next, mid'', hnext, h₃⟩
  · cases h₃
  obtain ⟨rfl, rfl⟩ := peek_eq_done.1 hnext
  rcases bind_eq_failed h₃ with h₄ | ⟨us, mid'', hus, h₄⟩
  · cases h₄
  obtain ⟨rfl, rfl⟩ := ahead_eq_done.1 hus
  split at h₄
  · rename_i hloop
    have hwhile := of_decide_eq_true (Bool.and_eq_true_iff.1 hloop).1
    rcases bind_eq_failed h₄ with h₅ | ⟨w, mid, hw, h₅⟩
    · exact absurd hwhile (expect_eq_failed h₅ nofun).2
    obtain ⟨rfl, hw'⟩ := expect_eq_done.1 hw
    refine (viable_paren hg (map_eq_failed h₅)).last (fun _ => trivial) (fun _ => trivial)
      fun hafter _ hpart => ?_
    obtain ⟨ts', hts, hbody⟩ := hblock.again_of_block he _
    refine ⟨_, _, (hts.trans (.token w _ _)).cons k, .doWhile hk' hbody hw' ?_ hpart⟩
    rw [hpart.startsLoop_eq he.toProper]
    exact beq_eq_false_iff_ne.2 (Concludes.kind_ne hafter (by decide))
  · exact absurd h₄ pure_ne_failed

theorem viable_functionHead : Viable g.rules .functionHead g.functionHead := by
  intro ts rest e h
  rcases bind_eq_failed h with h₁ | ⟨k, mid, hk, h₁⟩
  · cases h₁
  obtain ⟨rfl, rfl⟩ := peek_eq_done.1 hk
  split at h₁
  · rcases bind_eq_failed h₁ with h₂ | ⟨c, mid', hc, h₂⟩
    · exact (viable_bracket hg h₂).extend [.leftParen, .rightParen] (by decide) (fun _ => trivial) (fun _ => trivial)
        fun _ _ hpart => ⟨_, _, .refl _ _,
          .captures hpart.kindAt_of_enclosed hpart (enclosed_nothing _ _ _)⟩
    · have hcaptures := reads_enclosed hg.consumes hg.reads _ _ hc
      refine (viable_paren hg (map_eq_failed h₂)).last (fun _ => trivial) (fun _ => trivial)
        fun _ _ hpart => ?_
      obtain ⟨ts', hts, hread⟩ := hcaptures.again_of_bracket hg.extensible _
      exact ⟨ts', _, hts, .captures hread.kindAt_of_enclosed hread hpart⟩
  · exact (viable_paren hg h₁).map (fun _ => trivial) id fun _ h =>
      ⟨_, .noCaptures (by rw [h.kindAt_of_enclosed]; decide) h⟩

/-- A function value can be completed wherever it fails. -/
theorem completable_functionValue {ts rest : List TokenKind} {e : Failure TokenKind}
    (hk : kindAt ts 0 = .lambdaKw) (h : g.functionValue ts = .failed e rest) :
    Completable g.rules .control ts rest := by
  have hagain : ∀ {us rest : List TokenKind} {t : Tree TokenKind},
      Reading g.rules .functionHead us t rest → ∀ rest', ∃ us', SameFront us rest us' rest' ∧
        Reading g.rules .functionHead us' t rest' :=
    fun h _ => (h.continues hg.extensible id).again trivial
  rcases completable_headed (c := .control) [.leftBrace, .rightBrace]
    (reads_functionHead hg.consumes hg.reads) (viable_functionHead hg) (viable_block hg) hagain
    (fun {after} _ => ⟨_, block_nothing after⟩)
    (fun hk hf hb _ => ⟨_, .functionValue hk hf hb⟩) hk h (by decide) nofun
    (fun _ => trivial) (fun _ => trivial) (fun _ => trivial) with
    hdone | ⟨_, _, _, _, _, _, -, -, -, -, h₁⟩
  · exact hdone
  · exact absurd h₁ pure_ne_failed

theorem viable_scope : Viable g.rules .scope g.scope := by
  intro ts rest e h
  rcases bind_eq_failed h with h₁ | ⟨k, mid, hk, h₁⟩
  · cases h₁
  obtain ⟨rfl, rfl⟩ := peek_eq_done.1 hk
  split at h₁
  · exact (viable_block hg h₁).map (fun _ => trivial) (fun _ => trivial) fun _ h =>
      ⟨_, .blockScope h.kindAt_of_block h⟩
  · exact (hg.viable _ h₁).map (fun _ => trivial) id fun _ h =>
      ⟨_, .expressionScope (kind_ne_of_nonStarters (h.nonStarters_of_expression hg.extensible) rfl) h⟩

/-- Local bindings can be completed wherever they fail. -/
theorem completable_localBinding {ts rest : List TokenKind} {e : Failure TokenKind}
    (hk : kindAt ts 0 = .letKw) (h : g.localBinding ts = .failed e rest) :
    Completable g.rules .control ts rest := by
  rcases completable_headed (c := .control) [.leftBrace, .rightBrace]
    (reads_enclosed hg.consumes hg.reads _ _) (viable_paren hg) (viable_scope hg)
    (fun h => h.again_of_paren hg.extensible)
    (fun {after} _ => ⟨_, .blockScope rfl (block_nothing after)⟩)
    (fun hk hp hs _ => ⟨_, .localBinding hk hp hs⟩) hk h (by decide) nofun
    (fun _ => trivial) (fun _ => trivial) id with
    hdone | ⟨_, _, _, _, _, _, -, -, -, -, h₁⟩
  · exact hdone
  · exact absurd h₁ pure_ne_failed

/-! ## Expressions -/

theorem viable_control (hc : g.rules.control = true) : Viable g.rules .control g.control := by
  intro ts rest e h
  rcases bind_eq_failed h with h₁ | ⟨k, mid, hk, h₁⟩
  · cases h₁
  obtain ⟨rfl, rfl⟩ := peek_eq_done.1 hk
  cases hk : kindAt mid 0
  case ifKw =>
    rw [hk] at h₁
    exact (viable_conditional hg h₁).map (fun _ => trivial) id fun _ h =>
      ⟨_, .conditionalControl h.kindAt_of_conditional h⟩
  case caseKw => rw [hk] at h₁; exact completable_caseDistinction hg hc hk h₁
  case forKw => rw [hk] at h₁; exact completable_loop hg (.inl rfl) hk h₁
  case whileKw => rw [hk] at h₁; exact completable_loop hg (.inr rfl) hk h₁
  case doKw => rw [hk] at h₁; exact completable_doBlock hg hk h₁
  case lambdaKw => rw [hk] at h₁; exact completable_functionValue hg hk h₁
  case letKw => rw [hk] at h₁; exact completable_localBinding hg hk h₁
  all_goals
    rw [hk] at h₁
    obtain rfl := fail_eq_failed h₁
    refine .of_start [.ifKw, .leftParen, .rightParen, .leftBrace, .rightBrace] (by decide) (fun _ => trivial) fun _ hafter => ?_
    obtain ⟨t, ht⟩ := conditional_nothing hafter
    exact ⟨t, .conditionalControl rfl ht⟩

theorem viable_expression : Viable g.rules (.phrase .expression) g.expression := by
  intro ts rest e h
  have he := hg.extensible
  rcases bind_eq_failed h with h₁ | ⟨us, mid, hus, h₁⟩
  · cases h₁
  obtain ⟨rfl, rfl⟩ := ahead_eq_done.1 hus
  split at h₁
  · rename_i ho
    have hc := (Bool.and_eq_true_iff.1 ho).1
    exact (viable_control hg hc h₁).map (fun _ => trivial) id fun _ h =>
      ⟨_, .controlExpression (Bool.and_eq_true_iff.2 ⟨hc, h.controlWord⟩) h⟩
  · rename_i ho
    by_cases hrest : mid = rest
    · subst hrest
      exact completable_phrase he .expression mid
    · obtain ⟨w, hw, hcomplete⟩ := viable_assignment hg h₁
      refine ⟨w, hw, fun after hafter => ?_⟩
      obtain ⟨ts', v, hts, hread, -⟩ := hcomplete after hafter
      have hopens : opensControl g.rules ts' = false :=
        (opensControl_congr (hts.kindAt_of_ne hrest)).trans (Bool.eq_false_iff.2 ho)
      exact ⟨ts', v, hts, .assignmentExpression hopens hread, trivial⟩

end Grammar

end ConcreteSyntax
