import ConcreteSyntax.Proofs.PrintedReadings

/-!
# Readings of printed phrases

Constructors, values, operators, control constructs and definitions are read again from
their printed words. With the groups and sequences in them this covers every category
of the grammar, so whatever has a reading is read again when it is printed.
-/

namespace ConcreteSyntax

open TokenParser Grammar ConcreteSyntax.Tree

variable {rules : Rules}

/-! ## Constructors -/

/-- A constructor behind its reserved word is read again. -/
theorem reprints_wordConstructor {sort : ConstructorSort} {m : Word} {ts mid rest : List Word}
    {s r : Tree Word} (hc : rules.constructors = .keyword) (hword : kind m = sort.word)
    (ih : Category.Reprints rules (.enclosed sort.opening sort.closing) ts s mid)
    (ih' : Category.Reprints rules (.phrase .operand) mid r rest) :
    Category.Reprints rules .constructor (m :: ts) (sort.build (some m) s r) rest := by
  intro rest' hm
  obtain ⟨hresult, -⟩ := ih' rest' hm
  obtain ⟨⟨hspecifier, -⟩, -⟩ := ih sort.isGroupDelimiters sort.place
    (print .plain r ++ rest') sort.place_ne_branches
  refine .of_eq ?_ (.wordConstructor hc hword hspecifier hresult) rfl
  simp [print_build_of_leads sort (sort.leads_word hword)]

/-- A constructor without a mark is read again. -/
theorem reprints_unmarkedConstructor (hp : rules.Printable) {sort : ConstructorSort}
    {ts mid rest : List Word} {s r : Tree Word} (ho : OpensUnmarked rules sort ts mid)
    (hs : Reading rules (.enclosed sort.opening sort.closing) ts s mid)
    (ih : Category.Reprints rules (.enclosed sort.opening sort.closing) ts s mid)
    (ih' : Category.Reprints rules (.phrase .operand) mid r rest) :
    Category.Reprints rules .constructor ts (sort.build none s r) rest := by
  intro rest' hm
  obtain ⟨hresult, hnext⟩ := ih' rest' hm
  obtain ⟨⟨hspecifier, hkind⟩, halike⟩ := ih sort.isGroupDelimiters sort.place
    (print .plain r ++ rest') sort.place_ne_branches
  have hopens := ho.again hp hs hspecifier hkind halike (.inl hnext)
  refine .of_eq ?_ (.unmarkedConstructor hopens hspecifier hresult) hkind
  simp [print_build_of_not_leads sort (m := none) rfl]

/-- A constructor with an arrow is read again. -/
theorem reprints_markedConstructor (hp : rules.Printable) {sort : ConstructorSort} {m : Word}
    {ts mid rest : List Word} {s r : Tree Word} (ho : OpensMarked rules sort ts)
    (harrow : kind m = sort.arrow)
    (hs : Reading rules (.enclosed sort.opening sort.closing) ts s (m :: mid))
    (ih : Category.Reprints rules (.enclosed sort.opening sort.closing) ts s (m :: mid))
    (ih' : Category.Reprints rules (.phrase .operand) mid r rest) :
    Category.Reprints rules .constructor ts (sort.build (some m) s r) rest := by
  intro rest' hm
  obtain ⟨hresult, hnext⟩ := ih' rest' hm
  obtain ⟨⟨hspecifier, hkind⟩, halike⟩ := ih sort.isGroupDelimiters sort.place
    (m :: (print .plain r ++ rest')) sort.place_ne_branches
  have hopens := ho.again hp hs hspecifier hkind halike (.inl hnext)
  refine .of_eq ?_ (.markedConstructor hopens harrow hspecifier hresult) hkind
  simp [print_build_of_not_leads sort (sort.not_leads_arrow harrow)]

/-! ## Values -/

/-- A token that is no bracket is read again as a value. -/
theorem reprints_token {t : Word} {ts : List Word} {v : Tree Word} (hv : print .plain v = [t])
    (ht : (kind t).isBracket = false) (h : ∀ rest', Reading rules .primary (t :: rest') v rest') :
    Category.Reprints rules .primary (t :: ts) v ts := by
  have hparen : kind t ≠ .leftParen := fun hk => by rw [hk] at ht; contradiction
  have hbracket : kind t ≠ .leftBracket := fun hk => by rw [hk] at ht; contradiction
  refine ⟨fun rest' => .of_eq (by rw [hv, List.singleton_append]) (h rest') rfl,
    fun rest' _ hn => ?_⟩
  rw [hv, List.singleton_append, opensConstructor_cons t hparen hbracket rest' ts]
  exact hn

/-- A group is read again as a value. -/
theorem reprints_group (hp : rules.Printable) {opening closing : TokenKind} {ts rest : List Word}
    {t : Tree Word} (hdel : IsGroupDelimiters opening closing)
    (h : Reading rules (.enclosed opening closing) ts t rest)
    (hread : ∀ us us', kindAt us 0 = kindAt ts 0 →
      Reading rules (.enclosed opening closing) us t us' → Reading rules .primary us t us')
    (ih : Category.Reprints rules (.enclosed opening closing) ts t rest) :
    Category.Reprints rules .primary ts t rest := by
  have hagain := fun rest' => ih hdel .plain rest' (by decide)
  refine ⟨fun rest' => ?_, fun rest' hm hn => ?_⟩
  · obtain ⟨⟨henclosed, hkind⟩, -⟩ := hagain rest'
    exact ⟨hread _ _ hkind henclosed, hkind⟩
  · obtain ⟨⟨henclosed, hkind⟩, halike⟩ := hagain rest'
    exact opensConstructor_again h henclosed hp.toProper hdel hkind halike (hm.keepsResults hp) hn

/-- Where no suffix follows, none is read again. -/
theorem reprints_suffixesEnd {v : Tree Word} {ts : List Word}
    (hn : continuesValue rules (kindAt ts 0) = false) :
    Category.Reprints rules (.suffixes v) ts v ts :=
  ⟨hn, [], (List.append_nil _).symm, fun _ h => .suffixesEnd h, fun _ hm => hm⟩

/-- A suffix is read again in front of others. -/
theorem reprints_suffix (suffix : List Word) {v v' t : Tree Word} {ts mid rest : List Word}
    {k : TokenKind} (hprint : print .plain v' = print .plain v ++ suffix) (hts : kindAt ts 0 = k)
    (hsuffix : ∀ us, kindAt (suffix ++ us) 0 = k)
    (hread : ∀ us us', Reading rules (.suffixes v') us t us' →
      Reading rules (.suffixes v) (suffix ++ us) t us')
    (ih : Category.Reprints rules (.suffixes v') mid t rest)
    (hk : k ≠ .whileKw ∧ k ≠ .fatArrow ∧ k ≠ .comma := by decide) :
    Category.Reprints rules (.suffixes v) ts t rest := by
  obtain ⟨hend, words, hwords, hsuffixes, -⟩ := ih
  refine ⟨hend, suffix ++ words, ?_, fun rest' hv => ?_, fun rest' _ => ?_⟩
  · rw [hwords, hprint, List.append_assoc]
  · rw [List.append_assoc]
    exact hread _ _ (hsuffixes rest' hv)
  · rw [List.append_assoc]
    exact .of_kind hts (hsuffix _) hk

/-- Arguments behind a value are read again. -/
theorem reprints_arguments {opening closing : TokenKind} {v v' a t : Tree Word}
    {ts mid rest : List Word} (hdel : IsGroupDelimiters opening closing)
    (hprint : print .plain v' = print .plain v ++ print .plain a)
    (hread : ∀ us us' us'', Reading rules (.enclosed opening closing) us a us' →
      Reading rules (.suffixes v') us' t us'' → Reading rules (.suffixes v) us t us'')
    (h : Reading rules (.enclosed opening closing) ts a mid)
    (ih : Category.Reprints rules (.enclosed opening closing) ts a mid)
    (ih' : Category.Reprints rules (.suffixes v') mid t rest) :
    Category.Reprints rules (.suffixes v) ts t rest := by
  have hopening : kindAt ts 0 = opening := by cases h <;> assumption
  have hagain := fun us => (ih hdel .plain us (by decide)).1
  refine reprints_suffix _ hprint hopening (fun us => (hagain us).kind.trans hopening)
    (fun us us' => hread _ _ _ (hagain us).reading) ih' ?_
  rcases hdel with ⟨rfl, -⟩ | ⟨rfl, -⟩ <;> decide

/-- A value with its suffixes is read again. -/
theorem reprints_value {v t : Tree Word} {ts mid rest : List Word}
    (ih : Category.Reprints rules .primary ts v mid)
    (ih' : Category.Reprints rules (.suffixes v) mid t rest) :
    Category.Reprints rules (.element .value) ts t rest := by
  obtain ⟨hprimary, hnone⟩ := ih
  obtain ⟨hend, words, hwords, hsuffixes, hmay⟩ := ih'
  have heq : ∀ rest', print .plain t ++ rest' = print .plain v ++ (words ++ rest') := by
    intro rest'
    rw [hwords, List.append_assoc]
  refine ⟨hend, fun rest' hv => ?_, fun rest' hm hn => ?_⟩
  · obtain ⟨hread, hkind⟩ := hprimary (words ++ rest')
    exact .of_eq (heq rest') (.value hread (hsuffixes rest' hv)) hkind
  · rw [heq]
    exact hnone _ (hmay rest' hm) hn

/-- A value is read again as an operand. -/
theorem reprints_valueOperand {ts rest : List Word} {t : Tree Word}
    (ho : rules.prefixOperators.contains (kindAt ts 0) = false)
    (hc : opensConstructor rules ts = false)
    (ih : Category.Reprints rules (.element .value) ts t rest) :
    Category.Reprints rules (.phrase .operand) ts t rest := by
  obtain ⟨hend, hvalue, hnone⟩ := ih
  intro rest' hm
  have hend' : continuesValue rules (kindAt rest' 0) = false :=
    hm.kind_preserved (p := fun k => continuesValue rules k = false) hend (by simp [continuesValue])
  obtain ⟨hread, hkind⟩ := hvalue rest' hend'
  exact ⟨.valueOperand (hkind ▸ ho) (hnone rest' hm hc) hread, hkind⟩

/-! ## Operators -/

/-- A semicolon is no operator of a layer. -/
theorem layerOperators_semicolon (n : Nat) : (layerOperators n).contains .semicolon = false := by
  refine Bool.eq_false_iff.2 fun h => ?_
  have hlevel := (operatorLevel?_of_layer h).2.2.2.2
  contradiction

/-- An operator of a layer may stand in front of other operands. -/
theorem MayReplace.of_layer {n : Nat} {o : Word} (ho : (layerOperators n).contains (kind o) = true)
    (ts ts' : List Word) : MayReplace rules (o :: ts) (o :: ts') := by
  obtain ⟨-, -, -, hfat, hlevel⟩ := operatorLevel?_of_layer ho
  refine .of_kind (k := kind o) rfl rfl ⟨fun hk => ?_, hfat, fun hk => ?_⟩ <;>
    (rw [hk] at hlevel; contradiction)

/-- Operands of a layer are read again. -/
theorem reprints_layer {n : Nat} {ts mid rest : List Word} {l t : Tree Word}
    (ih : Category.Reprints rules (.layer n) ts l mid)
    (ih' : Category.Reprints rules (.operations n l) mid t rest) :
    Category.Reprints rules (.layer (n + 1)) ts t rest := by
  obtain ⟨words, hwords, hoperations⟩ := ih'
  intro rest' hm
  obtain ⟨hothers, hmay⟩ := hoperations rest' hm
  obtain ⟨hread, hkind⟩ := ih _ hmay
  exact .of_eq (by rw [hwords, List.append_assoc]) (.layer hread hothers) hkind

/-- Where no operation follows, none is read again. -/
theorem reprints_operationsEnd {n : Nat} {l : Tree Word} {ts : List Word}
    (hn : (layerOperators n).contains (kindAt ts 0) = false) :
    Category.Reprints rules (.operations n l) ts l ts := by
  refine ⟨[], (List.append_nil _).symm, fun rest' hm => ⟨.operationsEnd ?_, hm⟩⟩
  exact hm.kind_preserved (p := fun k => (layerOperators n).contains k = false) hn
    (layerOperators_semicolon n)

/-- An operation is read again in front of others. -/
theorem reprints_operation {n : Nat} {l r t : Tree Word} {o : Word} {ts mid rest : List Word}
    (ho : (layerOperators n).contains (kind o) = true)
    (ih : Category.Reprints rules (.layer n) ts r mid)
    (ih' : Category.Reprints rules (.operations n (.infixOp l o r)) mid t rest) :
    Category.Reprints rules (.operations n l) (o :: ts) t rest := by
  obtain ⟨words, hwords, hoperations⟩ := ih'
  refine ⟨o :: (print .plain r ++ words), by simp [hwords, print], fun rest' hm => ?_⟩
  obtain ⟨hothers, hmay⟩ := hoperations rest' hm
  obtain ⟨hread, -⟩ := ih _ hmay
  rw [List.cons_append, List.append_assoc]
  exact ⟨.operation ho hread hothers, .of_layer ho _ _⟩

/-- An operand that no implication follows is read again. -/
theorem reprints_implicationEnd (hp : rules.Printable) {ts rest : List Word} {l : Tree Word}
    (hn : rules.implicationOperators.contains (kindAt rest 0) = false)
    (ih : Category.Reprints rules (.layer 6) ts l rest) :
    Category.Reprints rules (.phrase .implication) ts l rest := by
  intro rest' hm
  have hsemi : rules.implicationOperators.contains .semicolon = false := by
    refine Bool.eq_false_iff.2 fun h => ?_
    rcases hp.arrows _ h with h | h <;> contradiction
  obtain ⟨hread, hkind⟩ := ih rest' hm
  exact ⟨.implicationEnd hread (hm.kind_preserved
    (p := fun k => rules.implicationOperators.contains k = false) hn hsemi), hkind⟩

/-- An implication is read again. -/
theorem reprints_implication (hp : rules.Printable) {ts mid rest : List Word} {l r : Tree Word}
    {o : Word} (ho : rules.implicationOperators.contains (kind o) = true)
    (ih : Category.Reprints rules (.layer 6) ts l (o :: mid))
    (ih' : Category.Reprints rules (.phrase .implication) mid r rest) :
    Category.Reprints rules (.phrase .implication) ts (.infixOp l o r) rest := by
  intro rest' hm
  obtain ⟨hright, -⟩ := ih' rest' hm
  have harrow := hp.arrows _ ho
  have hmay : MayReplace rules (o :: mid) (o :: (print .plain r ++ rest')) := by
    refine .inr ⟨rfl, fun hk => ?_, fun hc hk => ?_, fun hk => ?_⟩
    · rw [show kind o = .whileKw from hk] at harrow
      simp at harrow
    · have hfat := hp.lookahead hc
      rw [← show kind o = .fatArrow from hk, ho] at hfat
      contradiction
    · rw [show kind o = .comma from hk] at harrow
      simp at harrow
  obtain ⟨hleft, hkind⟩ := ih _ hmay
  exact .of_eq (by simp [print]) (.implication hleft ho hright) hkind

/-- An implication that is not assigned to is read again. -/
theorem reprints_assignmentEnd {ts rest : List Word} {l : Tree Word} (hn : kindAt rest 0 ≠ .eq)
    (ih : Category.Reprints rules (.phrase .implication) ts l rest) :
    Category.Reprints rules (.phrase .assignment) ts l rest := by
  intro rest' hm
  obtain ⟨hread, hkind⟩ := ih rest' hm
  exact ⟨.assignmentEnd hread (hm.kind_ne hn (by decide)), hkind⟩

/-- An assignment is read again. -/
theorem reprints_assignment {ts mid rest : List Word} {l r : Tree Word} {o : Word}
    (ho : kind o = .eq) (ih : Category.Reprints rules (.phrase .implication) ts l (o :: mid))
    (ih' : Category.Reprints rules (.phrase .assignment) mid r rest) :
    Category.Reprints rules (.phrase .assignment) ts (.infixOp l o r) rest := by
  intro rest' hm
  obtain ⟨hright, -⟩ := ih' rest' hm
  obtain ⟨hleft, hkind⟩ := ih (o :: (print .plain r ++ rest')) (.of_kind ho ho)
  exact .of_eq (by simp [print]) (.assignment hleft ho hright) hkind

/-! ## Control constructs -/

/-- A word that is no `else`, no branch arrow and does not begin branches is printed in
front of its operands. -/
theorem print_control_before {k : Word} (hk : kind k ≠ .elseKw ∧ kind k ≠ .fatArrow)
    (hc : kind k ≠ .caseKw) (head body : Option (Tree Word)) :
    print .plain (.control k head body) =
      k :: (printSlot .plain head ++ printSlot .plain body) := by
  have hbetween : ¬(k.kind = .elseKw ∨ k.kind = .fatArrow) := fun h => h.elim hk.1 hk.2
  have hcase : ¬k.kind = .caseKw := hc
  simp [print, hbetween, hcase]

/-- The word between branches and the arrow of a branch are printed between their
operands. -/
theorem print_control_between {k : Word} (hk : kind k = .elseKw ∨ kind k = .fatArrow)
    (head body : Option (Tree Word)) :
    print .plain (.control k head body) = printSlot .plain head ++ k :: printSlot .plain body := by
  have hbetween : k.kind = .elseKw ∨ k.kind = .fatArrow := hk
  simp [print, hbetween]

/-- Parentheses are read again. -/
theorem Category.Reprints.paren {ts rest : List Word} {t : Tree Word}
    (ih : Category.Reprints rules (.enclosed .leftParen .rightParen) ts t rest)
    (rest' : List Word) :
    ReadsAgain rules (.enclosed .leftParen .rightParen) ts t (print .plain t) rest' :=
  (ih (.inl ⟨rfl, rfl⟩) .plain rest' (by decide)).1

/-- Brackets are read again. -/
theorem Category.Reprints.bracket {ts rest : List Word} {t : Tree Word}
    (ih : Category.Reprints rules (.enclosed .leftBracket .rightBracket) ts t rest)
    (rest' : List Word) :
    ReadsAgain rules (.enclosed .leftBracket .rightBracket) ts t (print .plain t) rest' :=
  (ih (.inr ⟨rfl, rfl⟩) .plain rest' (by decide)).1

/-- A choice without a second part is read again. -/
theorem reprints_conditional {k : Word} {ts mid rest : List Word} {c b : Tree Word}
    (hk : kind k = .ifKw) (hn : kindAt rest 0 ≠ .elseKw)
    (ih : Category.Reprints rules (.enclosed .leftParen .rightParen) ts c mid)
    (ih' : Category.Reprints rules .block mid b rest) :
    Category.Reprints rules (.phrase .conditional) (k :: ts) (.control k (some c) (some b))
      rest := by
  intro rest' hm
  refine .of_eq ?_ (.conditional hk (ih.paren _).reading (ih' rest').reading
    (hm.kind_ne hn (by decide))) rfl
  rw [print_control_before (by simp [hk]) (by simp [hk])]
  simp [printSlot]

/-- A choice with a second part is read again. -/
theorem reprints_choice {k e : Word} {ts mid mid' rest : List Word} {c b a : Tree Word}
    (hk : kind k = .ifKw) (he : kind e = .elseKw)
    (ih : Category.Reprints rules (.enclosed .leftParen .rightParen) ts c mid)
    (ih' : Category.Reprints rules .block mid b (e :: mid'))
    (ih'' : Category.Reprints rules .alternative mid' a rest) :
    Category.Reprints rules (.phrase .conditional) (k :: ts)
      (.control e (some (.control k (some c) (some b))) (some a)) rest := by
  intro rest' hm
  obtain ⟨halternative, -⟩ := ih'' rest' hm
  refine .of_eq ?_ (.choice hk (ih.paren _).reading (ih' _).reading he halternative) rfl
  rw [print_control_between (.inl he), printSlot,
    print_control_before (by simp [hk]) (by simp [hk])]
  simp [printSlot]

/-- A branch is read again. -/
theorem reprints_branch {a : Word} {ts mid rest : List Word} {p b : Tree Word}
    (ha : kind a = .fatArrow) (ih : Category.Reprints rules (.layer 6) ts p (a :: mid))
    (ih' : Category.Reprints rules .block mid b rest) :
    Category.Reprints rules (.element .branch) ts (.control a (some p) (some b)) rest := by
  intro rest' _
  obtain ⟨hblock, hnext⟩ := ih' rest'
  have hne : ∀ k, kindAt (a :: mid) 0 = k → k = .fatArrow := fun k hk => hk.symm.trans ha
  have hmay : MayReplace rules (a :: mid) (a :: (print .plain b ++ rest')) :=
    .inr ⟨rfl, fun hk => absurd (hne _ hk) (by decide), fun _ _ => hnext,
      fun hk => absurd (hne _ hk) (by decide)⟩
  obtain ⟨hpattern, hkind⟩ := ih _ hmay
  refine .of_eq ?_ (.branch hpattern ha hblock) hkind
  rw [print_control_between (.inr ha)]
  simp [printSlot]

/-- A case distinction is read again. -/
theorem reprints_caseDistinction {k : Word} {ts mid rest : List Word} {s : Tree Word}
    {bs : List (Tree Word)} (hk : kind k = .caseKw)
    (ih : Category.Reprints rules (.enclosed .leftParen .rightParen) ts s mid)
    (ih' : Category.Reprints rules (.separated .branch) mid bs rest) :
    Category.Reprints rules .control (k :: ts) (.control k (some s) (some (.sequence bs)))
      rest := by
  intro rest' hm
  obtain ⟨hbranches, -⟩ := ih' rest' hm
  refine .of_eq ?_ (.caseDistinction hk (ih.paren _).reading hbranches) rfl
  have hcase : k.kind = .caseKw := hk
  simp [print, printSlot, hcase]

/-- A loop is read again. -/
theorem reprints_loop {k : Word} {ts mid rest : List Word} {c b : Tree Word}
    (hk : kind k = .forKw ∨ kind k = .whileKw)
    (ih : Category.Reprints rules (.enclosed .leftParen .rightParen) ts c mid)
    (ih' : Category.Reprints rules .block mid b rest) :
    Category.Reprints rules .control (k :: ts) (.control k (some c) (some b)) rest := by
  intro rest' _
  refine .of_eq ?_ (.loop hk (ih.paren _).reading (ih' rest').reading) rfl
  have hbefore : kind k ≠ .elseKw ∧ kind k ≠ .fatArrow := by rcases hk with hk | hk <;> simp [hk]
  have hcase : kind k ≠ .caseKw := by rcases hk with hk | hk <;> simp [hk]
  rw [print_control_before hbefore hcase]
  simp [printSlot]

/-- A block behind its word is read again. No loop follows that could be its condition. -/
theorem reprints_doBlock {k : Word} {ts rest : List Word} {b : Tree Word} (hk : kind k = .doKw)
    (ih : Category.Reprints rules .block ts b rest) :
    Category.Reprints rules .control (k :: ts) (.control k (some b) none) rest := by
  intro rest' hm
  have hnone : kindAt rest' 0 ≠ .whileKw := by
    rcases hm with hm | hm
    · rw [hm]
      decide
    · exact hm.kind ▸ hm.noLoop
  refine .of_eq ?_ (.doBlock hk (ih rest').reading fun h => absurd h hnone) rfl
  rw [print_control_before (by simp [hk]) (by simp [hk])]
  simp [printSlot]

/-- A block with a condition behind it is read again. -/
theorem reprints_doWhile (hp : rules.Printable) {k w : Word} {ts mid rest : List Word}
    {b c : Tree Word} (hk : kind k = .doKw) (hw : kind w = .whileKw)
    (hl : startsLoop (w :: mid) = false)
    (hc : Reading rules (.enclosed .leftParen .rightParen) mid c rest)
    (ih : Category.Reprints rules .block ts b (w :: mid))
    (ih' : Category.Reprints rules (.enclosed .leftParen .rightParen) mid c rest) :
    Category.Reprints rules .control (k :: ts)
      (.control k (some b) (some (.control w (some c) none))) rest := by
  intro rest' hm
  obtain ⟨hcondition, -⟩ := ih'.paren rest'
  have hnone : startsLoop (w :: (print .plain c ++ rest')) = false := by
    rw [hc.startsLoop_eq hp.toProper, beq_eq_false_iff_ne] at hl
    rw [hcondition.startsLoop_eq hp.toProper, beq_eq_false_iff_ne]
    exact hm.kind_ne hl (by decide)
  refine .of_eq ?_ (.doWhile hk (ih _).reading hw hnone hcondition) rfl
  rw [print_control_before (by simp [hk]) (by simp [hk]), printSlot, printSlot,
    print_control_before (by simp [hw]) (by simp [hw])]
  simp [printSlot]

/-- The head of a function value with captures is read again. -/
theorem reprints_captures {ts mid rest : List Word} {c p : Tree Word}
    (hk : kindAt ts 0 = .leftBracket)
    (ih : Category.Reprints rules (.enclosed .leftBracket .rightBracket) ts c mid)
    (ih' : Category.Reprints rules (.enclosed .leftParen .rightParen) mid p rest) :
    Category.Reprints rules .functionHead ts (.capture c p) rest := by
  intro rest'
  obtain ⟨hparameters, -⟩ := ih'.paren rest'
  obtain ⟨hcaptures, hkind⟩ := ih.bracket (print .plain p ++ rest')
  exact .of_eq (by simp [print]) (.captures (hkind.trans hk) hcaptures hparameters) hkind

/-- A function value is read again. -/
theorem reprints_functionValue {k : Word} {ts mid rest : List Word} {f b : Tree Word}
    (hk : kind k = .lambdaKw) (ih : Category.Reprints rules .functionHead ts f mid)
    (ih' : Category.Reprints rules .block mid b rest) :
    Category.Reprints rules .control (k :: ts) (.control k (some f) (some b)) rest := by
  intro rest' _
  refine .of_eq ?_ (.functionValue hk (ih _).reading (ih' rest').reading) rfl
  rw [print_control_before (by simp [hk]) (by simp [hk])]
  simp [printSlot]

/-- Local bindings are read again. -/
theorem reprints_localBinding {k : Word} {ts mid rest : List Word} {p s : Tree Word}
    (hk : kind k = .letKw)
    (ih : Category.Reprints rules (.enclosed .leftParen .rightParen) ts p mid)
    (ih' : Category.Reprints rules .scope mid s rest) :
    Category.Reprints rules .control (k :: ts) (.control k (some p) (some s)) rest := by
  intro rest' hm
  refine .of_eq ?_ (.localBinding hk (ih.paren _).reading (ih' rest' hm).reading) rfl
  rw [print_control_before (by simp [hk]) (by simp [hk])]
  simp [printSlot]

/-! ## Definitions and statements -/

/-- A definition with a type and without a value is read again. -/
theorem reprints_typedOnly {i : Option Word} {d type : Tree Word} {s : Word} {ts rest : List Word}
    (hs : kind s = .semicolon) (ih : Category.Reprints rules .typing ts (some type) (s :: rest)) :
    Category.Reprints rules (.defined i d) ts
      (.declaration i (some d) (some type) none (some s)) rest := by
  refine ⟨printColon .plain (some d) (some type) ++ (print .plain type ++ [s]), ?_, fun rest' => ?_⟩
  · simp [print, printSlot, printEquals]
  · have hmay : MayReplace rules (s :: rest) (s :: rest') := .of_kind hs hs
    obtain ⟨hread, hmark, -⟩ := reprints_typed .plain d ih hmay (by rintro ⟨⟩) rfl
    have hwords : printColon .plain (some d) (some type) ++ (print .plain type ++ [s]) ++ rest' =
        printColon .plain (some d) (some type) ++
          (printSlot .plain (some type) ++ s :: rest') := by simp [printSlot]
    rw [hwords]
    exact ⟨.typedOnly hread hs, hmark⟩

/-- A definition with a block is read again. -/
theorem reprints_definedBlock {i : Option Word} {d b : Tree Word} {type : Option (Tree Word)}
    {ts mid rest : List Word} (hb : b.isBlock = true) (hmid : kindAt mid 0 = .leftBrace)
    (ih : Category.Reprints rules .typing ts type mid)
    (ih' : Category.Reprints rules .block mid b rest) :
    Category.Reprints rules (.defined i d) ts
      (.declaration i (some d) type (some b) none) rest := by
  refine ⟨printColon .plain (some d) type ++ (printSlot .plain type ++ print .plain b), ?_,
    fun rest' => ?_⟩
  · simp [print, printSlot, printEquals, hb]
  · obtain ⟨hblock, hkind⟩ := ih' rest'
    -- A type is left out only in front of an equals sign, and a block follows here.
    have hnone : type ≠ none := fun h => by
      have heq := ih.2.2.1 h
      rw [hmid] at heq
      contradiction
    obtain ⟨hread, hmark, -⟩ := reprints_typed .plain d ih (.of_kind hmid (hkind.trans hmid))
      (fun h => absurd h hnone) rfl
    rw [List.append_assoc, List.append_assoc]
    exact ⟨.definedBlock hread hblock, hmark⟩

/-- A definition with a value is read again. -/
theorem reprints_definedValue {i : Option Word} {d v : Tree Word} {type : Option (Tree Word)}
    {e s : Word} {ts mid rest : List Word} (hb : v.isBlock = false) (he : kind e = .eq)
    (hs : kind s = .semicolon) (ih : Category.Reprints rules .typing ts type (e :: mid))
    (ih' : Category.Reprints rules (.phrase .expression) mid v (s :: rest)) :
    Category.Reprints rules (.defined i d) ts
      (.declaration i (some d) type (some v) (some s)) rest := by
  refine ⟨printColon .plain (some d) type ++ (printSlot .plain type ++
    (TokenKind.eq.word :: (print .plain v ++ [s]))), ?_, fun rest' => ?_⟩
  · simp [print, printSlot, printEquals, hb]
  · obtain ⟨hvalue, -⟩ := ih' (s :: rest') (.of_kind hs hs)
    have hmay : MayReplace rules (e :: mid)
        (TokenKind.eq.word :: (print .plain v ++ s :: rest')) := .of_kind he rfl
    obtain ⟨hread, hmark, -⟩ := reprints_typed .plain d ih hmay (fun _ => rfl) rfl
    have hwords : printColon .plain (some d) type ++ (printSlot .plain type ++
        (TokenKind.eq.word :: (print .plain v ++ [s]))) ++ rest' =
        printColon .plain (some d) type ++ (printSlot .plain type ++
          TokenKind.eq.word :: (print .plain v ++ s :: rest')) := by simp
    rw [hwords]
    exact ⟨.definedValue hread rfl hvalue hs, hmark⟩

/-- A definition behind its introducing word is read again. -/
theorem reprints_introduced {i : Word} {ts mid rest : List Word} {ds : List (Tree Word)}
    {t : Tree Word} (hi : kind i = .defKw) (hne : ds ≠ []) (hl : ∀ d ∈ ds, d.isList = false)
    (ih : Category.Reprints rules (.separated .value) ts ds mid)
    (ih' : Category.Reprints rules (.defined (some i) (.joined ds)) mid t rest) :
    Category.Reprints rules .definition (i :: ts) t rest := by
  intro rest'
  obtain ⟨words, hprint, hdefined⟩ := ih'
  obtain ⟨hread, hmark⟩ := hdefined rest'
  have hend : continuesValue rules (kindAt (words ++ rest') 0) = false := by
    rcases hmark with h | h <;> simp [h, continuesValue]
  have hcomma : kindAt (words ++ rest') 0 ≠ .comma := by rcases hmark with h | h <;> simp [h]
  have hwords : print .plain t ++ rest' =
      i :: (printTerms .plain TokenKind.comma.word ds ++ (words ++ rest')) := by
    simp [hprint, print_joined hne hl]
  rw [hwords]
  refine ⟨.of_eq hwords (.introduced hi (ih _ hend hcomma).reading hread) rfl, ?_⟩
  simp [opensDeclaration, hi]

/-- A definition of names is read again. -/
theorem reprints_unintroduced {ts mid rest : List Word} {ds : List (Tree Word)} {t : Tree Word}
    (hi : kindAt ts 0 ≠ .defKw) (hne : ds ≠ []) (hl : ∀ d ∈ ds, d.isList = false)
    (ih : Category.Reprints rules (.separated .name) ts ds mid)
    (ih' : Category.Reprints rules (.defined none (.joined ds)) mid t rest) :
    Category.Reprints rules .definition ts t rest := by
  intro rest'
  obtain ⟨words, hprint, hdefined⟩ := ih'
  obtain ⟨hread, hmark⟩ := hdefined rest'
  have hcomma : kindAt (words ++ rest') 0 ≠ .comma := by rcases hmark with h | h <;> simp [h]
  obtain ⟨hnames, hkind⟩ := ih.1 _ hcomma
  have hwords : print .plain t ++ rest' =
      printTerms .plain TokenKind.comma.word ds ++ (words ++ rest') := by
    simp [hprint, print_joined hne hl]
  rw [hwords]
  refine ⟨.of_eq hwords (.unintroduced (hkind ▸ hi) hnames hread) hkind, ?_⟩
  simp [opensDeclaration, ih.2 _ hmark]

/-- A definition among statements is read again. -/
theorem reprints_definitionStatement {ts rest : List Word} {t : Tree Word}
    (hd : t.isDeclaration = true) (ih : Category.Reprints rules .definition ts t rest) :
    Category.Reprints rules (.phrase .statement) ts t rest := by
  intro rest'
  obtain ⟨⟨hread, hkind⟩, hopens⟩ := ih rest'
  have hwords : print .plain t ++ printTerminator t ++ rest' = print .plain t ++ rest' := by
    simp [printTerminator, hd]
  exact .of_eq hwords (.definitionStatement hopens hread) hkind

/-- A control construct among statements is read again, with a semicolon behind it. -/
theorem reprints_controlStatement {ts mid rest : List Word} {t : Tree Word}
    (hd : t.isDeclaration = false) (ho : opensControl rules ts = true)
    (ih : Category.Reprints rules .control ts t mid) :
    Category.Reprints rules (.phrase .statement) ts t rest := by
  intro rest'
  obtain ⟨hread, hkind⟩ := ih (TokenKind.semicolon.word :: rest') (.inl rfl)
  have hopens := (opensControl_congr hkind).trans ho
  have hwords : print .plain t ++ printTerminator t ++ rest' =
      print .plain t ++ TokenKind.semicolon.word :: rest' := by
    simp [printTerminator, hd]
  exact .of_eq hwords
    (.terminatedControl (opensDeclaration_of_opensControl hopens) hopens hread rfl) hkind

/-- An expression among statements is read again. -/
theorem reprints_expressionStatement (hp : rules.Printable) {ts mid rest : List Word}
    {t : Tree Word} (hdecl : t.isDeclaration = false) (hd : opensDeclaration ts = false)
    (ho : opensControl rules ts = false)
    (ih : Category.Reprints rules (.phrase .expression) ts t mid) :
    Category.Reprints rules (.phrase .statement) ts t rest := by
  intro rest'
  obtain ⟨hread, hkind⟩ := ih (TokenKind.semicolon.word :: rest') (.inl rfl)
  have hwords : print .plain t ++ printTerminator t ++ rest' =
      print .plain t ++ TokenKind.semicolon.word :: rest' := by
    simp [printTerminator, hdecl]
  have hopens : opensDeclaration (print .plain t ++ TokenKind.semicolon.word :: rest') = false := by
    obtain ⟨hdef, -⟩ := Bool.or_eq_false_iff.1 hd
    refine Bool.or_eq_false_iff.2 ⟨hkind ▸ hdef, Bool.eq_false_iff.2 fun h => ?_⟩
    obtain ⟨-, hmarks⟩ := (hread.opensDefinition_eq hp).1 h
    contradiction
  exact .of_eq hwords
    (.expressionStatement hopens ((opensControl_congr hkind).trans ho) hread rfl) hkind

/-- Declarations in front of others are read again. -/
theorem reprints_declarations {ts mid rest : List Word} {d : Tree Word} {ds : List (Tree Word)}
    (hd : d.isDeclaration = true) (ih : Category.Reprints rules .definition ts d mid)
    (ih' : Category.Reprints rules .declarations mid ds rest) :
    Category.Reprints rules .declarations ts (d :: ds) rest := by
  intro rest' hend
  obtain ⟨⟨hread, -⟩, hopens⟩ := ih (printStatements ds ++ rest')
  have hwords : printStatements (d :: ds) ++ rest' =
      print .plain d ++ (printStatements ds ++ rest') := by
    simp [printStatements, printTerminator, hd]
  rw [hwords]
  exact .declarations hopens hread (ih' rest' hend)

/-! ## All readings -/

/-- A block is in braces. -/
theorem Reading.block_shape {ts rest : List Word} {b : Tree Word}
    (h : Reading rules .block ts b rest) : b.isBlock = true ∧ kindAt ts 0 = .leftBrace := by
  cases h with
  | block ha => exact ⟨by simp [isBlock, ha], ha⟩

/-- Lists stand between semicolons, and only there. -/
theorem Reading.isList_of_mem (hp : rules.Printable) {e : Element} {ts rest : List Word}
    {vs : List (Tree Word)} (h : Reading rules (.separated e) ts vs rest) :
    ∀ v ∈ vs, v.isList = (e == .items) := by
  intro v hv
  have htest := ((h.fits hp.arrows).2 v hv).passes
  cases e with
  | name => exact isList_of_isIdentifier htest
  | item => exact isList_of_isItem htest
  | items => exact isList_of_isItems htest
  | branch => cases v <;> first | rfl | contradiction
  | value => exact (atLeast_shape htest).1

/-- A control construct is no declaration. -/
theorem Reading.not_declaration (hp : rules.Printable) {ts rest : List Word} {t : Tree Word}
    (h : Reading rules .control ts t rest) : t.isDeclaration = false := by
  have hcontrol := (h.fits hp.arrows).passes
  cases t <;> simp_all [isControl, isDeclaration]

/-- What has been read from words is read again from its printed words. -/
theorem Reading.reprints (hp : rules.Printable) {c : Category Word} {ts rest : List Word}
    {v : c.Result} (h : Reading rules c ts v rest) : c.Reprints rules ts v rest := by
  have token : ∀ {k : TokenKind}, rules.literals.contains k = true → k.isBracket = false :=
    fun hk => (hp.literals hk).1
  induction h with
  | name hk => exact ⟨_, hk, rfl, rfl⟩
  | @last e _ _ _ h hr ih =>
    cases e with
    | name => exact reprints_last_name ih
    | item => exact reprints_last_item hr ih
    | items => exact reprints_last_items (isList_of_isItems (h.fits hp.arrows).passes) ih
    | branch => exact reprints_last_branch hr ih
    | value => exact reprints_last_value ih
  | @more e _ _ _ _ _ _ h hs ho ih ih' =>
    have hne := (ho.fits hp.arrows).1
    cases e with
    | name => exact reprints_more_name hne ih ih'
    | item => exact reprints_more_item hne hs ih ih'
    | items => exact reprints_more_items (isList_of_isItems (h.fits hp.arrows).passes) hne ih ih'
    | branch => exact reprints_more_branch hne hs ih ih'
    | value => exact reprints_more_value hne ih ih'
  | operandType hl _ ih => exact fun rest' hm => ⟨.operandType hl (ih rest' hm).1, (ih rest' hm).2⟩
  | implicationType hl _ ih =>
    exact fun rest' hm => ⟨.implicationType hl (ih rest' hm).1, (ih rest' hm).2⟩
  | omittedType hc hn => exact reprints_omittedType hc hn
  | plainType hc ho h hr ih =>
    exact reprints_plainType hc ho hr (isBareConstraint_of_atLeast (h.fits hp.arrows).passes) ih
  | constrainedType hc ho _ hm _ ih ih' => exact reprints_constrainedType hc ho hm ih ih'
  | colonConstraint hc hm _ ih => exact reprints_bareConstraint (.inl hc) hm ih
  | bareConstraint hm _ ih => exact reprints_bareConstraint (.inr hm) hm ih
  | noInitial hn => exact reprints_noInitial hn
  | initial he h ih =>
    exact reprints_initial he (isExpression_shape (h.fits hp.arrows).passes).2.2 ih
  | unnamedParameter hk _ _ ih ih' => exact reprints_unnamedParameter hk ih ih'
  | namedParameter hk hn _ _ ih ih' ih'' =>
    exact reprints_namedParameter hk (hn.fits hp.arrows).1
      (hn.isList_of_mem hp) hn ih ih' ih''
  | parameterItem ho h ih =>
    refine reprints_parameterItem ?_ ho ih
    cases h <;> rfl
  | expressionItem ho h ih =>
    obtain ⟨hl, hd, -⟩ := isExpression_shape (h.fits hp.arrows).passes
    exact reprints_expressionItem hp hl hd ho h ih
  | items h ih => exact reprints_items (h.isList_of_mem hp) ih
  | emptyEnclosure ha hb => exact reprints_emptyEnclosure ha hb
  | enclosure ha hn h hb ih =>
    exact reprints_enclosure ha hn (h.fits hp.arrows).1 (h.isList_of_mem hp) hb ih
  | noStatements => exact fun _ hend => .noStatements hend
  | statements hb he _ _ ih ih' => exact reprints_statements hb he ih ih'
  | block ha _ hb ih => exact reprints_block ha hb ih
  | wordConstructor hc hm _ _ ih ih' => exact reprints_wordConstructor hc hm ih ih'
  | unmarkedConstructor ho hs _ ih ih' => exact reprints_unmarkedConstructor hp ho hs ih ih'
  | markedConstructor ho hm hs _ ih ih' => exact reprints_markedConstructor hp ho hm hs ih ih'
  | literal hl => exact reprints_token rfl (token hl) fun _ => .literal hl
  | identifier hl hk => exact reprints_token rfl (by simp [hk]; decide) fun _ => .identifier hl hk
  | paren hl h ih =>
    exact reprints_group hp (.inl ⟨rfl, rfl⟩) h (fun _ _ hk h => .paren (hk ▸ hl) h) ih
  | bracket hl h ih =>
    exact reprints_group hp (.inr ⟨rfl, rfl⟩) h (fun _ _ hk h => .bracket (hk ▸ hl) h) ih
  | suffixesEnd hn => exact reprints_suffixesEnd hn
  | call ha _ ih ih' =>
    exact reprints_arguments (.inl ⟨rfl, rfl⟩) (by rw [print]) (fun _ _ _ => .call) ha ih ih'
  | index ha _ ih ih' =>
    exact reprints_arguments (.inr ⟨rfl, rfl⟩) (by rw [print]) (fun _ _ _ => .index) ha ih ih'
  | @member _ _ d n _ _ hd hn _ ih =>
    refine reprints_suffix [d, n] ?_ hd (fun _ => hd) (fun _ _ => .member hd hn) ih
    simp [print]
  | @caret _ _ c _ _ hc hpost _ ih =>
    refine reprints_suffix [c] ?_ hc (fun _ => hc) (fun _ _ => .caret hc hpost) ih
    simp [print]
  | value _ _ ih ih' => exact reprints_value ih ih'
  | prefixOperand ho _ ih =>
    exact fun rest' hm => .of_eq (by simp [print]) (.prefixOperand ho (ih rest' hm).reading) rfl
  | constructorOperand ho _ ih =>
    exact fun rest' hm => ⟨.constructorOperand ((ih rest' hm).kind ▸ ho) (ih rest' hm).reading,
      (ih rest' hm).kind⟩
  | valueOperand ho hc _ ih => exact reprints_valueOperand ho hc ih
  | layerOperand _ ih => exact fun rest' hm => ⟨.layerOperand (ih rest' hm).1, (ih rest' hm).2⟩
  | layer _ _ ih ih' => exact reprints_layer ih ih'
  | operationsEnd hn => exact reprints_operationsEnd hn
  | operation ho _ _ ih ih' => exact reprints_operation ho ih ih'
  | implicationEnd _ hn ih => exact reprints_implicationEnd hp hn ih
  | implication _ ho _ ih ih' => exact reprints_implication hp ho ih ih'
  | assignmentEnd _ hn ih => exact reprints_assignmentEnd hn ih
  | assignment _ ho _ ih ih' => exact reprints_assignment ho ih ih'
  | conditional hk _ _ hn ih ih' => exact reprints_conditional hk hn ih ih'
  | choice hk _ _ he _ ih ih' ih'' => exact reprints_choice hk he ih ih' ih''
  | furtherChoice hk _ ih =>
    exact fun rest' hm => ⟨.furtherChoice ((ih rest' hm).kind.trans hk) (ih rest' hm).reading,
      (ih rest' hm).kind⟩
  | lastChoice hk _ ih =>
    exact fun rest' _ => ⟨.lastChoice ((ih rest').kind ▸ hk) (ih rest').reading, (ih rest').kind⟩
  | branch _ ha _ ih ih' => exact reprints_branch ha ih ih'
  | conditionalControl hk _ ih =>
    exact fun rest' hm => ⟨.conditionalControl ((ih rest' hm).kind.trans hk) (ih rest' hm).reading,
      (ih rest' hm).kind⟩
  | caseDistinction hk _ _ ih ih' => exact reprints_caseDistinction hk ih ih'
  | loop hk _ _ ih ih' => exact reprints_loop hk ih ih'
  | doBlock hk _ _ ih => exact reprints_doBlock hk ih
  | doWhile hk _ hw hl hc ih ih' => exact reprints_doWhile hp hk hw hl hc ih ih'
  | captures hk _ _ ih ih' => exact reprints_captures hk ih ih'
  | noCaptures hk _ ih =>
    exact fun rest' => ⟨.noCaptures ((ih.paren rest').kind ▸ hk) (ih.paren rest').reading,
      (ih.paren rest').kind⟩
  | functionValue hk _ _ ih ih' => exact reprints_functionValue hk ih ih'
  | blockScope hk _ ih =>
    exact fun rest' _ => ⟨.blockScope ((ih rest').kind.trans hk) (ih rest').reading,
      (ih rest').kind⟩
  | expressionScope hk _ ih =>
    exact fun rest' hm => ⟨.expressionScope ((ih rest' hm).kind ▸ hk) (ih rest' hm).reading,
      (ih rest' hm).kind⟩
  | localBinding hk _ _ ih ih' => exact reprints_localBinding hk ih ih'
  | controlExpression ho _ ih =>
    exact fun rest' hm => ⟨.controlExpression ((opensControl_congr (ih rest' hm).kind).trans ho)
      (ih rest' hm).reading, (ih rest' hm).kind⟩
  | assignmentExpression ho _ ih =>
    exact fun rest' hm => ⟨.assignmentExpression ((opensControl_congr (ih rest' hm).kind).trans ho)
      (ih rest' hm).reading, (ih rest' hm).kind⟩
  | typedOnly _ hs ih => exact reprints_typedOnly hs ih
  | definedBlock _ hb ih ih' =>
    obtain ⟨hblock, hopening⟩ := hb.block_shape
    exact reprints_definedBlock hblock hopening ih ih'
  | definedValue _ he hv hs ih ih' =>
    exact reprints_definedValue (isExpression_shape (hv.fits hp.arrows).passes).2.2 he hs ih ih'
  | introduced hi hd _ ih ih' =>
    exact reprints_introduced hi (hd.fits hp.arrows).1
      (hd.isList_of_mem hp) ih ih'
  | unintroduced hi hd _ ih ih' =>
    exact reprints_unintroduced hi (hd.fits hp.arrows).1
      (hd.isList_of_mem hp) ih ih'
  | definitionStatement _ h ih => exact reprints_definitionStatement (h.fits hp.arrows).passes ih
  | controlStatement hd ho h _ ih => exact reprints_controlStatement (h.not_declaration hp) ho ih
  | terminatedControl hd ho h _ ih => exact reprints_controlStatement (h.not_declaration hp) ho ih
  | expressionStatement hd ho h _ ih =>
    have hdecl := (isExpression_shape (h.fits hp.arrows).passes).2.1
    exact reprints_expressionStatement hp hdecl hd ho ih
  | noDeclarations => exact fun _ hend => .noDeclarations hend
  | declarations _ h _ ih ih' => exact reprints_declarations (h.fits hp.arrows).passes ih ih'

end ConcreteSyntax
