import ConcreteSyntax.Proofs.PhraseEndings

/-!
# Readings with another continuation

What has been read is read again when the tokens behind it are exchanged for others before
which the phrase may end. The old and the new tokens need not have anything in common. For the
phrases that end with a stopper this is known of all tokens; the other phrases ask for tokens
that may follow them.
-/

namespace ConcreteSyntax

open TokenParser Grammar

variable {τ : Type} [HasKind τ] {rules : Rules}

/-! ## Conditions on the new tokens -/

/-- That an element of a sequence may end before tokens instead of others. -/
def Element.MayEnd (rules : Rules) : Element → List τ → List τ → Prop
  | name, _, _ | branch, _, _ => True
  | value, rest, rest' =>
    continuesValue rules (kindAt rest' 0) = false ∨ MayFollow rules rest rest'
  | item, rest, rest' | items, rest, rest' => MayFollow rules rest rest'

/-- That a phrase of a category may end before tokens instead of others. -/
def Category.MayEnd (rules : Rules) : Category τ → List τ → List τ → Prop
  | .element e, rest, rest' => e.MayEnd rules rest rest'
  | .separated e, rest, rest' => e.MayEnd rules rest rest' ∧
    (kindAt rest 0 ≠ e.separator → kindAt rest' 0 ≠ e.separator)
  | .suffixes _, rest, rest' => Element.value.MayEnd rules rest rest'
  | .primary, _, _ | .functionHead, _, _ => True
  | .typing, rest, rest' => MayFollow rules rest rest' ∧ (kindAt rest 0 = .eq → kindAt rest' 0 = .eq)
  | .phrase .statement, rest, rest' => MayFollow rules rest rest' ∧ kindAt rest' 0 ≠ .semicolon
  | .statements, _, rest' => kindAt rest' 0 = .rightBrace
  | .declarations, _, _ => False
  | _, rest, rest' => MayFollow rules rest rest'

/-- What stays the same when the rest of a reading is exchanged for tokens that may follow: a
value is taken for no constructor, and items begin no definition, unless they did so before. -/
def Category.StaysPlain (rules : Rules) : Category τ → List τ → List τ → Prop
  | .primary, ts, ts' | .element .value, ts, ts' =>
    opensConstructor rules ts = false → opensConstructor rules ts' = false
  | .element .item, ts, ts' | .separated .item, ts, ts' =>
    opensDefinition ts' = true → opensDefinition ts = true
  | _, _, _ => True

/-- That a result of a category is read again when the tokens behind it are exchanged for
others before which the phrase may end. -/
def Category.Continues (rules : Rules) (c : Category τ) (ts : List τ) (v : c.Result)
    (rest : List τ) : Prop :=
  ∀ rest', c.MayEnd rules rest rest' → ∃ ts', SameFront ts rest ts' rest' ∧
    Reading rules c ts' v rest' ∧ (MayFollow rules rest rest' → c.StaysPlain rules ts ts')

namespace Category.Continues

variable {c c' : Category τ} {ts rest rest' : List τ} {v : c.Result} {v' : c'.Result}

/-- The reading in front of the new tokens. -/
theorem again (h : c.Continues rules ts v rest) (hr : c.MayEnd rules rest rest') :
    ∃ ts', SameFront ts rest ts' rest' ∧ Reading rules c ts' v rest' := by
  obtain ⟨ts', hts, hread, -⟩ := h rest' hr
  exact ⟨ts', hts, hread⟩

/-- A reading that is one of another category as it stands is read again with it. -/
theorem map (h : c.Continues rules ts v rest) (hplain : ∀ ts', c'.StaysPlain rules ts ts')
    (hends : ∀ {rest'}, c'.MayEnd rules rest rest' → c.MayEnd rules rest rest')
    (hbuild : ∀ {ts' rest' : List τ}, SameFront ts rest ts' rest' →
      c'.MayEnd rules rest rest' → Reading rules c ts' v rest' → Reading rules c' ts' v' rest') :
    c'.Continues rules ts v' rest := by
  intro rest' hr
  obtain ⟨ts', hts, hread⟩ := h.again (hends hr)
  exact ⟨ts', hts, hbuild hts hr hread, fun _ => hplain ts'⟩

/-- A reading behind a token is read again with the token. -/
theorem front {t : τ} (h : c.Continues rules ts v rest)
    (hplain : ∀ ts', c'.StaysPlain rules (t :: ts) ts')
    (hends : ∀ {rest'}, c'.MayEnd rules rest rest' → c.MayEnd rules rest rest')
    (hbuild : ∀ {ts' rest' : List τ}, SameFront ts rest ts' rest' →
      c'.MayEnd rules rest rest' → Reading rules c ts' v rest' →
        Reading rules c' (t :: ts') v' rest') :
    c'.Continues rules (t :: ts) v' rest := by
  intro rest' hr
  obtain ⟨ts', hts, hread⟩ := h.again (hends hr)
  exact ⟨t :: ts', hts.cons t, hbuild hts hr hread, fun _ => hplain (t :: ts')⟩

end Category.Continues

/-- What ends with a stopper is read again in front of any tokens. -/
theorem Reading.again_of_closes (he : rules.Extensible) {c : Category τ} {ts rest : List τ}
    {v : c.Result} (h : Reading rules c ts v rest) (hc : c.Closes) (hdel : c.Delimited)
    (rest' : List τ) : ∃ ts', SameFront ts rest ts' rest' ∧ Reading rules c ts' v rest' := by
  obtain ⟨ts', hread, hts⟩ :=
    (h.exchanges he.toPrintable he.loopless hdel).closed hc rest'
  exact ⟨ts', hts.front, hread⟩

/-- A group in delimiters is read again in front of any tokens. -/
theorem Reading.again_of_enclosed (he : rules.Extensible) {opening closing : TokenKind}
    (hdel : IsGroupDelimiters opening closing) {ts rest : List τ} {t : Tree τ}
    (h : Reading rules (.enclosed opening closing) ts t rest) (rest' : List τ) :
    ∃ ts', SameFront ts rest ts' rest' ∧ Reading rules (.enclosed opening closing) ts' t rest' ∧
      Resembles (ts.drop 1) (ts'.drop 1) := by
  obtain ⟨ts', hread, hts, hin⟩ :=
    h.exchanges he.toPrintable he.loopless hdel.isDelimiters rest' (.inl trivial)
  exact ⟨ts', hts.front, hread, hin⟩

/-- Parentheses are delimiters of groups. -/
theorem isGroupDelimiters_paren : IsGroupDelimiters .leftParen .rightParen := .inl ⟨rfl, rfl⟩

/-- Brackets are delimiters of groups. -/
theorem isGroupDelimiters_bracket : IsGroupDelimiters .leftBracket .rightBracket :=
  .inr ⟨rfl, rfl⟩

/-- A group in parentheses is read again in front of any tokens. -/
theorem Reading.again_of_paren (he : rules.Extensible) {ts rest : List τ} {t : Tree τ}
    (h : Reading rules (.enclosed .leftParen .rightParen) ts t rest) (rest' : List τ) :
    ∃ ts', SameFront ts rest ts' rest' ∧
      Reading rules (.enclosed .leftParen .rightParen) ts' t rest' :=
  h.again_of_closes he trivial isGroupDelimiters_paren.isDelimiters rest'

/-- A group in brackets is read again in front of any tokens. -/
theorem Reading.again_of_bracket (he : rules.Extensible) {ts rest : List τ} {t : Tree τ}
    (h : Reading rules (.enclosed .leftBracket .rightBracket) ts t rest) (rest' : List τ) :
    ∃ ts', SameFront ts rest ts' rest' ∧
      Reading rules (.enclosed .leftBracket .rightBracket) ts' t rest' :=
  h.again_of_closes he trivial isGroupDelimiters_bracket.isDelimiters rest'

/-- A block is read again in front of any tokens. -/
theorem Reading.again_of_block (he : rules.Extensible) {ts rest : List τ} {t : Tree τ}
    (h : Reading rules .block ts t rest) (rest' : List τ) :
    ∃ ts', SameFront ts rest ts' rest' ∧ Reading rules .block ts' t rest' :=
  h.again_of_closes he trivial trivial rest'

/-- An element of a sequence may end before its separator, whatever follows. An item asks
that no definition begins behind the comma where none did. -/
theorem Element.mayEnd_separator {e : Element} {s : τ} {mid mid' : List τ}
    (hs : kind s = e.separator)
    (hd : e = .item → opensDefinition mid' = true → opensDefinition mid = true) :
    e.MayEnd rules (s :: mid) (s :: mid') := by
  have hk : kindAt (s :: mid') 0 = e.separator := hs
  cases e with
  | name | branch => trivial
  | value => exact .inl (by rw [hk]; simp [Element.separator, continuesValue])
  | items => exact .inl (.of_stopper hk rfl)
  | item =>
    refine .inr ⟨rfl, fun hword => ?_, fun _ hfat => ?_, fun _ => hd rfl⟩
    · exact absurd (hword.symm.trans hs) (by decide)
    · exact absurd (hfat.symm.trans hs) (by decide)

/-! ## Parts that may be empty -/

/-- An initial value, or none, may follow what the initial value before followed. -/
theorem Reading.mayFollow_of_initial {ts rest ts' rest' : List τ} {v : Option (Tree τ)}
    (h : Reading rules .initial ts v rest) (hts : SameFront ts rest ts' rest')
    (hr : MayFollow rules rest rest') :
    MayFollow rules ts ts' ∧ (kindAt ts 0 = .eq → kindAt ts' 0 = .eq) := by
  obtain ⟨rfl, rfl⟩ | ⟨hl, hk⟩ := hts.cases
  · cases h with
    | noInitial hn => exact ⟨hr, fun h => absurd h hn⟩
    | initial _ h =>
      have := h.taken_le
      simp only [List.length_cons] at this
      omega
  · cases h with
    | noInitial => exact absurd hl (Nat.lt_irrefl _)
    | initial he => exact ⟨.of_kind (k := .eq) he (hk.trans he) (by decide), fun _ => hk.trans he⟩

/-- Suffixes, or none, may follow what the suffixes before followed. -/
theorem Reading.mayFollow_of_suffixes {ts rest ts' rest' : List τ} {v t : Tree τ}
    (h : Reading rules (.suffixes v) ts t rest) (hts : SameFront ts rest ts' rest')
    (hr : MayFollow rules rest rest') : MayFollow rules ts ts' := by
  obtain ⟨rfl, rfl⟩ | ⟨hl, hk⟩ := hts.cases
  · exact hr
  · cases h with
    | suffixesEnd => exact absurd hl (Nat.lt_irrefl _)
    | call ha =>
      exact .of_kind ha.kindAt_of_enclosed (hk.trans ha.kindAt_of_enclosed) (by decide)
    | index ha =>
      exact .of_kind ha.kindAt_of_enclosed (hk.trans ha.kindAt_of_enclosed) (by decide)
    | member hd => exact .of_kind (k := .dot) hd (hk.trans hd) (by decide)
    | caret hc => exact .of_kind (k := .caret) hc (hk.trans hc) (by decide)

/-- Operations, or none, may follow what the operations before followed. -/
theorem Reading.mayFollow_of_operations {n : Nat} {ts rest ts' rest' : List τ} {l t : Tree τ}
    (h : Reading rules (.operations n l) ts t rest) (hts : SameFront ts rest ts' rest')
    (hr : MayFollow rules rest rest') : MayFollow rules ts ts' := by
  obtain ⟨rfl, rfl⟩ | ⟨hl, hk⟩ := hts.cases
  · exact hr
  · cases h with
    | operationsEnd => exact absurd hl (Nat.lt_irrefl _)
    | operation ho => exact .of_layer ho hk

/-! ## Groups, values and constructors -/

/-- A group as a value is read again in front of any tokens. -/
theorem continues_group (he : rules.Extensible) {opening closing : TokenKind}
    (hdel : IsGroupDelimiters opening closing) {ts rest : List τ} {t : Tree τ}
    (h : Reading rules (.enclosed opening closing) ts t rest)
    (hbuild : ∀ {ts' rest' : List τ}, kindAt ts' 0 = kindAt ts 0 →
      Reading rules (.enclosed opening closing) ts' t rest' → Reading rules .primary ts' t rest') :
    Category.Continues rules .primary ts t rest := by
  intro rest' _
  obtain ⟨ts', hts, hread, hin⟩ := h.again_of_enclosed he hdel rest'
  have hk : kindAt ts' 0 = kindAt ts 0 := h.kindAt_of_front hts rfl
  exact ⟨ts', hts, hbuild hk hread, fun hr =>
    opensConstructor_again h hread he.toProper hdel hk (hin.opensAlike _) (hr.keepsResults he)⟩

/-- A token as a value is read again in front of any tokens. -/
theorem continues_atom {t : τ} {ts : List τ} {v : Tree τ} (hparen : kind t ≠ .leftParen)
    (hbracket : kind t ≠ .leftBracket) (hbuild : ∀ ts', Reading rules .primary (t :: ts') v ts') :
    Category.Continues rules .primary (t :: ts) v ts := by
  intro rest' _
  refine ⟨t :: rest', .token t ts rest', hbuild rest', fun _ hn => ?_⟩
  exact (opensConstructor_cons t hparen hbracket rest' ts).trans hn

/-- A value with its suffixes is read again. -/
theorem continues_value {ts mid rest : List τ} {v t : Tree τ}
    (h : Reading rules (.suffixes v) mid t rest)
    (ih : Category.Continues rules .primary ts v mid)
    (ih' : Category.Continues rules (.suffixes v) mid t rest) :
    Category.Continues rules (.element .value) ts t rest := by
  intro rest' hr
  obtain ⟨mid', hmid, hsuffixes⟩ := ih'.again hr
  obtain ⟨ts', hts, hprimary, hplain⟩ := ih mid' trivial
  exact ⟨ts', hts.trans hmid, .value hprimary hsuffixes, fun hfollow =>
    hplain (h.mayFollow_of_suffixes hmid hfollow)⟩

/-- A constructor without a mark is read again. -/
theorem continues_unmarkedConstructor (he : rules.Extensible) {sort : ConstructorSort}
    {ts mid rest : List τ} {s r : Tree τ} (ho : OpensUnmarked rules sort ts mid)
    (hs : Reading rules (.enclosed sort.opening sort.closing) ts s mid)
    (hr : Reading rules (.phrase .operand) mid r rest)
    (ih : Category.Continues rules (.phrase .operand) mid r rest) :
    Category.Continues rules .constructor ts (sort.build none s r) rest := by
  intro rest' hend
  obtain ⟨mid', hmid, hresult⟩ := ih.again hend
  obtain ⟨ts', hts, hspecifier, hin⟩ := hs.again_of_enclosed he sort.isGroupDelimiters mid'
  have hopens : OpensUnmarked rules sort ts' mid' :=
    ho.again he.toPrintable hs hspecifier (hs.kindAt_of_front hts rfl) (hin.opensAlike _)
      (.inl (hr.kindAt_of_front hmid rfl))
  exact ⟨ts', hts.trans hmid, .unmarkedConstructor hopens hspecifier hresult, fun _ => trivial⟩

/-- A constructor with an arrow is read again. -/
theorem continues_markedConstructor (he : rules.Extensible) {sort : ConstructorSort} {m : τ}
    {ts mid rest : List τ} {s r : Tree τ} (ho : OpensMarked rules sort ts)
    (hm : kind m = sort.arrow)
    (hs : Reading rules (.enclosed sort.opening sort.closing) ts s (m :: mid))
    (hr : Reading rules (.phrase .operand) mid r rest)
    (ih : Category.Continues rules (.phrase .operand) mid r rest) :
    Category.Continues rules .constructor ts (sort.build (some m) s r) rest := by
  intro rest' hend
  obtain ⟨mid', hmid, hresult⟩ := ih.again hend
  obtain ⟨ts', hts, hspecifier, hin⟩ :=
    hs.again_of_enclosed he sort.isGroupDelimiters (m :: mid')
  have hopens : OpensMarked rules sort ts' :=
    ho.again he.toPrintable hs hspecifier (hs.kindAt_of_front hts rfl) (hin.opensAlike _)
      (.inl (hr.kindAt_of_front hmid rfl))
  exact ⟨ts', hts.trans (hmid.cons m), .markedConstructor hopens hm hspecifier hresult,
    fun _ => trivial⟩

/-! ## Items and statements -/

/-- A parameter as an item is read again. -/
theorem continues_parameterItem {ts rest : List τ} {t : Tree τ} (ho : opensParameter ts = true)
    (h : Reading rules .parameter ts t rest)
    (ih : Category.Continues rules .parameter ts t rest) :
    Category.Continues rules (.element .item) ts t rest := by
  intro rest' hr
  obtain ⟨ts', hts, hread⟩ := ih.again hr
  have hk : kindAt ts' 0 = kindAt ts 0 := h.kindAt_of_front hts rfl
  exact ⟨ts', hts, .parameterItem hread.opensParameter_of_parameter hread,
    fun _ => opensDefinition_of_opensParameter ho hk.trans⟩

/-- An expression as an item is read again. -/
theorem continues_expressionItem (he : rules.Extensible) {ts rest : List τ} {t : Tree τ}
    (ho : opensParameter ts = false) (h : Reading rules (.phrase .expression) ts t rest)
    (ih : Category.Continues rules (.phrase .expression) ts t rest) :
    Category.Continues rules (.element .item) ts t rest := by
  intro rest' hr
  obtain ⟨ts', hts, hread⟩ := ih.again hr
  have hk : kindAt ts' 0 = kindAt ts 0 := h.kindAt_of_front hts rfl
  obtain ⟨hcolon, hdefinition⟩ := Bool.or_eq_false_iff.1 ho
  have hnone : opensDefinition ts' = false := by
    refine Bool.eq_false_iff.2 fun hd => Bool.eq_false_iff.1 hdefinition ?_
    obtain ⟨⟨n, hn, hname⟩, hm⟩ := (hread.opensDefinition_eq he.toPrintable).1 hd
    exact (h.opensDefinition_eq he.toPrintable).2 ⟨⟨n, hn, hk ▸ hname⟩, hr.marksNames hm⟩
  have hopens : opensParameter ts' = false := by
    rw [opensParameter, hk, hnone, Bool.or_false]
    exact hcolon
  refine ⟨ts', hts, .expressionItem hopens hread, fun _ hd => ?_⟩
  rw [hnone] at hd
  contradiction

/-- Statements that begin like other tokens may follow a statement that those followed, and so
may the end of a block. -/
theorem Reading.mayFollow_of_statements (he : rules.Extensible) {ts ts' rest' : List τ}
    {ss : List (Tree τ)} (h : Reading rules .statements ts' ss rest')
    (hr : kindAt rest' 0 = .rightBrace) (hk : ss = [] ∨ kindAt ts' 0 = kindAt ts 0) :
    MayFollow rules ts ts' ∧ kindAt ts' 0 ≠ .semicolon := by
  cases h with
  | noStatements => exact ⟨.inl (.of_stopper hr rfl), by rw [hr]; decide⟩
  | statements _ _ h =>
    have hk := hk.resolve_left (List.cons_ne_nil _ _)
    have hfirst : ∀ k, nonStarters.contains k = true → k ≠ .defKw → kindAt ts' 0 ≠ k := by
      intro k hnon hdef
      rcases h.kindAt_of_statement he with hk' | hk'
      · exact hk' ▸ hdef.symm
      · exact kind_ne_of_nonStarters hk' hnon
    refine ⟨.inr ⟨hk, fun hword _ => ?_, fun _ hfat => ?_, fun hcomma => ?_⟩,
      hfirst _ (by decide) (by decide)⟩
    · exact h.startsLoop_of_statement he (hk.trans hword)
    · exact absurd (hk.trans hfat) (hfirst _ (by decide) (by decide))
    · exact absurd (hk.trans hcomma) (hfirst _ (by decide) (by decide))

/-- Statements, or none, begin like those with the same front. -/
theorem Reading.kindAt_of_statements {ts rest ts' rest' : List τ} {ss : List (Tree τ)}
    (h : Reading rules .statements ts ss rest) (hts : SameFront ts rest ts' rest') :
    ss = [] ∨ kindAt ts' 0 = kindAt ts 0 := by
  cases h with
  | noStatements => exact .inl rfl
  | statements _ _ h ho =>
    have := h.taken_le
    have := ho.taken_le
    simp only [Category.taken] at *
    exact .inr (hts.kindAt_zero (by omega))

/-! ## All readings -/

/-- A phrase that does not close is read again when the tokens behind it are exchanged for
others before which it may end. The induction is on the reading; the parts are read again
from the last one to the first, and the tokens of a later part may follow an earlier one. -/
theorem Reading.continues (he : rules.Extensible) {c : Category τ} {ts rest : List τ}
    {v : c.Result} (h : Reading rules c ts v rest) (hopen : ¬ c.Closes) :
    c.Continues rules ts v rest := by
  induction h with
  | name hk => exact fun rest' _ => ⟨_, .token _ _ _, .name hk, fun _ => trivial⟩
  | @last e ts rest t _ hr ih =>
    intro rest' hend
    obtain ⟨ts', hts, hread, hplain⟩ := ih id rest' hend.1
    refine ⟨ts', hts, .last hread (hend.2 hr), fun hfollow => ?_⟩
    cases e with
    | item => exact hplain hfollow
    | _ => trivial
  | @more e ts mid rest t s vs _ hs _ ih ih' =>
    intro rest' hend
    obtain ⟨mid', hmid, hothers, hplain'⟩ := ih' id rest' hend
    have hfirst : e.MayEnd rules (s :: mid) (s :: mid') := by
      refine Element.mayEnd_separator hs ?_
      rintro rfl
      exact hplain' hend.1
    obtain ⟨ts', hts, hread, hplain⟩ := ih id (s :: mid') hfirst
    refine ⟨ts', hts.trans (hmid.cons s), .more hread hs hothers, fun _ => ?_⟩
    cases e with
    | item => exact hplain hfirst
    | _ => trivial
  | operandType hl _ ih => exact (ih id).map (fun _ => trivial) id fun _ _ h => .operandType hl h
  | implicationType hl _ ih => exact (ih id).map (fun _ => trivial) id fun _ _ h => .implicationType hl h
  | omittedType hc hn =>
    exact fun rest' hend => ⟨_, .token _ _ _, .omittedType hc (hend.2 hn), fun _ => trivial⟩
  | plainType hc ho h hr ih =>
    exact (ih id).front (fun _ => trivial) (fun hend => hend.1) fun hts hend hread =>
      .plainType hc (h.kindAt_of_front hts rfl ▸ ho) hread (hend.1.kind_ne hr rfl)
  | constrainedType hc ho h hm _ ih ih' =>
    intro rest' hend
    obtain ⟨mid', hmid, hpattern⟩ := (ih' id).again hend.1
    obtain ⟨ts', hts, htype⟩ := (ih id).again (.of_token hm _ mid' (by decide))
    exact ⟨_, (hts.trans (hmid.cons _)).cons _,
      .constrainedType hc (h.kindAt_of_front hts rfl ▸ ho) htype hm hpattern, fun _ => trivial⟩
  | colonConstraint hc hm _ ih =>
    intro rest' hend
    obtain ⟨ts', hts, hpattern⟩ := (ih id).again hend.1
    exact ⟨_, (hts.cons _).cons _, .colonConstraint hc hm hpattern, fun _ => trivial⟩
  | bareConstraint hm _ ih =>
    exact (ih id).front (fun _ => trivial) (fun hend => hend.1) fun _ _ h => .bareConstraint hm h
  | noInitial hn =>
    exact fun rest' hend => ⟨_, .refl _ _, .noInitial (hend.kind_ne hn rfl), fun _ => trivial⟩
  | initial he _ ih => exact (ih id).front (fun _ => trivial) id fun _ _ h => .initial he h
  | unnamedParameter hk ht hv ih ih' =>
    intro rest' hend
    obtain ⟨mid', hmid, hvalue⟩ := (ih' id).again hend
    obtain ⟨ts', hts, htype⟩ := (ih id).again (hv.mayFollow_of_initial hmid hend)
    exact ⟨ts', hts.trans hmid, .unnamedParameter ((ht.kindAt_of_front hts rfl).trans hk) htype hvalue,
      fun _ => trivial⟩
  | namedParameter hk hn ht hv ih ih' ih'' =>
    intro rest' hend
    obtain ⟨mid₂, hmid₂, hvalue⟩ := (ih'' id).again hend
    obtain ⟨mid₁, hmid₁, htype⟩ := (ih' id).again (hv.mayFollow_of_initial hmid₂ hend)
    have hcomma : kindAt mid₁ 0 ≠ .comma := by
      rcases htype.kindAt_of_typing with h | h <;> (rw [h]; decide)
    obtain ⟨ts', hts, hnames⟩ := (ih id).again ⟨trivial, fun _ => hcomma⟩
    exact ⟨ts', hts.trans (hmid₁.trans hmid₂),
      .namedParameter (hn.kindAt_of_front hts rfl ▸ hk) hnames htype hvalue, fun _ => trivial⟩
  | parameterItem ho h ih => exact continues_parameterItem ho h (ih id)
  | expressionItem ho h ih => exact continues_expressionItem he ho h (ih id)
  | items _ ih =>
    exact (ih id).map (fun _ => trivial) (fun hend => ⟨hend, fun hcomma => hend.kind_ne hcomma rfl⟩)
      fun _ _ h => .items h
  | noStatements hn =>
    exact fun rest' hend => ⟨_, .refl _ _, .noStatements (.inl hend), fun _ => trivial⟩
  | statements hb heof h ho ih ih' =>
    intro rest' hend
    obtain ⟨mid', hmid, hothers⟩ := (ih' id).again hend
    obtain ⟨ts', hts, hfirst⟩ :=
      (ih id).again (hothers.mayFollow_of_statements he hend (ho.kindAt_of_statements hmid))
    have hk := h.kindAt_of_front hts rfl
    exact ⟨ts', hts.trans hmid, .statements (hk ▸ hb) (hk ▸ heof) hfirst hothers,
      fun _ => trivial⟩
  | wordConstructor hc hm hs _ ih ih' =>
    intro rest' hend
    obtain ⟨mid', hmid, hresult⟩ := (ih' id).again hend
    obtain ⟨ts', hts, hspecifier⟩ :=
      hs.again_of_closes he trivial (ConstructorSort.isDelimiters _) mid'
    exact ⟨_, (hts.trans hmid).cons _, .wordConstructor hc hm hspecifier hresult,
      fun _ => trivial⟩
  | unmarkedConstructor ho hs hr _ ih' =>
    exact continues_unmarkedConstructor he ho hs hr (ih' id)
  | markedConstructor ho hm hs hr _ ih' =>
    exact continues_markedConstructor he ho hm hs hr (ih' id)
  | @literal t _ hlit =>
    have hbracket : (kind t).isBracket = false := (he.literals hlit).1
    refine continues_atom ?_ ?_ fun _ => .literal hlit
    · intro hk
      rw [hk] at hbracket
      contradiction
    · intro hk
      rw [hk] at hbracket
      contradiction
  | identifier hlit hk =>
    exact continues_atom (by rw [hk]; decide) (by rw [hk]; decide) fun _ => .identifier hlit hk
  | paren hlit h =>
    exact continues_group he isGroupDelimiters_paren h fun hk h => .paren (hk ▸ hlit) h
  | bracket hlit h =>
    exact continues_group he isGroupDelimiters_bracket h fun hk h => .bracket (hk ▸ hlit) h
  | suffixesEnd hn =>
    refine fun rest' hend => ⟨_, .refl _ _, .suffixesEnd ?_, fun _ => trivial⟩
    exact hend.elim id fun hfollow => hfollow.eq_false hn fun hends => hends.continuesValue_eq
  | call ha _ _ ih' =>
    intro rest' hend
    obtain ⟨mid', hmid, hothers⟩ := (ih' id).again hend
    obtain ⟨ts', hts, harguments⟩ := ha.again_of_paren he mid'
    exact ⟨ts', hts.trans hmid, .call harguments hothers, fun _ => trivial⟩
  | index ha _ _ ih' =>
    intro rest' hend
    obtain ⟨mid', hmid, hothers⟩ := (ih' id).again hend
    obtain ⟨ts', hts, harguments⟩ := ha.again_of_bracket he mid'
    exact ⟨ts', hts.trans hmid, .index harguments hothers, fun _ => trivial⟩
  | member hd hn _ ih =>
    intro rest' hend
    obtain ⟨ts', hts, hothers⟩ := (ih id).again hend
    exact ⟨_, (hts.cons _).cons _, .member hd hn hothers, fun _ => trivial⟩
  | caret hc hcaret _ ih => exact (ih id).front (fun _ => trivial) id fun _ _ h => .caret hc hcaret h
  | value _ h ih ih' => exact continues_value h (ih id) (ih' id)
  | prefixOperand ho _ ih => exact (ih id).front (fun _ => trivial) id fun _ _ h => .prefixOperand ho h
  | constructorOperand ho h ih =>
    exact (ih id).map (fun _ => trivial) id fun hts _ hread => .constructorOperand (h.kindAt_of_front hts rfl ▸ ho) hread
  | valueOperand ho hc h ih =>
    intro rest' hend
    obtain ⟨ts', hts, hvalue, hplain⟩ := ih id rest' (.inr hend)
    exact ⟨ts', hts, .valueOperand (h.kindAt_of_front hts rfl ▸ ho) (hplain hend hc) hvalue,
      fun _ => trivial⟩
  | layerOperand _ ih => exact (ih id).map (fun _ => trivial) id fun _ _ h => .layerOperand h
  | layer _ h ih ih' =>
    intro rest' hend
    obtain ⟨mid', hmid, hothers⟩ := (ih' id).again hend
    obtain ⟨ts', hts, hfirst⟩ := (ih id).again (h.mayFollow_of_operations hmid hend)
    exact ⟨ts', hts.trans hmid, .layer hfirst hothers, fun _ => trivial⟩
  | operationsEnd hn =>
    exact fun rest' hend => ⟨_, .refl _ _,
      .operationsEnd (hend.eq_false hn fun hends => hends.layerOperators_eq _), fun _ => trivial⟩
  | operation ho _ h ih ih' =>
    intro rest' hend
    obtain ⟨mid', hmid, hothers⟩ := (ih' id).again hend
    obtain ⟨ts', hts, hoperand⟩ := (ih id).again (h.mayFollow_of_operations hmid hend)
    exact ⟨_, (hts.trans hmid).cons _, .operation ho hoperand hothers, fun _ => trivial⟩
  | implicationEnd _ hn ih =>
    exact (ih id).map (fun _ => trivial) id fun _ hend h => .implicationEnd h
      (hend.eq_false hn fun hends => hends.implicationOperators_eq he.toPrintable)
  | @implication _ mid _ _ _ o _ ho _ ih ih' =>
    intro rest' hend
    obtain ⟨mid', hmid, hright⟩ := (ih' id).again hend
    have hfollow : MayFollow rules (o :: mid) (o :: mid') := .of_implication he ho rfl
    obtain ⟨ts', hts, hleft⟩ := (ih id).again hfollow
    exact ⟨ts', hts.trans (hmid.cons _), .implication hleft ho hright, fun _ => trivial⟩
  | assignmentEnd _ hn ih =>
    exact (ih id).map (fun _ => trivial) id fun _ hend h => .assignmentEnd h (hend.kind_ne hn rfl)
  | assignment _ ho _ ih ih' =>
    intro rest' hend
    obtain ⟨mid', hmid, hright⟩ := (ih' id).again hend
    obtain ⟨ts', hts, hleft⟩ := (ih id).again (.of_token ho _ mid' (by decide))
    exact ⟨ts', hts.trans (hmid.cons _), .assignment hleft ho hright, fun _ => trivial⟩
  | conditional hk hcond hb hn =>
    intro rest' hend
    obtain ⟨mid', hmid, hbody⟩ := hb.again_of_block he rest'
    obtain ⟨ts', hts, hcondition⟩ := hcond.again_of_paren he mid'
    exact ⟨_, (hts.trans hmid).cons _, .conditional hk hcondition hbody (hend.kind_ne hn rfl),
      fun _ => trivial⟩
  | choice hk hcond hb helse _ _ _ ih'' =>
    intro rest' hend
    obtain ⟨mid₂, hmid₂, halternative⟩ := (ih'' id).again hend
    obtain ⟨mid₁, hmid₁, hbody⟩ := hb.again_of_block he (_ :: mid₂)
    obtain ⟨ts', hts, hcondition⟩ := hcond.again_of_paren he mid₁
    exact ⟨_, (hts.trans (hmid₁.trans (hmid₂.cons _))).cons _,
      .choice hk hcondition hbody helse halternative, fun _ => trivial⟩
  | furtherChoice hk h ih =>
    exact (ih id).map (fun _ => trivial) id fun hts _ hread => .furtherChoice ((h.kindAt_of_front hts rfl).trans hk) hread
  | lastChoice hk h =>
    intro rest' _
    obtain ⟨ts', hts, hbody⟩ := h.again_of_block he rest'
    exact ⟨ts', hts, .lastChoice (h.kindAt_of_front hts rfl ▸ hk) hbody, fun _ => trivial⟩
  | branch _ ha hb ih =>
    intro rest' _
    obtain ⟨mid', hmid, hbody⟩ := hb.again_of_block he rest'
    obtain ⟨ts', hts, hpattern⟩ := (ih id).again (.of_branch ha (hb.kindAt_of_front hmid rfl))
    exact ⟨ts', hts.trans (hmid.cons _), .branch hpattern ha hbody, fun _ => trivial⟩
  | conditionalControl hk h ih =>
    exact (ih id).map (fun _ => trivial) id fun hts _ hread =>
      .conditionalControl ((h.kindAt_of_front hts rfl).trans hk) hread
  | caseDistinction hk hs _ _ ih' =>
    intro rest' hend
    obtain ⟨mid', hmid, hbranches⟩ := (ih' id).again ⟨trivial, fun helse => hend.kind_ne helse rfl⟩
    obtain ⟨ts', hts, hsubject⟩ := hs.again_of_paren he mid'
    exact ⟨_, (hts.trans hmid).cons _, .caseDistinction hk hsubject hbranches, fun _ => trivial⟩
  | loop hk hcond hb =>
    intro rest' _
    obtain ⟨mid', hmid, hbody⟩ := hb.again_of_block he rest'
    obtain ⟨ts', hts, hcondition⟩ := hcond.again_of_paren he mid'
    exact ⟨_, (hts.trans hmid).cons _, .loop hk hcondition hbody, fun _ => trivial⟩
  | doBlock hk hb hn =>
    intro rest' hend
    obtain ⟨ts', hts, hbody⟩ := hb.again_of_block he rest'
    refine ⟨_, hts.cons _, .doBlock hk hbody fun hword => ?_, fun _ => trivial⟩
    rcases hend with hend | hend
    · exact absurd hword (hend.kind_ne (by decide))
    · have hold := hend.kind ▸ hword
      exact hend.loop hold (hn hold)
  | doWhile hk hb hw hl hcond =>
    intro rest' hend
    have hp := he.toProper
    have hbrace : kindAt rest' 0 ≠ .leftBrace := hend.kind_ne (fun hbrace => by
      rw [hcond.startsLoop_eq hp, hbrace] at hl
      contradiction) rfl
    obtain ⟨mid', hmid, hcondition⟩ := hcond.again_of_paren he rest'
    obtain ⟨ts', hts, hbody⟩ := hb.again_of_block he (_ :: mid')
    refine ⟨_, (hts.trans (hmid.cons _)).cons _,
      .doWhile hk hbody hw ?_ hcondition, fun _ => trivial⟩
    rw [hcondition.startsLoop_eq hp]
    exact beq_eq_false_iff_ne.2 hbrace
  | captures hk hcap hpar =>
    intro rest' _
    obtain ⟨mid', hmid, hparameters⟩ := hpar.again_of_paren he rest'
    obtain ⟨ts', hts, hcaptures⟩ := hcap.again_of_bracket he mid'
    exact ⟨ts', hts.trans hmid,
      .captures ((hcap.kindAt_of_front hts rfl).trans hk) hcaptures hparameters, fun _ => trivial⟩
  | noCaptures hk hpar =>
    intro rest' _
    obtain ⟨ts', hts, hparameters⟩ := hpar.again_of_paren he rest'
    exact ⟨ts', hts, .noCaptures (hpar.kindAt_of_front hts rfl ▸ hk) hparameters, fun _ => trivial⟩
  | functionValue hk _ hb ih =>
    intro rest' _
    obtain ⟨mid', hmid, hbody⟩ := hb.again_of_block he rest'
    obtain ⟨ts', hts, hhead⟩ := (ih id).again trivial
    exact ⟨_, (hts.trans hmid).cons _, .functionValue hk hhead hbody, fun _ => trivial⟩
  | blockScope hk h =>
    intro rest' _
    obtain ⟨ts', hts, hbody⟩ := h.again_of_block he rest'
    exact ⟨ts', hts, .blockScope ((h.kindAt_of_front hts rfl).trans hk) hbody, fun _ => trivial⟩
  | expressionScope hk h ih =>
    exact (ih id).map (fun _ => trivial) id fun hts _ hread => .expressionScope (h.kindAt_of_front hts rfl ▸ hk) hread
  | localBinding hk hpar _ _ ih' =>
    intro rest' hend
    obtain ⟨mid', hmid, hscope⟩ := (ih' id).again hend
    obtain ⟨ts', hts, hbindings⟩ := hpar.again_of_paren he mid'
    exact ⟨_, (hts.trans hmid).cons _, .localBinding hk hbindings hscope, fun _ => trivial⟩
  | controlExpression ho h ih =>
    exact (ih id).map (fun _ => trivial) id fun hts _ hread =>
      .controlExpression ((opensControl_congr (h.kindAt_of_front hts rfl)).trans ho) hread
  | assignmentExpression ho h ih =>
    exact (ih id).map (fun _ => trivial) id fun hts _ hread =>
      .assignmentExpression ((opensControl_congr (h.kindAt_of_front hts rfl)).trans ho) hread
  | definitionStatement ho h =>
    intro rest' _
    obtain ⟨ts', hts, hread⟩ := h.again_of_closes he trivial trivial rest'
    exact ⟨ts', hts, .definitionStatement hread.opensDeclaration_of_definition hread,
      fun _ => trivial⟩
  | controlStatement _ ho h _ ih =>
    intro rest' hend
    obtain ⟨ts', hts, hread⟩ := (ih id).again hend.1
    have ho' := (opensControl_congr (h.kindAt_of_front hts rfl)).trans ho
    exact ⟨ts', hts, .controlStatement (opensDeclaration_of_opensControl ho') ho' hread hend.2,
      fun _ => trivial⟩
  | terminatedControl _ ho h hs ih =>
    intro rest' _
    obtain ⟨ts', hts, hread⟩ := (ih id).again (.inl (.of_token hs rest' rfl))
    have ho' := (opensControl_congr (h.kindAt_of_front hts rfl)).trans ho
    exact ⟨ts', hts.trans (.token _ _ _),
      .terminatedControl (opensDeclaration_of_opensControl ho') ho' hread hs, fun _ => trivial⟩
  | expressionStatement _ _ _ hs ih =>
    intro rest' _
    obtain ⟨ts', hts, hread⟩ := (ih id).again (.inl (.of_token hs rest' rfl))
    exact ⟨ts', hts.trans (.token _ _ _), hread.statement_of_expression he hs, fun _ => trivial⟩
  | declarations => exact fun _ hend => hend.elim
  | noDeclarations => exact fun _ hend => hend.elim
  | emptyEnclosure | enclosure | block | typedOnly | definedBlock | definedValue | introduced
  | unintroduced => exact absurd trivial hopen

end ConcreteSyntax
