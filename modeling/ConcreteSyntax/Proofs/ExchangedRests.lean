import ConcreteSyntax.Proofs.ConstructorLookahead

/-!
# Other tokens behind a reading

What is read from the front of some tokens depends on the tokens behind it only as far as
decisions look ahead. No decision looks past a semicolon or a closer, except that it may look
past the closer of an enclosure that begins with it, and that the word of a loop may have a
block behind its condition. So a reading stays a reading when the tokens behind it are
exchanged for others that resemble them up to there. A block, an enclosure and a definition
end with such a token, so any tokens may stand behind them.
-/

namespace ConcreteSyntax

open TokenParser Grammar

variable {τ : Type} [HasKind τ] {rules : Rules}

/-! ## Tokens that resemble others -/

/-- The kinds past which decisions do not look. -/
def stoppers : KindSet := .ofList [.semicolon, .rightParen, .rightBracket, .rightBrace]

/-- That tokens resemble others: they have a front in common, up to a stopper, and the word
of a loop in this front begins a loop in both or in neither. -/
inductive Resembles : List τ → List τ → Prop
  | stop {t : τ} {ts ts' : List τ} (hs : stoppers.contains (kind t) = true) :
    Resembles (t :: ts) (t :: ts')
  | cons {t : τ} {ts ts' : List τ}
    (hw : kind t = .whileKw → startsLoop (t :: ts') = startsLoop (t :: ts))
    (h : Resembles ts ts') : Resembles (t :: ts) (t :: ts')

namespace Resembles

variable {ts ts' : List τ}

/-- A token that is not the word of a loop may stand in front. -/
theorem consOf {t : τ} (ht : kind t ≠ .whileKw) (h : Resembles ts ts') :
    Resembles (t :: ts) (t :: ts') :=
  .cons (fun hw => absurd hw ht) h

/-- A token of a given kind that is not the word of a loop may stand in front. -/
theorem consKind {t : τ} {k : TokenKind} (ht : kind t = k) (h : Resembles ts ts')
    (hk : k ≠ .whileKw := by decide) : Resembles (t :: ts) (t :: ts') :=
  .consOf (ht ▸ hk) h

/-- The next tokens are of the same kind. -/
theorem kindAt_zero (h : Resembles ts ts') : kindAt ts' 0 = kindAt ts 0 := by
  cases h <;> rfl

/-- The tokens after the next ones are of the same kind, unless the next one is a stopper. -/
theorem kindAt_one (h : Resembles ts ts') (hs : stoppers.contains (kindAt ts 0) = false) :
    kindAt ts' 1 = kindAt ts 1 := by
  cases h with
  | stop hk =>
    rw [kindAt_cons_zero, hk] at hs
    contradiction
  | cons _ h => exact h.kindAt_zero

/-- The word of a loop in front begins a loop in both or in neither. -/
theorem startsLoop_eq (h : Resembles ts ts') (hk : kindAt ts 0 = .whileKw) :
    startsLoop ts' = startsLoop ts := by
  cases h with
  | stop hs =>
    rw [kindAt_cons_zero] at hk
    rw [hk] at hs
    exact absurd hs (by decide)
  | cons hw _ => exact hw hk

/-- Names are marked as those of a definition in both or in neither. -/
theorem marks_eq (h : Resembles ts ts') :
    opensDefinition ts' = opensDefinition ts ∧ marksNames ts' = marksNames ts := by
  induction h with
  | @stop t ts ts' hs =>
    have hname : (kind t == .ident) = false := by
      refine beq_eq_false_iff_ne.2 fun hk => ?_
      rw [hk] at hs
      exact absurd hs (by decide)
    have hcomma : kind t ≠ .comma := by
      intro hk
      rw [hk] at hs
      exact absurd hs (by decide)
    constructor
    · rw [opensDefinition_cons, opensDefinition_cons, hname, Bool.false_and, Bool.false_and]
    · unfold marksNames
      rw [kindAt_cons_zero, kindAt_cons_zero]
      split
      · contradiction
      · rfl
      · rfl
      · rfl
  | @cons t ts ts' _ _ ih =>
    obtain ⟨hopens, hmarks⟩ := ih
    constructor
    · rw [opensDefinition_cons, opensDefinition_cons, hmarks]
    · unfold marksNames
      rw [kindAt_cons_zero, kindAt_cons_zero, List.drop_succ_cons, List.drop_succ_cons,
        List.drop_zero, List.drop_zero, hopens]

/-- A definition begins in both or in neither. -/
theorem opensDefinition_eq (h : Resembles ts ts') : opensDefinition ts' = opensDefinition ts :=
  h.marks_eq.1

/-- A parameter begins in both or in neither. -/
theorem opensParameter_eq (h : Resembles ts ts') : opensParameter ts' = opensParameter ts := by
  rw [opensParameter, opensParameter, h.kindAt_zero, h.opensDefinition_eq]

/-- A declaration begins in both or in neither. -/
theorem opensDeclaration_eq (h : Resembles ts ts') :
    opensDeclaration ts' = opensDeclaration ts := by
  rw [opensDeclaration, opensDeclaration, h.kindAt_zero, h.opensDefinition_eq]

/-- Both begin with a colon, or with a name and a colon, or neither does. -/
theorem opensNamed_eq (h : Resembles ts ts') : opensNamed ts' = opensNamed ts := by
  unfold opensNamed
  rw [h.kindAt_zero]
  by_cases hk : kindAt ts 0 = .ident
  · rw [h.kindAt_one (by rw [hk]; decide)]
  · rw [beq_eq_false_iff_ne.2 hk, Bool.false_and, Bool.false_and]

/-- The tokens begin alike for every specifier. -/
theorem opensAlike (h : Resembles ts ts') (place : Tree.Place) : OpensAlike place ts ts' where
  parameter := h.opensParameter_eq
  specifier _ hn := h.opensNamed_eq.trans hn
  plain _ hn := h.opensNamed_eq.symm.trans hn

end Resembles

/-! ## The decision for a constructor -/

/-- The second token behind an enclosure matters only where the first one is the arrow of
templates. -/
theorem constructorForm?_congr {opening first second second' : TokenKind}
    {hollow parameters : Bool} (h : first = .fatArrow → second' = second) :
    constructorForm? rules opening hollow parameters first second' =
      constructorForm? rules opening hollow parameters first second := by
  by_cases hf : first = .fatArrow
  · rw [h hf]
  · unfold constructorForm?
    simp only [decide_eq_false hf, Bool.false_and]

/-- An enclosure begins a constructor in both tokens or in neither, when they resemble each
other inside the enclosure and behind it. -/
theorem Resembles.opensConstructor_eq (hp : rules.Proper) {opening closing : TokenKind}
    (hdel : IsGroupDelimiters opening closing) {ts mid ts' mid' : List τ} {t : Tree τ}
    (h : Reading rules (.enclosed opening closing) ts t mid)
    (h' : Reading rules (.enclosed opening closing) ts' t mid')
    (hk : kindAt ts' 0 = kindAt ts 0) (hin : Resembles (ts.drop 1) (ts'.drop 1))
    (hmid : Resembles mid mid') : opensConstructor rules ts' = opensConstructor rules ts := by
  unfold opensConstructor
  cases rules.constructors with
  | lookahead =>
    have hsecond : kindAt mid 0 = .fatArrow → kindAt mid' 1 = kindAt mid 1 := by
      intro hf
      exact hmid.kindAt_one (by rw [hf]; decide)
    simp only [h.constructorAhead?_eq hp hdel.isDelimiters,
      h'.constructorAhead?_eq hp hdel.isDelimiters, hk, hin.opensParameter_eq, hmid.kindAt_zero,
      constructorForm?_congr hsecond]
  | keyword => simp only [hk]
  | arrow =>
    simp only [hk, h.bracketFollowedBy_eq hp hdel.isDelimiters,
      h'.bracketFollowedBy_eq hp hdel.isDelimiters, hmid.kindAt_zero]
  | parameter =>
    simp only [hk]
    rcases hdel with ⟨rfl, rfl⟩ | ⟨rfl, rfl⟩
    · rw [h.opensParameters_eq, h'.opensParameters_eq, hin.opensNamed_eq]
    · have hopen : kindAt ts 0 = .leftBracket := by cases h <;> assumption
      rw [hopen]
      rfl
  | absent => rfl

/-! ## Exchanged tokens -/

/-- That tokens are others with the rest exchanged: both have the same front before their
rests, and no decision in front of them tells one from the other. -/
structure Exchanged (ts rest ts' rest' : List τ) : Prop where
  /-- No decision tells the difference. -/
  resembles : Resembles ts ts'
  /-- The front is the same. -/
  front : ∃ used, ts = used ++ rest ∧ ts' = used ++ rest'

namespace Exchanged

variable {ts mid rest ts' mid' rest' : List τ}

/-- The whole of some tokens may be exchanged for tokens that resemble them. -/
theorem refl (h : Resembles rest rest') : Exchanged rest rest rest' rest' :=
  ⟨h, [], rfl, rfl⟩

/-- Fronts may be joined. -/
theorem trans (h : Exchanged ts mid ts' mid') (h' : Exchanged mid rest mid' rest') :
    Exchanged ts rest ts' rest' := by
  obtain ⟨used, rfl, rfl⟩ := h.front
  obtain ⟨used', rfl, rfl⟩ := h'.front
  exact ⟨h.resembles, used ++ used', (List.append_assoc ..).symm, (List.append_assoc ..).symm⟩

/-- A token belongs to the front. -/
theorem token {t : τ} (h : Resembles (t :: ts) (t :: ts')) :
    Exchanged (t :: ts) ts (t :: ts') ts' :=
  ⟨h, [t], rfl, rfl⟩

/-- A token of a given kind that is not the word of a loop may stand in front. -/
theorem consKind {t : τ} {k : TokenKind} (ht : kind t = k) (h : Exchanged ts rest ts' rest')
    (hk : k ≠ .whileKw := by decide) : Exchanged (t :: ts) rest (t :: ts') rest' :=
  (token (.consKind ht h.resembles hk)).trans h

/-- A token that is not the word of a loop may stand in front. -/
theorem consOf {t : τ} (ht : kind t ≠ .whileKw) (h : Exchanged ts rest ts' rest') :
    Exchanged (t :: ts) rest (t :: ts') rest' :=
  h.consKind rfl ht

/-- Behind a stopper all tokens may be exchanged. -/
theorem stop {t : τ} {k : TokenKind} (ht : kind t = k) (ts ts' : List τ)
    (hk : stoppers.contains k = true := by decide) : Exchanged (t :: ts) ts (t :: ts') ts' :=
  token (.stop (ht ▸ hk))

end Exchanged

/-- No table of a dialect contains the word of a loop. -/
structure Rules.Loopless (rules : Rules) : Prop where
  /-- It is no prefix operator. -/
  prefixes : rules.prefixOperators.contains .whileKw = false
  /-- It is no implication operator. -/
  implications : rules.implicationOperators.contains .whileKw = false
  /-- It is no literal. -/
  literals : rules.literals.contains .whileKw = false

/-- The tables of the dialects do not contain the word of a loop. -/
theorem Dialect.loopless_rules (d : Dialect) : d.rules.Loopless := by
  constructor <;> cases d <;> decide

/-- A kind of a set that does not contain the word of a loop is not this word. -/
theorem ne_whileKw_of_contains {kinds : KindSet} (h : kinds.contains .whileKw = false)
    {k : TokenKind} (hk : kinds.contains k = true) : k ≠ .whileKw := by
  rintro rfl
  rw [h] at hk
  contradiction

/-- The operators of the layers are not the word of a loop. -/
theorem layerOperators_ne_whileKw {n : Nat} {k : TokenKind}
    (h : (layerOperators n).contains k = true) : k ≠ .whileKw := by
  have hnone : (layerOperators n).contains .whileKw = false := by
    unfold layerOperators
    split <;> decide
  exact ne_whileKw_of_contains hnone h

/-! ## Readings with exchanged rests -/

/-- Whether every reading of a category ends with a stopper. -/
def Category.Closes : Category τ → Prop
  | .enclosed _ _ | .block | .defined _ _ | .definition => True
  | _ => False

/-- What else stays the same when the rest of a reading is exchanged: an enclosure has the
same tokens in front inside, and a value is taken for a constructor in both or in neither. -/
def Category.Keeps (rules : Rules) : Category τ → List τ → List τ → Prop
  | .enclosed _ _, ts, ts' => Resembles (ts.drop 1) (ts'.drop 1)
  | .primary, ts, ts' | .element .value, ts, ts' =>
    opensConstructor rules ts' = opensConstructor rules ts
  | _, _, _ => True

/-- That a result of a category is read again when the rest is exchanged for one that
resembles it, or for any rest if the category ends with a stopper. -/
def Category.Exchanges (rules : Rules) (c : Category τ) (ts : List τ) (v : c.Result)
    (rest : List τ) : Prop :=
  ∀ rest', c.Closes ∨ Resembles rest rest' →
    ∃ ts', Reading rules c ts' v rest' ∧ Exchanged ts rest ts' rest' ∧ c.Keeps rules ts ts'

namespace Category.Exchanges

variable {c c' : Category τ} {ts mid rest : List τ} {v : c.Result} {v' : c'.Result}

/-- A reading of a closed category is read again whatever follows it. -/
theorem closed (h : c.Exchanges rules ts v rest) (hc : c.Closes) (rest' : List τ) :
    ∃ ts', Reading rules c ts' v rest' ∧ Exchanged ts rest ts' rest' := by
  obtain ⟨ts', hread, hts, -⟩ := h rest' (.inl hc)
  exact ⟨ts', hread, hts⟩

/-- A reading is read again in front of tokens that resemble its rest. -/
theorem alike (h : c.Exchanges rules ts v rest) {rest' : List τ} (hr : Resembles rest rest') :
    ∃ ts', Reading rules c ts' v rest' ∧ Exchanged ts rest ts' rest' := by
  obtain ⟨ts', hread, hts, -⟩ := h rest' (.inr hr)
  exact ⟨ts', hread, hts⟩

/-- A reading in front of a stopper is read again in front of it, whatever follows. -/
theorem stopped {t : τ} {k : TokenKind} (h : c.Exchanges rules ts v (t :: rest))
    (ht : kind t = k) (rest' : List τ) (hk : stoppers.contains k = true := by decide) :
    ∃ ts', Reading rules c ts' v (t :: rest') ∧ Exchanged ts rest ts' rest' := by
  have hstop : Exchanged (t :: rest) rest (t :: rest') rest' := .stop ht rest rest' hk
  obtain ⟨ts', hread, hts⟩ := h.alike hstop.resembles
  exact ⟨ts', hread, hts.trans hstop⟩

/-- Two readings, one after the other, are read again. -/
theorem pair (h : c.Exchanges rules ts v mid) (h' : c'.Exchanges rules mid v' rest)
    {rest' : List τ} (hr : c'.Closes ∨ Resembles rest rest') :
    ∃ ts' mid', Reading rules c ts' v mid' ∧ Reading rules c' mid' v' rest' ∧
      Exchanged ts rest ts' rest' := by
  obtain ⟨mid', hsecond, hmid, -⟩ := h' rest' hr
  obtain ⟨ts', hfirst, hts⟩ := h.alike hmid.resembles
  exact ⟨ts', mid', hfirst, hsecond, hts.trans hmid⟩

/-- Two readings with a token between them are read again. -/
theorem separated {t : τ} (ht : kind t ≠ .whileKw) (h : c.Exchanges rules ts v (t :: mid))
    (h' : c'.Exchanges rules mid v' rest) {rest' : List τ}
    (hr : c'.Closes ∨ Resembles rest rest') :
    ∃ ts' mid', Reading rules c ts' v (t :: mid') ∧ Reading rules c' mid' v' rest' ∧
      Exchanged ts rest ts' rest' := by
  obtain ⟨mid', hsecond, hmid, -⟩ := h' rest' hr
  have hword := hmid.consOf ht
  obtain ⟨ts', hfirst, hts⟩ := h.alike hword.resembles
  exact ⟨ts', mid', hfirst, hsecond, hts.trans hword⟩

/-- A reading that is one of another category as it stands is read again with it. -/
theorem map (h : c.Exchanges rules ts v rest)
    (hbuild : ∀ {ts' rest' : List τ}, Resembles ts ts' → Resembles rest rest' →
      Reading rules c ts' v rest' → Reading rules c' ts' v' rest')
    (hopen : ¬ c'.Closes := by exact id)
    (hkeeps : ∀ ts', c'.Keeps rules ts ts' := by exact fun _ => trivial) :
    c'.Exchanges rules ts v' rest := by
  intro rest' hr
  have hrest : Resembles rest rest' := hr.resolve_left hopen
  obtain ⟨ts', hread, hts⟩ := h.alike hrest
  exact ⟨ts', hbuild hts.resembles hrest hread, hts, hkeeps ts'⟩

/-- A reading behind a token of a given kind is read again with the token. -/
theorem front {t : τ} {k : TokenKind} (ht : kind t = k) (h : c.Exchanges rules ts v rest)
    (hbuild : ∀ {ts' rest' : List τ}, Resembles ts ts' → Resembles rest rest' →
      Reading rules c ts' v rest' → Reading rules c' (t :: ts') v' rest')
    (hopen : ¬ c'.Closes := by exact id) (hk : k ≠ .whileKw := by decide)
    (hkeeps : ∀ ts', c'.Keeps rules (t :: ts) ts' := by exact fun _ => trivial) :
    c'.Exchanges rules (t :: ts) v' rest := by
  intro rest' hr
  have hrest : Resembles rest rest' := hr.resolve_left hopen
  obtain ⟨ts', hread, hts⟩ := h.alike hrest
  exact ⟨t :: ts', hbuild hts.resembles hrest hread, hts.consKind ht hk, hkeeps (t :: ts')⟩

end Category.Exchanges

/-- A reading that takes nothing is read again before tokens that resemble the rest. -/
theorem Category.exchanges_nothing {c : Category τ} {v : c.Result} {ts : List τ}
    (hbuild : ∀ {ts' : List τ}, Resembles ts ts' → Reading rules c ts' v ts')
    (hopen : ¬ c.Closes := by exact id)
    (hkeeps : ∀ ts', c.Keeps rules ts ts' := by exact fun _ => trivial) :
    c.Exchanges rules ts v ts := by
  intro rest' hr
  have hrest : Resembles ts rest' := hr.resolve_left hopen
  exact ⟨rest', hbuild hrest, .refl hrest, hkeeps rest'⟩

/-- A reading of one token is read again before tokens that resemble the rest. -/
theorem Category.exchanges_token {c : Category τ} {v : c.Result} {t : τ} {ts : List τ}
    (ht : kind t ≠ .whileKw)
    (hbuild : ∀ {ts' : List τ}, Resembles ts ts' → Reading rules c (t :: ts') v ts')
    (hopen : ¬ c.Closes := by exact id)
    (hkeeps : ∀ ts', c.Keeps rules (t :: ts) (t :: ts') := by exact fun _ => trivial) :
    c.Exchanges rules (t :: ts) v ts := by
  intro rest' hr
  have hrest : Resembles ts rest' := hr.resolve_left hopen
  exact ⟨t :: rest', hbuild hrest, (Exchanged.refl hrest).consOf ht, hkeeps rest'⟩

/-! ## Groups and constructors -/

/-- The closing delimiters are stoppers. -/
theorem IsDelimiters.stopper {opening closing : TokenKind} (h : IsDelimiters opening closing) :
    stoppers.contains closing = true := by
  have hall : ∀ k ∈ TokenKind.all, closers.contains k = true → stoppers.contains k = true := by
    decide
  exact hall closing closing.mem_all h.2.1

/-- An opening delimiter is not the word of a loop. -/
theorem IsDelimiters.ne_whileKw {opening closing : TokenKind} (h : IsDelimiters opening closing) :
    opening ≠ .whileKw :=
  ne_whileKw_of_contains (by decide) h.1

/-- An empty enclosure is read again whatever follows it. -/
theorem exchanges_emptyEnclosure {opening closing : TokenKind} (hdel : IsDelimiters opening closing)
    {a b : τ} {ts : List τ} (ha : kind a = opening) (hb : kind b = closing) :
    Category.Exchanges rules (.enclosed opening closing) (a :: b :: ts) (.enclosure a none b)
      ts := by
  intro rest' _
  have hclose : Exchanged (b :: ts) ts (b :: rest') rest' := .stop hb ts rest' hdel.stopper
  exact ⟨a :: b :: rest', .emptyEnclosure ha hb, hclose.consKind ha hdel.ne_whileKw,
    hclose.resembles⟩

/-- An enclosure is read again whatever follows it. -/
theorem exchanges_enclosure {opening closing : TokenKind} (hdel : IsDelimiters opening closing)
    {a b : τ} {ts rest : List τ} {vs : List (Tree τ)} (ha : kind a = opening)
    (hn : kindAt ts 0 ≠ closing) (hb : kind b = closing)
    (ih : Category.Exchanges rules (.separated .items) ts vs (b :: rest)) :
    Category.Exchanges rules (.enclosed opening closing) (a :: ts)
      (.enclosure a (some (.joined vs)) b) rest := by
  intro rest' _
  obtain ⟨ts', hvs, hts⟩ := ih.stopped hb rest' hdel.stopper
  have hfirst : kindAt ts' 0 ≠ closing := hts.resembles.kindAt_zero ▸ hn
  exact ⟨a :: ts', .enclosure ha hfirst hvs hb, hts.consKind ha hdel.ne_whileKw, hts.resembles⟩

/-- A group as a value is read again before tokens that resemble the rest. -/
theorem exchanges_group (hp : rules.Proper) {opening closing : TokenKind}
    (hdel : IsGroupDelimiters opening closing) {ts rest : List τ} {t : Tree τ}
    (h : Reading rules (.enclosed opening closing) ts t rest)
    (hbuild : ∀ {ts' rest' : List τ}, Resembles ts ts' →
      Reading rules (.enclosed opening closing) ts' t rest' → Reading rules .primary ts' t rest')
    (ih : Category.Exchanges rules (.enclosed opening closing) ts t rest) :
    Category.Exchanges rules .primary ts t rest := by
  intro rest' hr
  have hrest : Resembles rest rest' := hr.resolve_left id
  obtain ⟨ts', hread, hts, hin⟩ := ih rest' (.inr hrest)
  have hin : Resembles (ts.drop 1) (ts'.drop 1) := hin
  exact ⟨ts', hbuild hts.resembles hread, hts,
    hin.opensConstructor_eq hp hdel h hread hts.resembles.kindAt_zero hrest⟩

/-- A token as a value is read again before tokens that resemble the rest. -/
theorem exchanges_atom {t : τ} {ts : List τ} {v : Tree τ} (ht : kind t ≠ .whileKw)
    (hparen : kind t ≠ .leftParen) (hbracket : kind t ≠ .leftBracket)
    (hbuild : ∀ ts' : List τ, Reading rules .primary (t :: ts') v ts') :
    Category.Exchanges rules .primary (t :: ts) v ts :=
  Category.exchanges_token ht (fun _ => hbuild _) id
    fun ts' => opensConstructor_cons t hparen hbracket ts' ts

/-- A constructor without a mark is read again before tokens that resemble the rest. -/
theorem exchanges_unmarkedConstructor (hp : rules.Printable) {sort : ConstructorSort}
    {ts mid rest : List τ} {s r : Tree τ} (ho : OpensUnmarked rules sort ts mid)
    (hs : Reading rules (.enclosed sort.opening sort.closing) ts s mid)
    (ih : Category.Exchanges rules (.enclosed sort.opening sort.closing) ts s mid)
    (ih' : Category.Exchanges rules (.phrase .operand) mid r rest) :
    Category.Exchanges rules .constructor ts (sort.build none s r) rest := by
  intro rest' hr
  have hrest : Resembles rest rest' := hr.resolve_left id
  obtain ⟨mid', hresult, hmid⟩ := ih'.alike hrest
  obtain ⟨ts', hspecifier, hts, hin⟩ := ih mid' (.inl trivial)
  have hin : Resembles (ts.drop 1) (ts'.drop 1) := hin
  have hopens : OpensUnmarked rules sort ts' mid' :=
    ho.again hp hs hspecifier hts.resembles.kindAt_zero (hin.opensAlike _)
      (.inl hmid.resembles.kindAt_zero)
  exact ⟨ts', .unmarkedConstructor hopens hspecifier hresult, hts.trans hmid, trivial⟩

/-- A constructor with an arrow is read again before tokens that resemble the rest. -/
theorem exchanges_markedConstructor (hp : rules.Printable) {sort : ConstructorSort} {m : τ}
    {ts mid rest : List τ} {s r : Tree τ} (ho : OpensMarked rules sort ts)
    (hm : kind m = sort.arrow)
    (hs : Reading rules (.enclosed sort.opening sort.closing) ts s (m :: mid))
    (ih : Category.Exchanges rules (.enclosed sort.opening sort.closing) ts s (m :: mid))
    (ih' : Category.Exchanges rules (.phrase .operand) mid r rest) :
    Category.Exchanges rules .constructor ts (sort.build (some m) s r) rest := by
  intro rest' hr
  have hrest : Resembles rest rest' := hr.resolve_left id
  have harrow : sort.arrow ≠ .whileKw := by cases sort <;> decide
  obtain ⟨mid', hresult, hmid⟩ := ih'.alike hrest
  obtain ⟨ts', hspecifier, hts, hin⟩ := ih (m :: mid') (.inl trivial)
  have hin : Resembles (ts.drop 1) (ts'.drop 1) := hin
  have hopens : OpensMarked rules sort ts' :=
    ho.again hp hs hspecifier hts.resembles.kindAt_zero (hin.opensAlike _)
      (.inl hmid.resembles.kindAt_zero)
  exact ⟨ts', .markedConstructor hopens hm hspecifier hresult,
    hts.trans (hmid.consKind hm harrow), trivial⟩

/-! ## Loops -/

/-- A loop with a condition and a block is read again before tokens that resemble the rest.
Its word begins a loop, since the block follows the condition. -/
theorem exchanges_loop (hp : rules.Proper) {k : τ} {ts mid rest : List τ} {c b : Tree τ}
    (hk : kind k = .forKw ∨ kind k = .whileKw)
    (hc : Reading rules (.enclosed .leftParen .rightParen) ts c mid)
    (hb : Reading rules .block mid b rest)
    (ih : Category.Exchanges rules (.enclosed .leftParen .rightParen) ts c mid)
    (ih' : Category.Exchanges rules .block mid b rest) :
    Category.Exchanges rules .control (k :: ts) (.control k (some c) (some b)) rest := by
  intro rest' _
  obtain ⟨mid', hbody, hmid⟩ := ih'.closed trivial rest'
  obtain ⟨ts', hcondition, hts⟩ := ih.closed trivial mid'
  have hbrace : kindAt mid 0 = .leftBrace := by cases hb; assumption
  have hloop : startsLoop (k :: ts') = startsLoop (k :: ts) := by
    rw [hc.startsLoop_eq hp, hcondition.startsLoop_eq hp, hmid.resembles.kindAt_zero]
  have hword : Exchanged (k :: ts) ts (k :: ts') ts' := .token (.cons (fun _ => hloop) hts.resembles)
  exact ⟨k :: ts', .loop hk hcondition hbody, hword.trans (hts.trans hmid), trivial⟩

/-- A block with a condition behind it is read again before tokens that resemble the rest. -/
theorem exchanges_doWhile (hp : rules.Proper) {k w : τ} {ts mid rest : List τ} {b c : Tree τ}
    (hk : kind k = .doKw) (hw : kind w = .whileKw) (hl : startsLoop (w :: mid) = false)
    (hc : Reading rules (.enclosed .leftParen .rightParen) mid c rest)
    (ih : Category.Exchanges rules .block ts b (w :: mid))
    (ih' : Category.Exchanges rules (.enclosed .leftParen .rightParen) mid c rest) :
    Category.Exchanges rules .control (k :: ts)
      (.control k (some b) (some (.control w (some c) none))) rest := by
  intro rest' hr
  have hrest : Resembles rest rest' := hr.resolve_left id
  obtain ⟨mid', hcondition, hmid⟩ := ih'.alike hrest
  have hloop : startsLoop (w :: mid') = startsLoop (w :: mid) := by
    rw [hc.startsLoop_eq hp, hcondition.startsLoop_eq hp, hrest.kindAt_zero]
  have hword : Exchanged (w :: mid) mid (w :: mid') mid' :=
    .token (.cons (fun _ => hloop) hmid.resembles)
  obtain ⟨ts', hbody, hts⟩ := ih.alike hword.resembles
  exact ⟨k :: ts', .doWhile hk hbody hw (hloop.trans hl) hcondition,
    (hts.trans (hword.trans hmid)).consKind hk, trivial⟩

/-- What is read from some tokens is read again when the rest is exchanged for one that
resembles it, and in front of any rest if it ends with a stopper. The induction is on the
reading; the parts are exchanged from the last one to the first. -/
theorem Reading.exchanges (hp : rules.Printable) (hl : rules.Loopless) {c : Category τ}
    {ts rest : List τ} {v : c.Result} (h : Reading rules c ts v rest) (hdel : c.Delimited) :
    c.Exchanges rules ts v rest := by
  have paren : IsDelimiters .leftParen .rightParen := by unfold IsDelimiters; decide
  have bracket : IsDelimiters .leftBracket .rightBracket := by unfold IsDelimiters; decide
  induction h with
  | @name t ts hk =>
    exact Category.exchanges_token (by rw [hk]; decide) fun _ => .name hk
  | last _ hr ih =>
    exact (ih trivial).map fun _ hrest h => .last h (hrest.kindAt_zero ▸ hr)
  | @more e _ _ _ _ s _ _ hs _ ih ih' =>
    intro rest' hr
    have hword : kind s ≠ .whileKw := by
      rw [hs]
      cases e <;> decide
    obtain ⟨ts', mid', ht, hvs, hts⟩ := (ih trivial).separated hword (ih' trivial) hr
    exact ⟨ts', .more ht hs hvs, hts, trivial⟩
  | operandType hl _ ih => exact (ih trivial).map fun _ _ h => .operandType hl h
  | implicationType hl _ ih => exact (ih trivial).map fun _ _ h => .implicationType hl h
  | omittedType hc hn =>
    exact Category.exchanges_token (by rw [hc]; decide) fun hts =>
      .omittedType hc (hts.kindAt_zero.trans hn)
  | plainType hc ho _ hr ih =>
    exact (ih trivial).front hc fun hts hrest h =>
      .plainType hc (hts.kindAt_zero ▸ ho) h (hrest.kindAt_zero ▸ hr)
  | constrainedType hc ho _ hm _ ih ih' =>
    intro rest' hr
    obtain ⟨ts', mid', htype, hpattern, hts⟩ :=
      (ih trivial).separated (by rw [hm]; decide) (ih' trivial) hr
    exact ⟨_, .constrainedType hc (hts.resembles.kindAt_zero ▸ ho) htype hm hpattern,
      hts.consKind hc, trivial⟩
  | colonConstraint hc hm _ ih =>
    intro rest' hr
    obtain ⟨ts', hpattern, hts⟩ := (ih trivial).alike (hr.resolve_left id)
    exact ⟨_, .colonConstraint hc hm hpattern, (hts.consKind hm).consKind hc, trivial⟩
  | bareConstraint hm _ ih => exact (ih trivial).front hm fun _ _ h => .bareConstraint hm h
  | noInitial hn =>
    exact Category.exchanges_nothing fun hts => .noInitial (hts.kindAt_zero ▸ hn)
  | initial he _ ih => exact (ih trivial).front he fun _ _ h => .initial he h
  | unnamedParameter hk _ _ ih ih' =>
    intro rest' hr
    obtain ⟨ts', mid', htype, hvalue, hts⟩ := (ih trivial).pair (ih' trivial) hr
    exact ⟨ts', .unnamedParameter (hts.resembles.kindAt_zero.trans hk) htype hvalue, hts, trivial⟩
  | namedParameter hk _ _ _ ih ih' ih'' =>
    intro rest' hr
    obtain ⟨mid₁, mid₂, htype, hvalue, hmid⟩ := (ih' trivial).pair (ih'' trivial) hr
    obtain ⟨ts', hnames, hts⟩ := (ih trivial).alike hmid.resembles
    exact ⟨ts', .namedParameter (hts.resembles.kindAt_zero ▸ hk) hnames htype hvalue,
      hts.trans hmid, trivial⟩
  | parameterItem ho _ ih =>
    exact (ih trivial).map fun hts _ h => .parameterItem (hts.opensParameter_eq.trans ho) h
  | expressionItem ho _ ih =>
    exact (ih trivial).map fun hts _ h => .expressionItem (hts.opensParameter_eq.trans ho) h
  | items _ ih => exact (ih trivial).map fun _ _ h => .items h
  | emptyEnclosure ha hb => exact exchanges_emptyEnclosure hdel ha hb
  | enclosure ha hn _ hb ih => exact exchanges_enclosure hdel ha hn hb (ih trivial)
  | noStatements hn =>
    exact Category.exchanges_nothing fun hts => .noStatements (by rwa [hts.kindAt_zero])
  | statements hb he _ _ ih ih' =>
    intro rest' hr
    obtain ⟨ts', mid', hfirst, hothers, hts⟩ := (ih trivial).pair (ih' trivial) hr
    have hkind := hts.resembles.kindAt_zero
    exact ⟨ts', .statements (hkind ▸ hb) (hkind ▸ he) hfirst hothers, hts, trivial⟩
  | block ha _ hb ih =>
    intro rest' _
    obtain ⟨ts', hss, hts⟩ := (ih trivial).stopped hb rest'
    exact ⟨_, .block ha hss hb, hts.consKind ha, trivial⟩
  | @wordConstructor sort _ _ _ _ _ _ hc hm _ _ ih ih' =>
    intro rest' hr
    obtain ⟨ts', mid', hspecifier, hresult, hts⟩ :=
      (ih sort.isDelimiters).pair (ih' trivial) hr
    exact ⟨_, .wordConstructor hc hm hspecifier hresult,
      hts.consKind hm (by cases sort <;> decide), trivial⟩
  | @unmarkedConstructor sort _ _ _ _ _ ho hs _ ih ih' =>
    exact exchanges_unmarkedConstructor hp ho hs (ih sort.isDelimiters) (ih' trivial)
  | @markedConstructor sort _ _ _ _ _ _ ho hm hs _ ih ih' =>
    exact exchanges_markedConstructor hp ho hm hs (ih sort.isDelimiters) (ih' trivial)
  | @literal t _ hlit =>
    have hbracket : (kind t).isBracket = false := (hp.literals hlit).1
    have hword : kind t ≠ .whileKw := ne_whileKw_of_contains hl.literals hlit
    refine exchanges_atom hword ?_ ?_ fun _ => .literal hlit
    · intro hk
      rw [hk] at hbracket
      contradiction
    · intro hk
      rw [hk] at hbracket
      contradiction
  | identifier hlit hk =>
    exact exchanges_atom (by rw [hk]; decide) (by rw [hk]; decide) (by rw [hk]; decide)
      fun _ => .identifier hlit hk
  | paren hlit h ih =>
    exact exchanges_group hp.toProper (.inl ⟨rfl, rfl⟩) h
      (fun hts h => .paren (hts.kindAt_zero ▸ hlit) h) (ih paren)
  | bracket hlit h ih =>
    exact exchanges_group hp.toProper (.inr ⟨rfl, rfl⟩) h
      (fun hts h => .bracket (hts.kindAt_zero ▸ hlit) h) (ih bracket)
  | suffixesEnd hn =>
    exact Category.exchanges_nothing fun hts => .suffixesEnd (hts.kindAt_zero ▸ hn)
  | call _ _ ih ih' =>
    intro rest' hr
    obtain ⟨ts', mid', harguments, hothers, hts⟩ := (ih paren).pair (ih' trivial) hr
    exact ⟨ts', .call harguments hothers, hts, trivial⟩
  | index _ _ ih ih' =>
    intro rest' hr
    obtain ⟨ts', mid', harguments, hothers, hts⟩ := (ih bracket).pair (ih' trivial) hr
    exact ⟨ts', .index harguments hothers, hts, trivial⟩
  | member hd hn _ ih =>
    intro rest' hr
    obtain ⟨ts', hothers, hts⟩ := (ih trivial).alike (hr.resolve_left id)
    exact ⟨_, .member hd hn hothers, (hts.consKind hn).consKind hd, trivial⟩
  | caret hc hcaret _ ih => exact (ih trivial).front hc fun _ _ h => .caret hc hcaret h
  | value _ _ ih ih' =>
    intro rest' hr
    obtain ⟨mid', hsuffixes, hmid⟩ := (ih' trivial).alike (hr.resolve_left id)
    obtain ⟨ts', hprimary, hts, hopens⟩ := ih trivial mid' (.inr hmid.resembles)
    exact ⟨ts', .value hprimary hsuffixes, hts.trans hmid, hopens⟩
  | @prefixOperand o _ _ _ ho _ ih =>
    have hword : kind o ≠ .whileKw := ne_whileKw_of_contains hl.prefixes ho
    exact (ih trivial).front rfl (fun _ _ h => .prefixOperand ho h) id hword
  | constructorOperand ho _ ih =>
    exact (ih trivial).map fun hts _ h => .constructorOperand (hts.kindAt_zero ▸ ho) h
  | valueOperand ho hc _ ih =>
    intro rest' hr
    obtain ⟨ts', hvalue, hts, hopens⟩ := ih trivial rest' (.inr (hr.resolve_left id))
    have hopens : opensConstructor rules ts' = _ := hopens
    exact ⟨ts', .valueOperand (hts.resembles.kindAt_zero ▸ ho) (hopens.trans hc) hvalue, hts,
      trivial⟩
  | layerOperand _ ih => exact (ih trivial).map fun _ _ h => .layerOperand h
  | layer _ _ ih ih' =>
    intro rest' hr
    obtain ⟨ts', mid', hfirst, hothers, hts⟩ := (ih trivial).pair (ih' trivial) hr
    exact ⟨ts', .layer hfirst hothers, hts, trivial⟩
  | operationsEnd hn =>
    exact Category.exchanges_nothing fun hts => .operationsEnd (hts.kindAt_zero ▸ hn)
  | operation ho _ _ ih ih' =>
    intro rest' hr
    obtain ⟨ts', mid', hoperand, hothers, hts⟩ := (ih trivial).pair (ih' trivial) hr
    exact ⟨_, .operation ho hoperand hothers, hts.consOf (layerOperators_ne_whileKw ho), trivial⟩
  | implicationEnd _ hn ih =>
    exact (ih trivial).map fun _ hrest h => .implicationEnd h (hrest.kindAt_zero ▸ hn)
  | @implication _ _ _ _ _ o _ ho _ ih ih' =>
    intro rest' hr
    have hword : kind o ≠ .whileKw := ne_whileKw_of_contains hl.implications ho
    obtain ⟨ts', mid', hleft, hright, hts⟩ := (ih trivial).separated hword (ih' trivial) hr
    exact ⟨ts', .implication hleft ho hright, hts, trivial⟩
  | assignmentEnd _ hn ih =>
    exact (ih trivial).map fun _ hrest h => .assignmentEnd h (hrest.kindAt_zero ▸ hn)
  | assignment _ ho _ ih ih' =>
    intro rest' hr
    obtain ⟨ts', mid', hleft, hright, hts⟩ :=
      (ih trivial).separated (by rw [ho]; decide) (ih' trivial) hr
    exact ⟨ts', .assignment hleft ho hright, hts, trivial⟩
  | conditional hk _ _ hn ih ih' =>
    intro rest' hr
    have hrest : Resembles _ rest' := hr.resolve_left id
    obtain ⟨ts', mid', hcondition, hbody, hts⟩ := (ih paren).pair (ih' trivial) (.inr hrest)
    exact ⟨_, .conditional hk hcondition hbody (hrest.kindAt_zero ▸ hn), hts.consKind hk, trivial⟩
  | choice hk _ _ he _ ih ih' ih'' =>
    intro rest' hr
    obtain ⟨mid₁, mid₂, hbody, halternative, hmid⟩ :=
      (ih' trivial).separated (by rw [he]; decide) (ih'' trivial) hr
    obtain ⟨ts', hcondition, hts⟩ := (ih paren).alike hmid.resembles
    exact ⟨_, .choice hk hcondition hbody he halternative, (hts.trans hmid).consKind hk, trivial⟩
  | furtherChoice hk _ ih =>
    exact (ih trivial).map fun hts _ h => .furtherChoice (hts.kindAt_zero.trans hk) h
  | lastChoice hk _ ih =>
    exact (ih trivial).map fun hts _ h => .lastChoice (hts.kindAt_zero ▸ hk) h
  | branch _ ha _ ih ih' =>
    intro rest' _
    obtain ⟨ts', mid', hpattern, hbody, hts⟩ :=
      (ih trivial).separated (by rw [ha]; decide) (ih' trivial) (.inl trivial)
    exact ⟨ts', .branch hpattern ha hbody, hts, trivial⟩
  | conditionalControl hk _ ih =>
    exact (ih trivial).map fun hts _ h => .conditionalControl (hts.kindAt_zero.trans hk) h
  | caseDistinction hk _ _ ih ih' =>
    intro rest' hr
    obtain ⟨ts', mid', hsubject, hbranches, hts⟩ := (ih paren).pair (ih' trivial) hr
    exact ⟨_, .caseDistinction hk hsubject hbranches, hts.consKind hk, trivial⟩
  | loop hk hc hb ih ih' => exact exchanges_loop hp.toProper hk hc hb (ih paren) (ih' trivial)
  | doBlock hk _ hn ih =>
    refine (ih trivial).front hk fun _ hrest h => .doBlock hk h fun hword => ?_
    have hword : kindAt _ 0 = .whileKw := hrest.kindAt_zero ▸ hword
    exact (hrest.startsLoop_eq hword).trans (hn hword)
  | doWhile hk _ hw hloop hc ih ih' =>
    exact exchanges_doWhile hp.toProper hk hw hloop hc (ih trivial) (ih' paren)
  | captures hk _ _ ih ih' =>
    intro rest' _
    obtain ⟨ts', mid', hcaptures, hparameters, hts⟩ :=
      (ih bracket).pair (ih' paren) (.inl trivial)
    exact ⟨ts', .captures (hts.resembles.kindAt_zero.trans hk) hcaptures hparameters, hts, trivial⟩
  | noCaptures hk _ ih =>
    exact (ih paren).map fun hts _ h => .noCaptures (hts.kindAt_zero ▸ hk) h
  | functionValue hk _ _ ih ih' =>
    intro rest' _
    obtain ⟨ts', mid', hhead, hbody, hts⟩ := (ih trivial).pair (ih' trivial) (.inl trivial)
    exact ⟨_, .functionValue hk hhead hbody, hts.consKind hk, trivial⟩
  | blockScope hk _ ih =>
    exact (ih trivial).map fun hts _ h => .blockScope (hts.kindAt_zero.trans hk) h
  | expressionScope hk _ ih =>
    exact (ih trivial).map fun hts _ h => .expressionScope (hts.kindAt_zero ▸ hk) h
  | localBinding hk _ _ ih ih' =>
    intro rest' hr
    obtain ⟨ts', mid', hbindings, hscope, hts⟩ := (ih paren).pair (ih' trivial) hr
    exact ⟨_, .localBinding hk hbindings hscope, hts.consKind hk, trivial⟩
  | controlExpression ho _ ih =>
    exact (ih trivial).map fun hts _ h =>
      .controlExpression ((opensControl_congr hts.kindAt_zero).trans ho) h
  | assignmentExpression ho _ ih =>
    exact (ih trivial).map fun hts _ h =>
      .assignmentExpression ((opensControl_congr hts.kindAt_zero).trans ho) h
  | typedOnly _ hs ih =>
    intro rest' _
    obtain ⟨ts', htype, hts⟩ := (ih trivial).stopped hs rest'
    exact ⟨ts', .typedOnly htype hs, hts, trivial⟩
  | definedBlock _ _ ih ih' =>
    intro rest' _
    obtain ⟨ts', mid', htype, hbody, hts⟩ := (ih trivial).pair (ih' trivial) (.inl trivial)
    exact ⟨ts', .definedBlock htype hbody, hts, trivial⟩
  | definedValue _ he _ hs ih ih' =>
    intro rest' _
    obtain ⟨mid', hvalue, hmid⟩ := (ih' trivial).stopped hs rest'
    have hmid := hmid.consKind he
    obtain ⟨ts', htype, hts⟩ := (ih trivial).alike hmid.resembles
    exact ⟨ts', .definedValue htype he hvalue hs, hts.trans hmid, trivial⟩
  | introduced hi _ _ ih ih' =>
    intro rest' _
    obtain ⟨ts', mid', hvalues, hdefined, hts⟩ := (ih trivial).pair (ih' trivial) (.inl trivial)
    exact ⟨_, .introduced hi hvalues hdefined, hts.consKind hi, trivial⟩
  | unintroduced hi _ _ ih ih' =>
    intro rest' _
    obtain ⟨ts', mid', hnames, hdefined, hts⟩ := (ih trivial).pair (ih' trivial) (.inl trivial)
    exact ⟨ts', .unintroduced (hts.resembles.kindAt_zero ▸ hi) hnames hdefined, hts, trivial⟩
  | definitionStatement ho _ ih =>
    exact (ih trivial).map fun hts _ h =>
      .definitionStatement (hts.opensDeclaration_eq.trans ho) h
  | controlStatement hd ho _ hr ih =>
    exact (ih trivial).map fun hts hrest h =>
      .controlStatement (hts.opensDeclaration_eq.trans hd)
        ((opensControl_congr hts.kindAt_zero).trans ho) h (hrest.kindAt_zero ▸ hr)
  | terminatedControl hd ho _ hs ih =>
    intro rest' _
    obtain ⟨ts', hcontrol, hts⟩ := (ih trivial).stopped hs rest'
    have hts' := hts.resembles
    exact ⟨ts', .terminatedControl (hts'.opensDeclaration_eq.trans hd)
      ((opensControl_congr hts'.kindAt_zero).trans ho) hcontrol hs, hts, trivial⟩
  | expressionStatement hd ho _ hs ih =>
    intro rest' _
    obtain ⟨ts', hvalue, hts⟩ := (ih trivial).stopped hs rest'
    have hts' := hts.resembles
    exact ⟨ts', .expressionStatement (hts'.opensDeclaration_eq.trans hd)
      ((opensControl_congr hts'.kindAt_zero).trans ho) hvalue hs, hts, trivial⟩
  | noDeclarations hn =>
    exact Category.exchanges_nothing fun hts => .noDeclarations (hts.kindAt_zero.trans hn)
  | declarations ho _ _ ih ih' =>
    intro rest' hr
    obtain ⟨ts', mid', hfirst, hothers, hts⟩ := (ih trivial).pair (ih' trivial) hr
    exact ⟨ts', .declarations (hts.resembles.opensDeclaration_eq.trans ho) hfirst hothers, hts,
      trivial⟩

/-- A definition is read again whatever follows it, and a declaration begins with it. -/
theorem Reading.exists_front (hp : rules.Printable) (hl : rules.Loopless) {ts rest : List τ}
    {d : Tree τ} (h : Reading rules .definition ts d rest) (ho : opensDeclaration ts = true) :
    ∃ used, ts = used ++ rest ∧ ∀ rest', opensDeclaration (used ++ rest') = true ∧
      Reading rules .definition (used ++ rest') d rest' := by
  obtain ⟨used, rfl, -⟩ : KeepsTo ts _ rest := h.ordered
  refine ⟨used, rfl, fun rest' => ?_⟩
  obtain ⟨ts', hread, hts⟩ := (h.exchanges hp hl trivial).closed trivial rest'
  obtain ⟨used', hused, rfl⟩ := hts.front
  obtain rfl : used = used' := List.append_cancel_right hused
  exact ⟨hts.resembles.opensDeclaration_eq.trans ho, hread⟩

end ConcreteSyntax
