import ConcreteSyntax.Proofs.FollowingTokens

/-!
# Recognising constructors again

Whether tokens begin a constructor is decided by looking past an enclosure and into it.
The decision stays the same when the enclosure is written in another way, as long as it
begins alike inside and as what follows may replace what followed before.
-/

namespace ConcreteSyntax

open TokenParser Grammar

variable {τ : Type} [HasKind τ] {rules : Rules}

/-- Whether tokens begin with a colon, or with a name and a colon. -/
def opensNamed (ts : List τ) : Bool :=
  kindAt ts 0 == .colon || (kindAt ts 0 == .ident && kindAt ts 1 == .colon)

/-- That tokens inside delimiters begin like others at a place: both with a parameter or
neither. In a specifier a colon that was written stays, and elsewhere none is added. -/
structure OpensAlike (place : Tree.Place) (ts new : List τ) : Prop where
  /-- Both begin with a parameter, or neither does. -/
  parameter : opensParameter new = opensParameter ts
  /-- In a specifier a colon stays. -/
  specifier : place = .specifier → opensNamed ts = true → opensNamed new = true
  /-- Elsewhere no colon is added. -/
  plain : place = .plain → opensNamed new = true → opensNamed ts = true

/-- Tokens that are named begin a parameter. -/
theorem opensParameter_of_opensNamed {ts : List τ} (h : opensNamed ts = true) :
    opensParameter ts = true := by
  unfold opensNamed at h
  unfold opensParameter
  rw [Bool.or_eq_true] at h ⊢
  refine h.imp_right fun h => ?_
  rw [Bool.and_eq_true, beq_iff_eq, beq_iff_eq] at h
  obtain ⟨n, us, rfl, hn⟩ := exists_of_kindAt h.1 (by decide)
  rw [opensDefinition_cons, hn]
  obtain ⟨-, hm⟩ := h
  have hm : kindAt us 0 = .colon := hm
  simp [marksNames, hm]

/-- Tokens that begin no parameter are alike at every place. -/
theorem OpensAlike.of_not_parameter {place : Tree.Place} {ts new : List τ}
    (h : opensParameter ts = false) (h' : opensParameter new = false) :
    OpensAlike place ts new where
  parameter := h'.trans h.symm
  specifier _ hn := by rw [opensParameter_of_opensNamed hn] at h; contradiction
  plain _ hn := by rw [opensParameter_of_opensNamed hn] at h'; contradiction

/-- A parenthesis opens parameters when it is empty or when named tokens follow. -/
theorem Reading.opensParameters_eq {ts rest : List τ} {t : Tree τ}
    (h : Reading rules (.enclosed .leftParen .rightParen) ts t rest) :
    opensParameters ts = (t.isHollow || opensNamed (ts.drop 1)) := by
  have hkind : ∀ (a : τ) (us : List τ), opensParameters (a :: us) =
      (kindAt us 0 == .rightParen || opensNamed us) := by
    intro a us
    unfold opensParameters opensNamed
    simp only [kindAt_cons_succ]
    cases kindAt us 0 <;> rfl
  cases h with
  | emptyEnclosure _ hb => simp [hkind, hb, Tree.isHollow]
  | enclosure _ hn =>
    simp only [hkind, beq_eq_false_iff_ne.2 hn, Tree.isHollow, Bool.false_or,
      List.drop_succ_cons, List.drop_zero]

/-- Before a token that is no parenthesis and no bracket no constructor is seen ahead. -/
theorem constructorAhead?_eq_none {ts : List τ} (hp : kindAt ts 0 ≠ .leftParen)
    (hb : kindAt ts 0 ≠ .leftBracket) : constructorAhead? rules ts = none :=
  dif_neg (not_or.2 ⟨hp, hb⟩)

/-- Where no bracket comes first, whether a constructor begins is told by the first
token. -/
theorem opensConstructor_cons (t : τ) (hp : kind t ≠ .leftParen) (hb : kind t ≠ .leftBracket)
    (ts ts' : List τ) : opensConstructor rules (t :: ts) = opensConstructor rules (t :: ts') := by
  unfold opensConstructor
  cases rules.constructors with
  | lookahead =>
    have hnone : ∀ us : List τ, constructorAhead? rules (t :: us) = none :=
      fun us => constructorAhead?_eq_none hp hb
    simp only [hnone]
  | keyword => rfl
  | arrow => simp [beq_eq_false_iff_ne.2 hp]
  | parameter => simp [beq_eq_false_iff_ne.2 hp]
  | absent => rfl

/-- That tokens behind an enclosure begin no result of a constructor. -/
structure BeginsNoResult (rules : Rules) (mid : List τ) : Prop where
  /-- The arrow of functions does not come next. -/
  thinArrow : kindAt mid 0 ≠ .thinArrow
  /-- A token that begins a result does not come next. -/
  first : rules.operandStart.contains (kindAt mid 0) = false
  /-- A token that begins a result does not come behind the arrow of templates. -/
  second : kindAt mid 0 = .fatArrow → rules.operandStart.contains (kindAt mid 1) = false

/-- Where no result begins, an enclosure is no constructor. -/
theorem BeginsNoResult.constructorForm?_eq_none {mid : List τ} (h : BeginsNoResult rules mid)
    {opening : TokenKind} {hollow parameters : Bool} :
    constructorForm? rules opening hollow parameters (kindAt mid 0) (kindAt mid 1) = none := by
  obtain ⟨hthin, hfirst, hsecond⟩ := h
  unfold constructorForm?
  grind

/-- That tokens behind an enclosure do not make it a constructor where others do not: they
begin no result, or they begin like the others. -/
def KeepsResults (rules : Rules) (mid mid' : List τ) : Prop :=
  BeginsNoResult rules mid' ∨ kindAt mid' 0 = kindAt mid 0 ∧
    (rules.constructors = .lookahead → kindAt mid 0 = .fatArrow → kindAt mid' 1 = kindAt mid 1)

/-- Tokens that may replace others do not make an enclosure a constructor. -/
theorem MayReplace.keepsResults (hp : rules.Printable) {mid mid' : List τ}
    (h : MayReplace rules mid mid') : KeepsResults rules mid mid' := by
  rcases h with h | h
  · have hsemi : rules.operandStart.contains .semicolon = false :=
      Bool.eq_false_iff.2 fun hs => (hp.starts _ hs).1 rfl
    exact .inl ⟨by rw [h]; decide, by rw [h]; exact hsemi, fun hf => by rw [h] at hf; contradiction⟩
  · exact .inr ⟨h.kind, h.arrow⟩

/-- Parentheses and brackets are delimiters. -/
theorem IsGroupDelimiters.isDelimiters {opening closing : TokenKind}
    (h : IsGroupDelimiters opening closing) : IsDelimiters opening closing := by
  rcases h with ⟨rfl, rfl⟩ | ⟨rfl, rfl⟩ <;> (unfold IsDelimiters; decide)

section

variable {opening closing : TokenKind} {ts mid ts' mid' : List τ} {t : Tree τ}
  (h : Reading rules (.enclosed opening closing) ts t mid)
  (h' : Reading rules (.enclosed opening closing) ts' t mid')

include h h'

/-- An enclosure that begins no constructor begins none when it is written again. -/
theorem opensConstructor_again (hp : rules.Proper) (hdel : IsGroupDelimiters opening closing)
    (hk : kindAt ts' 0 = kindAt ts 0) (ha : OpensAlike .plain (ts.drop 1) (ts'.drop 1))
    (hm : KeepsResults rules mid mid') (hn : opensConstructor rules ts = false) :
    opensConstructor rules ts' = false := by
  unfold opensConstructor at hn ⊢
  cases hc : rules.constructors with
  | lookahead =>
    simp only [hc, h.constructorAhead?_eq hp hdel.isDelimiters,
      Option.isSome_eq_false_iff, Option.isNone_iff_eq_none] at hn
    simp only [h'.constructorAhead?_eq hp hdel.isDelimiters, hk, ha.parameter,
      Option.isSome_eq_false_iff, Option.isNone_iff_eq_none]
    rcases hm with hm | ⟨hm, harrow⟩
    · exact hm.constructorForm?_eq_none
    · have harrow := harrow hc
      rw [hm]
      unfold constructorForm? at hn ⊢
      grind
  | keyword => simpa only [hc, hk] using hn
  | arrow =>
    simp only [hc, h.bracketFollowedBy_eq hp hdel.isDelimiters] at hn
    simp only [hk, h'.bracketFollowedBy_eq hp hdel.isDelimiters]
    rcases hm with hm | ⟨hm, -⟩
    · rw [beq_eq_false_iff_ne.2 hm.thinArrow]
      simp_all
    · rw [hm]
      exact hn
  | parameter =>
    simp only [hc] at hn
    simp only [hk]
    rcases hdel with ⟨rfl, rfl⟩ | ⟨rfl, rfl⟩
    · rw [h.opensParameters_eq] at hn
      rw [h'.opensParameters_eq]
      have hplain := ha.plain rfl
      grind
    · have hopen : kindAt ts 0 = .leftBracket := by cases h <;> assumption
      simp [hopen] at hn
  | absent => rfl

end

/-- The place of a specifier: only those of functions keep all colons. -/
def ConstructorSort.place : ConstructorSort → Tree.Place
  | function => .specifier
  | array | template => .plain

/-- A specifier is not among branches. -/
theorem ConstructorSort.place_ne_branches (sort : ConstructorSort) : sort.place ≠ .branches := by
  cases sort <;> decide

/-- The delimiters of specifiers are parentheses and brackets. -/
theorem ConstructorSort.isGroupDelimiters (sort : ConstructorSort) :
    IsGroupDelimiters sort.opening sort.closing := by
  cases sort
  · exact .inr ⟨rfl, rfl⟩
  · exact .inl ⟨rfl, rfl⟩
  · exact .inr ⟨rfl, rfl⟩

/-- That the result of a constructor begins like another one, or at least with a token that
shows a result. -/
def BeginsResult (rules : Rules) (mid mid' : List τ) : Prop :=
  kindAt mid' 0 = kindAt mid 0 ∨
    rules.operandStart.contains (kindAt mid' 0) = true ∧ kindAt mid' 0 ≠ .thinArrow

/-- A constructor without a mark is recognised again. -/
theorem OpensUnmarked.again (hp : rules.Printable) {sort : ConstructorSort}
    {ts mid ts' mid' : List τ} {s : Tree τ} (ho : OpensUnmarked rules sort ts mid)
    (h : Reading rules (.enclosed sort.opening sort.closing) ts s mid)
    (h' : Reading rules (.enclosed sort.opening sort.closing) ts' s mid')
    (hk : kindAt ts' 0 = kindAt ts 0) (ha : OpensAlike sort.place (ts.drop 1) (ts'.drop 1))
    (hm : BeginsResult rules mid mid') : OpensUnmarked rules sort ts' mid' := by
  have hfat : rules.operandStart.contains .fatArrow = false :=
    Bool.eq_false_iff.2 fun hs => (hp.starts _ hs).2 rfl
  unfold OpensUnmarked at ho ⊢
  cases hc : rules.constructors with
  | lookahead =>
    simp only [hc, h.constructorAhead?_eq hp.toProper sort.isDelimiters] at ho
    simp only [h'.constructorAhead?_eq hp.toProper sort.isDelimiters, hk, ha.parameter]
    unfold BeginsResult at hm
    unfold constructorForm? at ho ⊢
    grind
  | keyword => simp only [hc] at ho
  | arrow =>
    simp only [hc] at ho
    obtain ⟨rfl, hopen, hmark⟩ := ho
    refine ⟨rfl, hk.trans hopen, ?_⟩
    rcases hm with hm | ⟨hm, -⟩
    · rwa [hm]
    · intro hfat'
      rw [hfat', hfat] at hm
      contradiction
  | parameter =>
    simp only [hc] at ho ⊢
    rw [hk]
    refine ho.imp_right ?_
    rintro ⟨rfl, hopen, hpar⟩
    refine ⟨rfl, hopen, ?_⟩
    rw [h.opensParameters_eq, Bool.or_eq_true] at hpar
    rw [h'.opensParameters_eq, Bool.or_eq_true]
    exact hpar.imp_right (ha.specifier rfl)
  | absent => simp only [hc] at ho

/-- A constructor with an arrow is recognised again. -/
theorem OpensMarked.again (hp : rules.Printable) {sort : ConstructorSort} {m : τ}
    {ts mid ts' mid' : List τ} {s : Tree τ} (ho : OpensMarked rules sort ts)
    (h : Reading rules (.enclosed sort.opening sort.closing) ts s (m :: mid))
    (h' : Reading rules (.enclosed sort.opening sort.closing) ts' s (m :: mid'))
    (hk : kindAt ts' 0 = kindAt ts 0) (ha : OpensAlike sort.place (ts.drop 1) (ts'.drop 1))
    (hm : BeginsResult rules mid mid') : OpensMarked rules sort ts' := by
  unfold OpensMarked at ho ⊢
  cases hc : rules.constructors with
  | lookahead =>
    simp only [hc, h.constructorAhead?_eq hp.toProper sort.isDelimiters, kindAt_cons_zero,
      kindAt_cons_succ] at ho
    simp only [h'.constructorAhead?_eq hp.toProper sort.isDelimiters, hk, ha.parameter,
      kindAt_cons_zero, kindAt_cons_succ]
    unfold BeginsResult at hm
    unfold constructorForm? at ho ⊢
    grind
  | keyword => simp only [hc] at ho
  | arrow =>
    simp only [hc, h.bracketFollowedBy_eq hp.toProper sort.isDelimiters] at ho
    simpa only [hk, h'.bracketFollowedBy_eq hp.toProper sort.isDelimiters, kindAt_cons_zero]
      using ho
  | parameter => simp only [hc] at ho
  | absent => simp only [hc] at ho

end ConcreteSyntax
