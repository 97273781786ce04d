import ConcreteSyntax.Proofs.FirstTokens

/-!
# Where phrases may end

A phrase that has been read may be followed by other tokens than before. It stays a phrase of
its own in front of tokens that begin alike, and in front of tokens that end every phrase: a
semicolon, a closer, or the arrow of a branch with a block behind it. Nothing else is asked of
the new tokens, so they need not resemble the old ones any further.
-/

namespace ConcreteSyntax

open TokenParser Grammar

variable {τ : Type} [HasKind τ] {rules : Rules}

/-! ## Fronts of tokens -/

/-- That tokens have the front of others: both have the same tokens before their rests. -/
def SameFront (ts rest ts' rest' : List τ) : Prop :=
  ∃ used, ts = used ++ rest ∧ ts' = used ++ rest'

namespace SameFront

variable {ts mid rest ts' mid' rest' : List τ}

omit [HasKind τ]

/-- The front may be empty. -/
theorem refl (rest rest' : List τ) : SameFront rest rest rest' rest' := ⟨[], rfl, rfl⟩

/-- Fronts may be joined. -/
theorem trans (h : SameFront ts mid ts' mid') (h' : SameFront mid rest mid' rest') :
    SameFront ts rest ts' rest' := by
  obtain ⟨used, rfl, rfl⟩ := h
  obtain ⟨used', rfl, rfl⟩ := h'
  exact ⟨used ++ used', (List.append_assoc ..).symm, (List.append_assoc ..).symm⟩

/-- A token belongs to the front. -/
theorem cons (t : τ) (h : SameFront ts rest ts' rest') :
    SameFront (t :: ts) rest (t :: ts') rest' := by
  obtain ⟨used, rfl, rfl⟩ := h
  exact ⟨t :: used, rfl, rfl⟩

/-- A single token is a front. -/
theorem token (t : τ) (rest rest' : List τ) : SameFront (t :: rest) rest (t :: rest') rest' :=
  (refl rest rest').cons t

variable [HasKind τ]

/-- The front is empty, or the next tokens are of the same kind. -/
theorem cases (h : SameFront ts rest ts' rest') :
    ts = rest ∧ ts' = rest' ∨ rest.length < ts.length ∧ kindAt ts' 0 = kindAt ts 0 := by
  obtain ⟨used, rfl, rfl⟩ := h
  cases used with
  | nil => exact .inl ⟨rfl, rfl⟩
  | cons t used =>
    refine .inr ⟨?_, rfl⟩
    simp only [List.cons_append, List.length_cons, List.length_append]
    omega

/-- Where the front is not empty, the next tokens are of the same kind. -/
theorem kindAt_zero (h : SameFront ts rest ts' rest') (hl : rest.length < ts.length) :
    kindAt ts' 0 = kindAt ts 0 := by
  obtain ⟨rfl, -⟩ | ⟨-, hk⟩ := h.cases
  · exact absurd hl (Nat.lt_irrefl _)
  · exact hk

/-- Where some tokens belong to the front, the next tokens are of the same kind. -/
theorem kindAt_of_ne (h : SameFront ts rest ts' rest') (hne : ts ≠ rest) :
    kindAt ts' 0 = kindAt ts 0 :=
  h.cases.elim (fun hempty => absurd hempty.1 hne) And.right

end SameFront

/-- What is read again with the same front begins with a token of the same kind. -/
theorem Reading.kindAt_of_front {c : Category τ} {ts rest ts' rest' : List τ} {v : c.Result}
    (h : Reading rules c ts v rest) (hts : SameFront ts rest ts' rest')
    (hc : c.taken = 1) : kindAt ts' 0 = kindAt ts 0 :=
  hts.kindAt_zero (by have := h.taken_le; omega)

/-! ## Tokens before which phrases end -/

/-- The kinds before which phrases end. -/
def endings : KindSet := stoppers.union (.ofList [.fatArrow])

/-- That every phrase ends before some tokens: a stopper comes next, or the arrow of a branch
with a block behind it. -/
def Concludes (rules : Rules) (rest : List τ) : Prop :=
  stoppers.contains (kindAt rest 0) = true ∨ kindAt rest 0 = .fatArrow ∧
    kindAt rest 1 = .leftBrace ∧ rules.implicationOperators.contains .fatArrow = false

namespace Concludes

variable {rest : List τ}

/-- A stopper ends every phrase. -/
theorem of_stopper {k : TokenKind} (hr : kindAt rest 0 = k)
    (hk : stoppers.contains k = true) : Concludes rules rest :=
  .inl (hr ▸ hk)

/-- A token that is a stopper ends every phrase. -/
theorem of_token {t : τ} {k : TokenKind} (ht : kind t = k) (ts : List τ)
    (hk : stoppers.contains k = true) : Concludes rules (t :: ts) :=
  of_stopper (k := k) ht hk

/-- The arrow of a branch ends every phrase in front of a block. -/
theorem of_branch {a : τ} {ts : List τ} (ha : kind a = .fatArrow) (hts : kindAt ts 0 = .leftBrace)
    (harrow : rules.implicationOperators.contains .fatArrow = false) :
    Concludes rules (a :: ts) :=
  .inr ⟨ha, hts, harrow⟩

/-- The kind of the next token ends phrases. -/
theorem contains (h : Concludes rules rest) : endings.contains (kindAt rest 0) = true := by
  rw [endings, KindSet.contains_union, Bool.or_eq_true]
  refine h.imp_right ?_
  rintro ⟨hk, -⟩
  rw [hk]
  decide

/-- What holds of the kinds that end phrases holds of the next token. -/
theorem forall_kind (h : Concludes rules rest) {p : TokenKind → Prop}
    (hp : ∀ k, endings.contains k = true → p k) : p (kindAt rest 0) :=
  hp _ h.contains

/-- The next token is of no other kind. -/
theorem kind_ne (h : Concludes rules rest) {k : TokenKind} (hk : endings.contains k = false) :
    kindAt rest 0 ≠ k := by
  rintro rfl
  rw [h.contains] at hk
  contradiction

/-- The next token continues no value. -/
theorem continuesValue_eq (h : Concludes rules rest) :
    continuesValue rules (kindAt rest 0) = false := by
  have hall : ∀ k, endings.contains k = true →
      k ≠ .leftParen ∧ k ≠ .leftBracket ∧ k ≠ .dot ∧ k ≠ .caret :=
    TokenKind.forall_of_all (p := fun k => endings.contains k = true →
      k ≠ .leftParen ∧ k ≠ .leftBracket ∧ k ≠ .dot ∧ k ≠ .caret) (by decide)
  obtain ⟨hparen, hbracket, hdot, hcaret⟩ := h.forall_kind hall
  simp [continuesValue, hparen, hbracket, hdot, hcaret]

/-- The next token is no operator of a layer. -/
theorem layerOperators_eq (h : Concludes rules rest) (n : Nat) :
    (layerOperators n).contains (kindAt rest 0) = false := by
  have hall : ∀ k, endings.contains k = true → operatorLevel? k = none :=
    TokenKind.forall_of_all (p := fun k => endings.contains k = true → operatorLevel? k = none)
      (by decide)
  refine Bool.eq_false_iff.2 fun ho => ?_
  have hlevel := (operatorLevel?_of_layer ho).2.2.2.2
  rw [h.forall_kind hall] at hlevel
  contradiction

/-- The next token is no arrow of an implication. -/
theorem implicationOperators_eq (hp : rules.Printable) (h : Concludes rules rest) :
    rules.implicationOperators.contains (kindAt rest 0) = false := by
  rcases h with h | ⟨hk, -, harrow⟩
  · refine Bool.eq_false_iff.2 fun ho => ?_
    rcases hp.arrows _ ho with hk | hk <;> (rw [hk] at h; exact absurd h (by decide))
  · rw [hk, harrow]

/-- The next token marks no names. -/
theorem marksNames_eq (h : Concludes rules rest) : marksNames rest = false := by
  have hcomma := h.kind_ne (k := .comma) (by decide)
  have hcolon := h.kind_ne (k := .colon) (by decide)
  have hmark := h.kind_ne (k := .isKw) (by decide)
  unfold marksNames
  split <;> first | contradiction | rfl

/-- No result of a constructor begins. -/
theorem beginsNoResult (he : rules.Extensible) (h : Concludes rules rest) :
    BeginsNoResult rules rest where
  thinArrow := h.kind_ne (by decide)
  first := by
    have hall : ∀ k, endings.contains k = true → nonStarters.contains k = true :=
      TokenKind.forall_of_all (p := fun k => endings.contains k = true →
        nonStarters.contains k = true) (by decide)
    refine Bool.eq_false_iff.2 fun ho => ?_
    have hnon := (he.results _ ho).1
    rw [h.forall_kind hall] at hnon
    contradiction
  second := by
    intro hk
    rcases h with h | ⟨-, hbrace, -⟩
    · rw [hk] at h
      exact absurd h (by decide)
    · refine Bool.eq_false_iff.2 fun ho => ?_
      have hnon := (he.results _ ho).1
      rw [hbrace] at hnon
      exact absurd hnon (by decide)

end Concludes

/-- That tokens go on like others as far as the end of a phrase depends on that. -/
structure GoesOn (rules : Rules) (rest rest' : List τ) : Prop where
  /-- The next tokens are of the same kind. -/
  kind : kindAt rest' 0 = kindAt rest 0
  /-- The word of a loop still begins a loop. -/
  loop : kindAt rest 0 = .whileKw → startsLoop rest = true → startsLoop rest' = true
  /-- Behind the arrow of a branch the tokens are of the same kind. -/
  arrow : rules.constructors = .lookahead → kindAt rest 0 = .fatArrow →
    kindAt rest' 1 = kindAt rest 1
  /-- Behind a comma no definition begins where none did. -/
  comma : kindAt rest 0 = .comma → opensDefinition (rest'.drop 1) = true →
    opensDefinition (rest.drop 1) = true

/-- That tokens may follow a phrase that others followed: phrases end before them, or they go
on like the others. -/
def MayFollow (rules : Rules) (rest rest' : List τ) : Prop :=
  Concludes rules rest' ∨ GoesOn rules rest rest'

namespace MayFollow

variable {rest rest' : List τ}

/-- Tokens that begin with the same kind may follow, unless it is an arrow, a comma or the
word of a loop. -/
theorem of_kind {k : TokenKind} (hr : kindAt rest 0 = k) (hr' : kindAt rest' 0 = k)
    (hk : k ≠ .whileKw ∧ k ≠ .fatArrow ∧ k ≠ .comma) : MayFollow rules rest rest' :=
  .inr ⟨hr'.trans hr.symm, fun h => absurd (hr.symm.trans h) hk.1,
    fun _ h => absurd (hr.symm.trans h) hk.2.1, fun h => absurd (hr.symm.trans h) hk.2.2⟩

/-- Behind the same token all tokens may follow, unless it is an arrow, a comma or the word of
a loop. -/
theorem of_token {t : τ} {k : TokenKind} (ht : kind t = k) (ts ts' : List τ)
    (hk : k ≠ .whileKw ∧ k ≠ .fatArrow ∧ k ≠ .comma) :
    MayFollow rules (t :: ts) (t :: ts') :=
  of_kind (k := k) ht ht hk

/-- Behind the arrow of a branch all tokens of a kind may follow. -/
theorem of_branch {a : τ} {ts ts' : List τ} (ha : kind a = .fatArrow)
    (hk : kindAt ts' 0 = kindAt ts 0) : MayFollow rules (a :: ts) (a :: ts') :=
  .inr ⟨rfl, fun h => absurd (ha.symm.trans h) (by decide), fun _ _ => hk,
    fun h => absurd (ha.symm.trans h) (by decide)⟩

/-- A kind that does not come next and does not end phrases does not come next in the new
tokens either. -/
theorem kind_ne (h : MayFollow rules rest rest') {k : TokenKind} (hr : kindAt rest 0 ≠ k)
    (hk : endings.contains k = false) : kindAt rest' 0 ≠ k := by
  rcases h with h | h
  · exact h.kind_ne hk
  · exact h.kind ▸ hr

/-- A set of kinds is not met next in the new tokens if phrases end before them or if it is
not met in the old ones. -/
theorem eq_false {p : TokenKind → Bool} (h : MayFollow rules rest rest')
    (hp : p (kindAt rest 0) = false) (hends : Concludes rules rest' → p (kindAt rest' 0) = false) :
    p (kindAt rest' 0) = false := by
  rcases h with h | h
  · exact hends h
  · rw [h.kind, hp]

/-- The new tokens mark a name only if the old ones do. -/
theorem marksNames (h : MayFollow rules rest rest')
    (hm : ConcreteSyntax.marksNames rest' = true) : ConcreteSyntax.marksNames rest = true := by
  rcases h with h | h
  · rw [h.marksNames_eq] at hm
    contradiction
  · unfold ConcreteSyntax.marksNames at hm ⊢
    rw [h.kind] at hm
    split at hm
    · next hk => exact h.comma hk hm
    · rfl
    · rfl
    · contradiction

/-- The new tokens do not make an enclosure a constructor. -/
theorem keepsResults (he : rules.Extensible) (h : MayFollow rules rest rest') :
    KeepsResults rules rest rest' := by
  rcases h with h | h
  · exact .inl (h.beginsNoResult he)
  · exact .inr ⟨h.kind, h.arrow⟩

/-- Tokens that begin with the same operator of a layer may follow. -/
theorem of_layer {n : Nat} (ho : (layerOperators n).contains (kindAt rest 0) = true)
    (hk : kindAt rest' 0 = kindAt rest 0) : MayFollow rules rest rest' := by
  obtain ⟨-, -, -, -, hlevel⟩ := operatorLevel?_of_layer ho
  refine of_kind rfl hk ⟨?_, ?_, ?_⟩ <;>
    (intro hk; rw [hk] at hlevel; simp [operatorLevel?] at hlevel)

/-- Tokens that begin with the same arrow of an implication may follow. -/
theorem of_implication (he : rules.Extensible)
    (ho : rules.implicationOperators.contains (kindAt rest 0) = true)
    (hk : kindAt rest' 0 = kindAt rest 0) : MayFollow rules rest rest' := by
  have harrow := he.arrows _ ho
  refine .inr ⟨hk, fun hword => ?_, fun hc hfat => ?_, fun hcomma => ?_⟩
  · rcases harrow with h | h <;> (rw [hword] at h; contradiction)
  · rw [hfat, he.lookahead hc] at ho
    contradiction
  · rcases harrow with h | h <;> (rw [hcomma] at h; contradiction)

end MayFollow

end ConcreteSyntax
