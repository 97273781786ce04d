import ConcreteSyntax.TokenParsers

/-!
# Progress of parsers

A parser trims its input when the tokens that it leaves, on success and on failure,
are the end of the tokens that it was given. It consumes when it also reads a token
whenever it succeeds, and it advances when it reads a token whenever it yields
something. All three properties pass from the parts of a parser to the whole.
-/

namespace ConcreteSyntax

namespace TokenParser

variable {τ α β : Type}

/-- The tokens that a parser leaves are the end of those that it was given. -/
def Trims (p : TokenParser τ α) : Prop := ∀ ts, (p ts).rest <:+ ts

/-- A parser that trims, and reads a token whenever it succeeds. -/
structure Consumes (p : TokenParser τ α) : Prop where
  /-- Only tokens from the front are read. -/
  trims : p.Trims
  /-- Success leaves fewer tokens. -/
  shorter : ∀ {ts a rest}, p ts = .done a rest → rest.length < ts.length

/-- A parser that trims, and reads a token whenever it yields something. -/
structure Advances (p : TokenParser τ (Option α)) : Prop where
  /-- Only tokens from the front are read. -/
  trims : p.Trims
  /-- A yielded value leaves fewer tokens. -/
  shorter : ∀ {ts a rest}, p ts = .done (some a) rest → rest.length < ts.length

/-- A sequence of parsers hands the tokens left by the first one to the second. -/
theorem bind_apply (p : TokenParser τ α) (f : α → TokenParser τ β) (ts : List τ) :
    (p >>= f) ts = match p ts with
      | .done a rest => f a rest
      | .failed expected rest => .failed expected rest := rfl

/-- A sequence succeeds exactly when both parts do. -/
theorem bind_eq_done {p : TokenParser τ α} {f : α → TokenParser τ β} {ts rest : List τ} {b : β} :
    (p >>= f) ts = .done b rest ↔
      ∃ a mid, p ts = .done a mid ∧ f a mid = .done b rest := by
  rw [bind_apply]
  constructor
  · intro h
    cases hpt : p ts with
    | done a mid => rw [hpt] at h; exact ⟨a, mid, rfl, h⟩
    | failed e mid => rw [hpt] at h; cases h
  · rintro ⟨a, mid, hpt, hfa⟩
    rw [hpt]
    exact hfa

/-- A parser that trims leaves no more tokens than it was given. -/
theorem Trims.length_le {p : TokenParser τ α} (hp : p.Trims) {ts rest : List τ} {a : α}
    (h : p ts = .done a rest) : rest.length ≤ ts.length := by
  have hs := hp ts
  rw [h] at hs
  exact hs.length_le

/-- A parser that reads nothing trims. -/
theorem trims_pure (a : α) : Trims (pure a : TokenParser τ α) := fun ts => List.suffix_refl ts

/-- Failing reads nothing. -/
theorem trims_fail (e : Expectation) : Trims (fail e : TokenParser τ α) :=
  fun ts => List.suffix_refl ts

/-- Failing never succeeds, so it consumes. -/
theorem consumes_fail (e : Expectation) : Consumes (fail e : TokenParser τ α) :=
  ⟨trims_fail e, fun h => by cases h⟩

/-- Yielding nothing needs no token. -/
theorem advances_none : Advances (pure none : TokenParser τ (Option α)) :=
  ⟨trims_pure none, fun h => by cases h⟩

/-- Looking at the tokens ahead reads none. -/
theorem trims_ahead : Trims (ahead : TokenParser τ (List τ)) := fun ts => List.suffix_refl ts

/-- Whatever token comes next is read. -/
theorem advances_next? : Advances (next? : TokenParser τ (Option τ)) := by
  constructor
  · intro ts
    cases ts with
    | nil => exact List.suffix_refl _
    | cons t ts => exact List.suffix_cons t ts
  · intro ts a rest h
    cases ts with
    | nil => cases h
    | cons t ts => cases h; exact Nat.lt_succ_self _

/-- A sequence trims if both parts do. -/
theorem Trims.bind {p : TokenParser τ α} {f : α → TokenParser τ β} (hp : p.Trims)
    (hf : ∀ a, (f a).Trims) : (p >>= f).Trims := by
  intro ts
  have h := hp ts
  rw [bind_apply]
  cases hpt : p ts with
  | done a rest =>
    rw [hpt] at h
    exact (hf a rest).trans h
  | failed e rest =>
    rw [hpt] at h
    exact h

/-- A sequence consumes if its first part does. -/
theorem Consumes.bind {p : TokenParser τ α} {f : α → TokenParser τ β} (hp : p.Consumes)
    (hf : ∀ a, (f a).Trims) : (p >>= f).Consumes := by
  refine ⟨hp.trims.bind hf, ?_⟩
  intro ts b rest h
  obtain ⟨a, mid, hpt, hfa⟩ := bind_eq_done.1 h
  have hm := hp.shorter hpt
  have hl := (hf a).length_le hfa
  omega

/-- A sequence consumes if its second part does. -/
theorem Trims.bind_consumes {p : TokenParser τ α} {f : α → TokenParser τ β} (hp : p.Trims)
    (hf : ∀ a, (f a).Consumes) : (p >>= f).Consumes := by
  refine ⟨hp.bind fun a => (hf a).trims, ?_⟩
  intro ts b rest h
  obtain ⟨a, mid, hpt, hfa⟩ := bind_eq_done.1 h
  have hl := hp.length_le hpt
  have hm := (hf a).shorter hfa
  omega

/-- A sequence consumes if its first part advances, and its second part consumes
where the first one yields nothing. -/
theorem Advances.bind_consumes {p : TokenParser τ (Option α)} {f : Option α → TokenParser τ β}
    (hp : p.Advances) (hn : (f none).Consumes) (hs : ∀ a, (f (some a)).Trims) :
    (p >>= f).Consumes := by
  constructor
  · refine hp.trims.bind fun a => ?_
    cases a with
    | none => exact hn.trims
    | some a => exact hs a
  · intro ts b rest h
    obtain ⟨a, mid, hpt, hfa⟩ := bind_eq_done.1 h
    cases a with
    | none =>
      have hl := hp.trims.length_le hpt
      have hm := hn.shorter hfa
      omega
    | some a =>
      have hm := hp.shorter hpt
      have hl := (hs a).length_le hfa
      omega

/-- A sequence advances if its first part trims and its second part advances. -/
theorem Trims.bind_advances {p : TokenParser τ α} {f : α → TokenParser τ (Option β)}
    (hp : p.Trims) (hf : ∀ a, (f a).Advances) : (p >>= f).Advances := by
  refine ⟨hp.bind fun a => (hf a).trims, ?_⟩
  intro ts b rest h
  obtain ⟨a, mid, hpt, hfa⟩ := bind_eq_done.1 h
  have hl := hp.length_le hpt
  have hm := (hf a).shorter hfa
  omega

/-- A sequence advances if its first part consumes. -/
theorem Consumes.bind_advances {p : TokenParser τ α} {f : α → TokenParser τ (Option β)}
    (hp : p.Consumes) (hf : ∀ a, (f a).Trims) : (p >>= f).Advances :=
  ⟨hp.trims.bind hf, fun h => (hp.bind hf).shorter h⟩

/-- A sequence advances if its first part advances, and its second part advances
where the first one yields nothing. -/
theorem Advances.bind_advances {p : TokenParser τ (Option α)}
    {f : Option α → TokenParser τ (Option β)}
    (hp : p.Advances) (hn : (f none).Advances) (hs : ∀ a, (f (some a)).Trims) :
    (p >>= f).Advances := by
  constructor
  · refine hp.trims.bind fun a => ?_
    cases a with
    | none => exact hn.trims
    | some a => exact hs a
  · intro ts b rest h
    obtain ⟨a, mid, hpt, hfa⟩ := bind_eq_done.1 h
    cases a with
    | none =>
      have hl := hp.trims.length_le hpt
      have hm := hn.shorter hfa
      omega
    | some a =>
      have hm := hp.shorter hpt
      have hl := (hs a).length_le hfa
      omega

/-- What a consuming parser yields, it yields for at least one token. -/
theorem Consumes.map_some {p : TokenParser τ α} (hp : p.Consumes) (f : α → β) :
    ((fun a => some (f a)) <$> p).Advances :=
  hp.bind_advances fun _ => trims_pure _

/-- Repeating a parser that trims reads tokens from the front only. -/
theorem Trims.manyWithin {p : TokenParser τ (Option α)} (hp : p.Trims) (budget : List τ) :
    (manyWithin p budget).Trims := by
  induction budget with
  | nil => exact fun ts => List.suffix_refl ts
  | cons b budget ih =>
    intro ts
    have h := hp ts
    simp only [TokenParser.manyWithin]
    cases hpt : p ts with
    | failed e rest => rw [hpt] at h; exact h
    | done a rest =>
      rw [hpt] at h
      cases a with
      | none => exact h
      | some a =>
        have hr := ih rest
        simp only
        cases hm : TokenParser.manyWithin p budget rest with
        | failed e rest' => rw [hm] at hr; exact hr.trans h
        | done as rest' => rw [hm] at hr; exact hr.trans h

/-- Repetition within the tokens ahead reads tokens from the front only. -/
theorem Trims.many {p : TokenParser τ (Option α)} (hp : p.Trims) : (many p).Trims :=
  fun ts => hp.manyWithin ts ts

variable [HasKind τ]

/-- Looking at the kind of the next token reads none. -/
theorem trims_peek : Trims (peek : TokenParser τ TokenKind) := fun ts => List.suffix_refl ts

/-- A token of the given kinds is read if it is yielded. -/
theorem advances_eatAny (kinds : KindSet) : Advances (eatAny kinds : TokenParser τ (Option τ)) := by
  constructor
  · intro ts
    cases ts with
    | nil => exact List.suffix_refl _
    | cons t ts =>
      simp only [eatAny]
      split
      · exact List.suffix_cons t ts
      · exact List.suffix_refl _
  · intro ts a rest h
    cases ts with
    | nil => cases h
    | cons t ts =>
      simp only [eatAny] at h
      split at h
      · cases h; exact Nat.lt_succ_self _
      · cases h

/-- A token of the given kind is read if it is yielded. -/
theorem advances_eat (k : TokenKind) : Advances (eat k : TokenParser τ (Option τ)) := by
  constructor
  · intro ts
    cases ts with
    | nil => exact List.suffix_refl _
    | cons t ts =>
      simp only [eat]
      split
      · exact List.suffix_cons t ts
      · exact List.suffix_refl _
  · intro ts a rest h
    cases ts with
    | nil => cases h
    | cons t ts =>
      simp only [eat] at h
      split at h
      · cases h; exact Nat.lt_succ_self _
      · cases h

/-- An expected token is read. -/
theorem consumes_expect (k : TokenKind) : Consumes (expect k : TokenParser τ τ) := by
  constructor
  · intro ts
    cases ts with
    | nil => exact List.suffix_refl _
    | cons t ts =>
      simp only [expect]
      split
      · exact List.suffix_cons t ts
      · exact List.suffix_refl _
  · intro ts a rest h
    cases ts with
    | nil => cases h
    | cons t ts =>
      simp only [expect] at h
      split at h
      · cases h; exact Nat.lt_succ_self _
      · cases h

/-- A part that a token may replace is read if it is yielded. -/
theorem Consumes.unlessNext {p : TokenParser τ α} (hp : p.Consumes) (k : TokenKind) :
    (unlessNext k p).Advances := by
  refine trims_peek.bind_advances fun next => ?_
  split
  · exact advances_none
  · exact hp.map_some id

/-- A part behind a mark is yielded for the mark at least. -/
theorem Trims.behind {p : TokenParser τ α} (hp : p.Trims) (k : TokenKind) :
    (behind k p).Advances := by
  refine (advances_eat k).bind_advances advances_none fun mark => ?_
  exact hp.bind fun _ => trims_pure _

/-- Values with separators between them are read from the front, at least one token
if each value takes one. -/
theorem Consumes.separatedBy {p : TokenParser τ α} (hp : p.Consumes) (separator : TokenKind) :
    (separatedBy separator p).Consumes :=
  hp.bind fun _ => (hp.trims.behind separator).trims.many.bind fun _ => trims_pure _

end TokenParser

end ConcreteSyntax
