import ConcreteSyntax.Proofs.ParserOutcomes

/-!
# Failures of token parsers

Where the parsers of the toolkit fail. A sequence fails in its first part, or in its second
part behind what the first one read. Parsers that only look for a token never fail, and a
repetition fails in one of its turns.
-/

namespace ConcreteSyntax

namespace TokenParser

variable {τ α β : Type}

/-- A sequence fails in one of its parts. -/
theorem bind_eq_failed {p : TokenParser τ α} {f : α → TokenParser τ β} {ts rest : List τ}
    {e : Failure τ} (h : (p >>= f) ts = .failed e rest) :
    p ts = .failed e rest ∨ ∃ a mid, p ts = .done a mid ∧ f a mid = .failed e rest := by
  rw [bind_apply] at h
  cases hp : p ts with
  | failed e' rest' =>
    rw [hp] at h
    cases h
    exact .inl rfl
  | done a mid =>
    rw [hp] at h
    exact .inr ⟨a, mid, rfl, h⟩

/-- Yielding a value does not fail. -/
theorem pure_ne_failed {a : α} {ts rest : List τ} {e : Failure τ} :
    (pure a : TokenParser τ α) ts ≠ .failed e rest := by
  rintro ⟨⟩

/-- Failing leaves all tokens. -/
theorem fail_eq_failed {ts rest : List τ} {e : Expectation} {e' : Failure τ}
    (h : (fail e : TokenParser τ α) ts = .failed e' rest) : rest = ts := by
  cases h
  rfl

/-- Changing the value does not fail, so the first part does. -/
theorem map_eq_failed {p : TokenParser τ α} {f : α → β} {ts rest : List τ} {e : Failure τ}
    (h : (do return f (← p) : TokenParser τ β) ts = .failed e rest) : p ts = .failed e rest := by
  rcases bind_eq_failed h with h | ⟨_, _, -, h⟩
  · exact h
  · exact absurd h pure_ne_failed

/-- A repetition fails in its first turn or in a later one. -/
theorem Repeats.many_eq_failed {p : TokenParser τ (Option α)} (hp : p.Repeats)
    {ts rest : List τ} {e : Failure τ} (h : many p ts = .failed e rest) :
    p ts = .failed e rest ∨ ∃ a mid, p ts = .done (some a) mid ∧ many p mid = .failed e rest := by
  rw [hp.many_eq] at h
  cases hts : p ts with
  | failed e' rest' =>
    rw [hts] at h
    cases h
    exact .inl rfl
  | done a mid =>
    rw [hts] at h
    cases a with
    | none => cases h
    | some a =>
      refine .inr ⟨a, mid, rfl, ?_⟩
      cases hm : many p mid with
      | failed e' rest' =>
        simp only [hm] at h
        exact h
      | done as rest' =>
        simp only [hm] at h
        cases h

variable [HasKind τ]

/-- Looking for a token does not fail. -/
theorem eat_ne_failed {k : TokenKind} {ts rest : List τ} {e : Failure τ} :
    (eat k : TokenParser τ (Option τ)) ts ≠ .failed e rest := by
  cases ts with
  | nil => rintro ⟨⟩
  | cons t ts =>
    simp only [eat]
    split <;> rintro ⟨⟩

/-- Looking for a token of a set does not fail. -/
theorem eatAny_ne_failed {s : KindSet} {ts rest : List τ} {e : Failure τ} :
    (eatAny s : TokenParser τ (Option τ)) ts ≠ .failed e rest := by
  cases ts with
  | nil => rintro ⟨⟩
  | cons t ts =>
    simp only [eatAny]
    split <;> rintro ⟨⟩

/-- Where an expected token is missing, it is missed with the token ahead, and nothing is read. -/
theorem failure_of_expect {k : TokenKind} {ts rest : List τ} {e : Failure τ}
    (h : (expect k : TokenParser τ τ) ts = .failed e rest) :
    e = ⟨.token k, ts.head?⟩ ∧ rest = ts := by
  cases ts with
  | nil =>
    cases h
    exact ⟨rfl, rfl⟩
  | cons t ts =>
    simp only [expect] at h
    split at h
    · cases h
    · cases h
      exact ⟨rfl, rfl⟩

/-- An expected token is missing where another one comes next. -/
theorem expect_eq_failed {k : TokenKind} {ts rest : List τ} {e : Failure τ}
    (h : (expect k : TokenParser τ τ) ts = .failed e rest) (hk : k ≠ .eof) :
    rest = ts ∧ kindAt ts 0 ≠ k := by
  refine ⟨(failure_of_expect h).2, fun hkind => ?_⟩
  cases ts with
  | nil => exact hk hkind.symm
  | cons t ts =>
    have hdone : expect k (t :: ts) = .done t ts := if_pos hkind
    rw [hdone] at h
    cases h

/-- A part fails where the token that replaces it does not come next. -/
theorem unlessNext_eq_failed {k : TokenKind} {p : TokenParser τ α} {ts rest : List τ}
    {e : Failure τ} (h : unlessNext k p ts = .failed e rest) :
    kindAt ts 0 ≠ k ∧ p ts = .failed e rest := by
  rcases bind_eq_failed h with h | ⟨next, mid, hnext, h⟩
  · cases h
  · obtain ⟨rfl, rfl⟩ := peek_eq_done.1 hnext
    split at h
    · exact absurd h pure_ne_failed
    · exact ⟨‹_›, map_eq_failed h⟩

/-- A part behind a mark fails behind the mark. -/
theorem behind_eq_failed {k : TokenKind} {p : TokenParser τ α} {ts rest : List τ}
    {e : Failure τ} (h : behind k p ts = .failed e rest) :
    ∃ t mid, ts = t :: mid ∧ kind t = k ∧ p mid = .failed e rest := by
  rcases bind_eq_failed h with h₁ | ⟨mark, mid, hmark, h₁⟩
  · exact absurd h₁ eat_ne_failed
  · cases mark with
    | none => exact absurd h₁ pure_ne_failed
    | some t =>
      obtain ⟨rfl, hk⟩ := eat_eq_some.1 hmark
      exact ⟨t, mid, rfl, hk, map_eq_failed h₁⟩

/-- A sequence of values fails in its first value or behind a separator. -/
theorem separatedBy_eq_failed {k : TokenKind} {p : TokenParser τ α} (hp : p.Trims)
    {ts rest : List τ} {e : Failure τ} (h : separatedBy k p ts = .failed e rest) :
    p ts = .failed e rest ∨ ∃ a s mid, p ts = .done a (s :: mid) ∧ kind s = k ∧
      separatedBy k p mid = .failed e rest := by
  rcases bind_eq_failed h with h₁ | ⟨a, mid, ha, h₁⟩
  · exact .inl h₁
  have hmany : many (behind k p) mid = .failed e rest := by
    rcases bind_eq_failed h₁ with h₂ | ⟨_, _, -, h₂⟩
    · exact h₂
    · exact absurd h₂ pure_ne_failed
  refine .inr ?_
  rcases (hp.repeats_behind k).many_eq_failed hmany with h₂ | ⟨b, mid', hb, h₂⟩
  · obtain ⟨s, mid, rfl, hs, h₃⟩ := behind_eq_failed h₂
    refine ⟨a, s, mid, ha, hs, ?_⟩
    rw [separatedBy, bind_apply, h₃]
  · obtain ⟨s, mid, rfl, hs, hb⟩ := behind_eq_some.1 hb
    refine ⟨a, s, mid, ha, hs, ?_⟩
    rw [separatedBy, bind_apply, hb]
    simp only [bind_apply, h₂]

end TokenParser

end ConcreteSyntax
