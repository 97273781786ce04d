import ConcreteSyntax.ParserProgress

/-!
# Outcomes of token parsers

When the parsers of the toolkit succeed, and with what. A repetition is described by
its recursion: it stops where its parser yields nothing, and otherwise goes on behind
the value that was yielded. For this its parser has to advance and to yield nothing
at the end of the tokens, and then the budget of the repetition is never used up.
-/

namespace ConcreteSyntax

namespace TokenParser

variable {τ α β : Type}

/-- Yielding a value succeeds with that value. -/
@[simp] theorem pure_apply (a : α) (ts : List τ) : (pure a : TokenParser τ α) ts = .done a ts := rfl

/-- Yielding a value leaves all tokens. -/
theorem pure_eq_done {a b : α} {ts rest : List τ} :
    (pure a : TokenParser τ α) ts = .done b rest ↔ a = b ∧ ts = rest := by
  rw [pure_apply, Outcome.done.injEq]

/-- Failing is no success. -/
theorem fail_ne_done {e : Expectation} {ts rest : List τ} {a : α} :
    (fail e : TokenParser τ α) ts ≠ .done a rest := by
  intro h
  cases h

/-- The tokens ahead are yielded as they are. -/
theorem ahead_eq_done {ts us rest : List τ} :
    (ahead : TokenParser τ (List τ)) ts = .done us rest ↔ us = ts ∧ rest = ts := by
  simp only [ahead, Outcome.done.injEq, eq_comm]

/-- A parser that may be repeated: it advances, and it yields nothing at the end. -/
structure Repeats (p : TokenParser τ (Option α)) : Prop where
  /-- Every value takes a token. -/
  advances : p.Advances
  /-- Nothing is yielded at the end of the tokens. -/
  atEnd : p [] = .done none []

namespace Repeats

variable {p : TokenParser τ (Option α)}

/-- All sufficient budgets of a repetition give the same outcome. -/
theorem manyWithin_eq (hp : p.Repeats) {budget budget' ts : List τ} (hb : ts.length ≤ budget.length)
    (hb' : ts.length ≤ budget'.length) : manyWithin p budget ts = manyWithin p budget' ts := by
  have atEnd : ∀ budget : List τ, manyWithin p budget [] = .done [] [] := by
    intro budget
    cases budget with
    | nil => rfl
    | cons b budget => simp only [manyWithin, hp.atEnd]
  induction budget generalizing budget' ts with
  | nil =>
    obtain rfl : ts = [] := List.eq_nil_of_length_eq_zero (by simpa using hb)
    rw [atEnd, atEnd]
  | cons b budget ih =>
    cases budget' with
    | nil =>
      obtain rfl : ts = [] := List.eq_nil_of_length_eq_zero (by simpa using hb')
      rw [atEnd, atEnd]
    | cons b' budget' =>
      simp only [manyWithin]
      cases hts : p ts with
      | failed e rest => rfl
      | done a rest =>
        cases a with
        | none => rfl
        | some a =>
          have hs := hp.advances.shorter hts
          simp only [List.length_cons] at hb hb'
          have hb : manyWithin p budget rest = manyWithin p budget' rest :=
            ih (by omega) (by omega)
          simp only [hb]

/-- A repetition runs its parser and goes on behind what it yields. -/
theorem many_eq (hp : p.Repeats) (ts : List τ) :
    many p ts = match p ts with
      | .failed expected rest => .failed expected rest
      | .done none rest => .done [] rest
      | .done (some a) rest =>
        match many p rest with
        | .failed expected rest => .failed expected rest
        | .done as rest => .done (a :: as) rest := by
  cases ts with
  | nil => simp only [many, manyWithin, hp.atEnd]
  | cons t ts =>
    simp only [many, manyWithin]
    cases hts : p (t :: ts) with
    | failed e rest => rfl
    | done a rest =>
      cases a with
      | none => rfl
      | some a =>
        have hs := hp.advances.shorter hts
        simp only [List.length_cons] at hs
        have hb : manyWithin p ts rest = manyWithin p rest rest :=
          hp.manyWithin_eq (by omega) (Nat.le_refl _)
        cases hothers : manyWithin p rest rest <;> simp only [hb, hothers]

/-- A repetition of nothing stops at once. -/
theorem many_eq_nil (hp : p.Repeats) {ts rest : List τ} :
    many p ts = .done [] rest ↔ p ts = .done none rest := by
  rw [hp.many_eq]
  cases p ts with
  | failed e mid => simp
  | done a mid =>
    cases a with
    | none => simp
    | some a => cases hm : many p mid <;> simp [hm]

/-- A repetition of something yields a first value and repeats. -/
theorem many_eq_cons (hp : p.Repeats) {ts rest : List τ} {a : α} {as : List α} :
    many p ts = .done (a :: as) rest ↔
      ∃ mid, p ts = .done (some a) mid ∧ many p mid = .done as rest := by
  rw [hp.many_eq]
  constructor
  · intro h
    cases hts : p ts with
    | failed e mid => simp [hts] at h
    | done b mid =>
      cases b with
      | none => simp [hts] at h
      | some b =>
        cases hm : many p mid with
        | failed e mid' => simp [hts, hm] at h
        | done bs mid' =>
          simp only [hts, hm, Outcome.done.injEq, List.cons.injEq] at h
          obtain ⟨⟨rfl, rfl⟩, rfl⟩ := h
          exact ⟨mid, rfl, hm⟩
  · rintro ⟨mid, ha, has⟩
    simp only [ha, has]

end Repeats

variable [HasKind τ]

/-- The kind of the next token is yielded, and no token is read. -/
theorem peek_eq_done {ts rest : List τ} {k : TokenKind} :
    (peek : TokenParser τ TokenKind) ts = .done k rest ↔ k = kindAt ts 0 ∧ rest = ts := by
  simp only [peek, Outcome.done.injEq, eq_comm]

/-- The kind of the first token. -/
@[simp] theorem kindAt_cons_zero (t : τ) (ts : List τ) : kindAt (t :: ts) 0 = kind t := rfl

/-- The kinds behind the first token. -/
@[simp] theorem kindAt_cons_succ (t : τ) (ts : List τ) (i : Nat) :
    kindAt (t :: ts) (i + 1) = kindAt ts i := rfl

/-- At the end there is the kind of the end of the text. -/
@[simp] theorem kindAt_nil (i : Nat) : kindAt ([] : List τ) i = .eof := rfl

/-- Tokens that begin with a kind other than the end of the text begin with a token. -/
theorem exists_of_kindAt {ts : List τ} {k : TokenKind} (h : kindAt ts 0 = k) (hk : k ≠ .eof) :
    ∃ t rest, ts = t :: rest ∧ kind t = k := by
  cases ts with
  | nil => exact absurd h.symm hk
  | cons t rest => exact ⟨t, rest, rfl, h⟩

/-- A token is read when it is of the given kind. -/
theorem eat_eq_some {k : TokenKind} {ts rest : List τ} {t : τ} :
    (eat k : TokenParser τ (Option τ)) ts = .done (some t) rest ↔ ts = t :: rest ∧ kind t = k := by
  cases ts with
  | nil => simp [eat]
  | cons u us => simp only [eat]; split <;> grind

/-- No token is read when the next one is not of the given kind. -/
theorem eat_eq_none {k : TokenKind} (hk : k ≠ .eof) {ts rest : List τ} :
    (eat k : TokenParser τ (Option τ)) ts = .done none rest ↔ rest = ts ∧ kindAt ts 0 ≠ k := by
  cases ts with
  | nil => simp [eat, hk.symm, eq_comm]
  | cons u us => simp only [eat]; split <;> grind [kindAt_cons_zero]

/-- A token is read when its kind belongs to the given set. -/
theorem eatAny_eq_some {s : KindSet} {ts rest : List τ} {t : τ} :
    (eatAny s : TokenParser τ (Option τ)) ts = .done (some t) rest ↔
      ts = t :: rest ∧ s.contains (kind t) = true := by
  cases ts with
  | nil => simp [eatAny]
  | cons u us => simp only [eatAny]; split <;> grind

/-- No token is read when the kind of the next one does not belong to the given set. -/
theorem eatAny_eq_none {s : KindSet} (hs : s.contains .eof = false) {ts rest : List τ} :
    (eatAny s : TokenParser τ (Option τ)) ts = .done none rest ↔
      rest = ts ∧ s.contains (kindAt ts 0) = false := by
  cases ts with
  | nil => simp [eatAny, hs, eq_comm]
  | cons u us => simp only [eatAny]; split <;> grind [kindAt_cons_zero]

/-- An expected token is read when it is of the given kind. -/
theorem expect_eq_done {k : TokenKind} {ts rest : List τ} {t : τ} :
    (expect k : TokenParser τ τ) ts = .done t rest ↔ ts = t :: rest ∧ kind t = k := by
  cases ts with
  | nil => simp [expect]
  | cons u us => simp only [expect]; split <;> grind

/-- A part is left out before a token of the given kind. -/
theorem unlessNext_eq_none {k : TokenKind} {p : TokenParser τ α} {ts rest : List τ} :
    unlessNext k p ts = .done none rest ↔ rest = ts ∧ kindAt ts 0 = k := by
  simp only [unlessNext, bind_eq_done, peek_eq_done]
  constructor
  · rintro ⟨_, _, ⟨rfl, rfl⟩, h⟩
    split at h
    · exact ⟨(pure_eq_done.1 h).2.symm, ‹_›⟩
    · obtain ⟨a, mid, -, h⟩ := bind_eq_done.1 h
      cases (pure_eq_done.1 h).1
  · rintro ⟨rfl, hk⟩
    exact ⟨_, _, ⟨rfl, rfl⟩, by rw [if_pos hk]; rfl⟩

/-- A part is read before a token of any other kind. -/
theorem unlessNext_eq_some {k : TokenKind} {p : TokenParser τ α} {ts rest : List τ} {a : α} :
    unlessNext k p ts = .done (some a) rest ↔ kindAt ts 0 ≠ k ∧ p ts = .done a rest := by
  simp only [unlessNext, bind_eq_done, peek_eq_done]
  constructor
  · rintro ⟨_, _, ⟨rfl, rfl⟩, h⟩
    split at h
    · cases (pure_eq_done.1 h).1
    · obtain ⟨b, mid, hb, h⟩ := bind_eq_done.1 h
      obtain ⟨hab, rfl⟩ := pure_eq_done.1 h
      cases hab
      exact ⟨‹_›, hb⟩
  · rintro ⟨hk, h⟩
    refine ⟨_, _, ⟨rfl, rfl⟩, ?_⟩
    rw [if_neg hk]
    exact bind_eq_done.2 ⟨a, rest, h, rfl⟩

/-- A part without its mark is left out. -/
theorem behind_eq_none {k : TokenKind} (hk : k ≠ .eof) {p : TokenParser τ α} {ts rest : List τ} :
    behind k p ts = .done none rest ↔ rest = ts ∧ kindAt ts 0 ≠ k := by
  simp only [behind, bind_eq_done]
  constructor
  · rintro ⟨mark, mid, hm, h⟩
    cases mark with
    | none =>
      obtain ⟨-, rfl⟩ := pure_eq_done.1 h
      exact (eat_eq_none hk).1 hm
    | some t =>
      obtain ⟨a, mid', -, h⟩ := bind_eq_done.1 h
      cases (pure_eq_done.1 h).1
  · intro h
    exact ⟨none, rest, (eat_eq_none hk).2 h, rfl⟩

/-- A part behind its mark is read. -/
theorem behind_eq_some {k : TokenKind} {p : TokenParser τ α} {ts rest : List τ} {a : α} :
    behind k p ts = .done (some a) rest ↔
      ∃ t mid, ts = t :: mid ∧ kind t = k ∧ p mid = .done a rest := by
  simp only [behind, bind_eq_done]
  constructor
  · rintro ⟨mark, mid, hm, h⟩
    cases mark with
    | none => cases (pure_eq_done.1 h).1
    | some t =>
      obtain ⟨b, mid', hb, h⟩ := bind_eq_done.1 h
      obtain ⟨hab, rfl⟩ := pure_eq_done.1 h
      cases hab
      obtain ⟨rfl, hk⟩ := eat_eq_some.1 hm
      exact ⟨t, mid, rfl, hk, hb⟩
  · rintro ⟨t, mid, rfl, hk, h⟩
    exact ⟨some t, mid, eat_eq_some.2 ⟨rfl, hk⟩, bind_eq_done.2 ⟨a, rest, h, rfl⟩⟩

/-- A part behind a mark may be repeated. -/
theorem Trims.repeats_behind {p : TokenParser τ α} (hp : p.Trims) (k : TokenKind) :
    (TokenParser.behind k p).Repeats :=
  ⟨hp.behind k, rfl⟩

/-- A single value is followed by no separator. -/
theorem separatedBy_eq_singleton {k : TokenKind} (hk : k ≠ .eof) {p : TokenParser τ α}
    (hp : p.Trims) {ts rest : List τ} {a : α} :
    separatedBy k p ts = .done [a] rest ↔ p ts = .done a rest ∧ kindAt rest 0 ≠ k := by
  simp only [separatedBy, bind_eq_done, pure_eq_done, List.cons.injEq]
  constructor
  · rintro ⟨b, mid, hb, as, mid', has, ⟨rfl, rfl⟩, rfl⟩
    rw [(hp.repeats_behind k).many_eq_nil, behind_eq_none hk] at has
    obtain ⟨rfl, hne⟩ := has
    exact ⟨hb, hne⟩
  · rintro ⟨ha, hne⟩
    refine ⟨a, rest, ha, [], rest, ?_, ⟨rfl, rfl⟩, rfl⟩
    rw [(hp.repeats_behind k).many_eq_nil, behind_eq_none hk]
    exact ⟨rfl, hne⟩

/-- Several values are a first one, a separator and the others. -/
theorem separatedBy_eq_cons {k : TokenKind} {p : TokenParser τ α} (hp : p.Trims) {ts rest : List τ}
    {a b : α} {bs : List α} :
    separatedBy k p ts = .done (a :: b :: bs) rest ↔
      ∃ s mid, p ts = .done a (s :: mid) ∧ kind s = k ∧
        separatedBy k p mid = .done (b :: bs) rest := by
  simp only [separatedBy, bind_eq_done, pure_eq_done, List.cons.injEq]
  constructor
  · rintro ⟨a', mid, ha, as, mid', has, ⟨rfl, rfl⟩, rfl⟩
    obtain ⟨mid'', hb, hbs⟩ := (hp.repeats_behind k).many_eq_cons.1 has
    obtain ⟨s, mid, rfl, hk, hb⟩ := behind_eq_some.1 hb
    exact ⟨s, mid, ha, hk, b, mid'', hb, bs, mid', hbs, ⟨rfl, rfl⟩, rfl⟩
  · rintro ⟨s, mid, ha, hk, b', mid', hb, bs', mid'', hbs, ⟨rfl, rfl⟩, rfl⟩
    refine ⟨a, s :: mid, ha, b' :: bs', mid'', ?_, ⟨rfl, rfl⟩, rfl⟩
    exact (hp.repeats_behind k).many_eq_cons.2 ⟨mid', behind_eq_some.2 ⟨s, mid, rfl, hk, hb⟩, hbs⟩

/-- There is at least one value. -/
theorem separatedBy_ne_nil {k : TokenKind} {p : TokenParser τ α} {ts rest : List τ} :
    separatedBy k p ts ≠ .done [] rest := by
  simp only [separatedBy, ne_eq, bind_eq_done, pure_eq_done]
  rintro ⟨a, mid, -, as, mid', -, h, -⟩
  cases h

end TokenParser

end ConcreteSyntax
