import ConcreteSyntax.Proofs.BalancedBrackets

/-!
# Loops that look ahead

A decision of the grammar may look any number of tokens ahead. It then runs a loop that
goes from place to place over kinds that never run out: past the last token every place
holds the kind of the end of the text. The loops are written turn by turn here, with the
depth of brackets as an explicit counter that may fall below zero. From every place a loop
ends by the end of the tokens, with what the search of the grammar finds there. From an opener
that is a closer or nothing, and never a count below zero.
-/

namespace ConcreteSyntax

open TokenParser

/-! ## Loops -/

/-- How one turn of a loop ends. -/
inductive Turn (σ α : Type) where
  /-- Another turn follows, from a new state. -/
  | again (state : σ)
  /-- The loop is over. -/
  | ends (result : α)
  deriving Repr

/-- That a loop is over within a number of turns, with a result. -/
inductive EndsWithin {σ α : Type} (turn : σ → Turn σ α) : Nat → σ → α → Prop
  | ends {turns : Nat} {s : σ} {a : α} (h : turn s = .ends a) : EndsWithin turn (turns + 1) s a
  | again {turns : Nat} {s s' : σ} {a : α} (h : turn s = .again s')
    (hs : EndsWithin turn turns s' a) : EndsWithin turn (turns + 1) s a

namespace EndsWithin

variable {σ α : Type} {turn : σ → Turn σ α}

/-- A loop that is over within some turns is over within more turns. -/
theorem mono {m n : Nat} {s : σ} {a : α} (h : EndsWithin turn m s a) (hmn : m ≤ n) :
    EndsWithin turn n s a := by
  induction h generalizing n with
  | ends h =>
    obtain ⟨k, rfl⟩ : ∃ k, n = k + 1 := ⟨n - 1, by omega⟩
    exact .ends h
  | again h _ ih =>
    obtain ⟨k, rfl⟩ : ∃ k, n = k + 1 := ⟨n - 1, by omega⟩
    exact .again h (ih (by omega))

/-- A loop has one result. -/
theorem unique {m n : Nat} {s : σ} {a b : α} (h : EndsWithin turn m s a)
    (h' : EndsWithin turn n s b) : a = b := by
  induction h generalizing n with
  | ends h =>
    cases h' with
    | ends h' => exact Turn.ends.inj (h.symm.trans h')
    | again h' => rw [h] at h'; contradiction
  | again h _ ih =>
    cases h' with
    | ends h' => rw [h] at h'; contradiction
    | again h' hs' =>
      obtain rfl := Turn.again.inj (h.symm.trans h')
      exact ih hs'

end EndsWithin

/-! ## The search for a closer -/

/-- One turn of the search: the depth goes up at an opener and down at a closer, and the
search is over when it is back at zero. -/
def closerTurn (kinds : Nat → TokenKind) : Nat × Nat → Turn (Nat × Nat) CloserSearch
  | (depth, place) =>
    if kinds place = .eof then .ends .missing
    else if openers.contains (kinds place) then .again (depth + 1, place + 1)
    else if closers.contains (kinds place) then
      match depth with
      | 0 => .ends .underflow
      | 1 => .ends (.found place)
      | depth + 2 => .again (depth + 1, place + 1)
    else .again (depth, place + 1)

variable {τ : Type} [HasKind τ]

/-- The kind at the place of the first token that remains. -/
theorem kindAt_of_drop_eq_cons {ts us : List τ} {t : τ} {place : Nat}
    (h : ts.drop place = t :: us) : kindAt ts place = kind t := by
  have hkind := kindAt_drop ts place 0
  rw [h, Nat.add_zero] at hkind
  exact hkind.symm

omit [HasKind τ] in
/-- One place further on, the first token that remains is gone. -/
theorem drop_succ_of_drop_eq_cons {ts us : List τ} {t : τ} {place : Nat}
    (h : ts.drop place = t :: us) : ts.drop (place + 1) = us := by
  rw [← List.drop_drop, h, List.drop_succ_cons, List.drop_zero]

/-- The kind at a place behind all tokens. -/
theorem kindAt_of_drop_eq_nil {ts : List τ} {place : Nat} (h : ts.drop place = []) :
    kindAt ts place = .eof := by
  have hkind := kindAt_drop ts place 0
  rw [h, Nat.add_zero] at hkind
  exact hkind.symm

/-- From every place and with every count, the loop ends with what the search of the grammar
finds in the tokens from there on, and by their end. The recursion runs over the tokens that
remain. -/
theorem endsWithin_searchCloser {ts : List τ} (hts : ∀ t ∈ ts, kind t ≠ .eof) (depth place : Nat) :
    EndsWithin (closerTurn (kindAt ts)) (ts.length - place + 1) (depth, place)
      (searchCloser depth place (ts.drop place)) := by
  rw [← List.length_drop]
  generalize hus : ts.drop place = us
  induction us generalizing depth place with
  | nil =>
    have hkind : kindAt ts place = .eof := kindAt_of_drop_eq_nil hus
    exact .ends (by simp [closerTurn, hkind, searchCloser])
  | cons u us ih =>
    have hkind : kindAt ts place = kind u := kindAt_of_drop_eq_cons hus
    have hmem : u ∈ ts := List.mem_of_mem_drop (hus ▸ List.mem_cons_self : u ∈ ts.drop place)
    have hne : kind u ≠ .eof := hts u hmem
    have hrest : ts.drop (place + 1) = us := drop_succ_of_drop_eq_cons hus
    by_cases ho : openers.contains (kind u) = true
    · simp only [searchCloser, if_pos ho]
      have hstep := ih (depth + 1) (place + 1) hrest
      exact .again (by simp [closerTurn, hkind, hne, ho]) hstep
    · by_cases hc : closers.contains (kind u) = true
      · simp only [searchCloser, if_neg ho, if_pos hc]
        obtain _ | _ | depth := depth
        · exact .ends (by simp [closerTurn, hkind, hne, ho, hc])
        · exact .ends (by simp [closerTurn, hkind, hne, ho, hc])
        · have hstep := ih (depth + 1) (place + 1) hrest
          exact .again (by simp [closerTurn, hkind, hne, ho, hc]) hstep
      · simp only [searchCloser, if_neg ho, if_neg hc]
        have hstep := ih depth (place + 1) hrest
        exact .again (by simp [closerTurn, hkind, hne, ho, hc]) hstep

/-- From an opener the loop ends, by the end of the tokens, with the closer or without one. -/
theorem endsWithin_findCloser {ts : List τ} (hts : ∀ t ∈ ts, kind t ≠ .eof) {n : Nat}
    (h : openers.contains (kindAt ts n) = true) :
    EndsWithin (closerTurn (kindAt ts)) (ts.length - n + 1) (0, n)
      (.ofOption (findCloser ts n h)) := by
  rw [ofOption_findCloser]
  exact endsWithin_searchCloser hts 0 n

/-! ## The search for the mark of a definition -/

/-- One turn of the search for a colon or a constraint behind names and commas. -/
def definitionTurn (kinds : Nat → TokenKind) (place : Nat) : Turn Nat Bool :=
  if kinds place = .ident then
    match kinds (place + 1) with
    | .comma => .again (place + 2)
    | .colon | .isKw => .ends true
    | _ => .ends false
  else .ends false

/-- From every place the search for the mark of a definition is over by the end of the
tokens, and it finds what the recursive scan finds. -/
theorem endsWithin_opensDefinition (ts : List τ) (n : Nat) :
    EndsWithin (definitionTurn (kindAt ts)) (ts.length - n + 1) n
      (opensDefinition (ts.drop n)) := by
  have hlength : (ts.drop n).length = ts.length - n := List.length_drop
  rw [← hlength]
  generalize hus : ts.drop n = us
  clear hlength
  fun_induction opensDefinition us generalizing n with
  | case1 name mark us ih =>
    have hfirst : kindAt ts n = kind name := kindAt_of_drop_eq_cons hus
    have hdrop : ts.drop (n + 1) = mark :: us := drop_succ_of_drop_eq_cons hus
    have hsecond : kindAt ts (n + 1) = kind mark := kindAt_of_drop_eq_cons hdrop
    have hrest : ts.drop (n + 2) = us := drop_succ_of_drop_eq_cons hdrop
    by_cases hname : kind name = .ident
    · cases hmark : kind mark with
      | comma =>
        have hstep := ih (n + 2) hrest
        have hmore : EndsWithin (definitionTurn (kindAt ts)) (us.length + 2) (n + 2)
            (opensDefinition us) := hstep.mono (by omega)
        have hturn : definitionTurn (kindAt ts) n = .again (n + 2) := by
          simp [definitionTurn, hfirst, hsecond, hname, hmark]
        simpa [hname] using EndsWithin.again hturn hmore
      | colon | isKw =>
        exact .ends (by simp [definitionTurn, hfirst, hsecond, hname, hmark])
      | _ =>
        exact .ends (by simp [definitionTurn, hfirst, hsecond, hname, hmark])
    · exact .ends (by simp [definitionTurn, hfirst, hname])
  | case2 us hshort =>
    cases us with
    | nil =>
      have hfirst : kindAt ts n = .eof := kindAt_of_drop_eq_nil hus
      exact .ends (by simp [definitionTurn, hfirst])
    | cons name us =>
      cases us with
      | nil =>
        have hdrop : ts.drop (n + 1) = [] := drop_succ_of_drop_eq_cons hus
        have hsecond : kindAt ts (n + 1) = .eof := kindAt_of_drop_eq_nil hdrop
        exact .ends (by simp [definitionTurn, hsecond])
      | cons mark us => exact absurd rfl (hshort name mark us)

end ConcreteSyntax
