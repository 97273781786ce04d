import ConcreteSyntax.ExpressionGrammar

/-!
# Brackets scanned without an underflow

Behind an opener the counter of the search for a closer is never zero. So the same closer is found
by a scan that counts only the further brackets, which cannot fall below zero and is defined on all
tokens. The decisions of the grammar are put in terms of this scan here: where the next token begins
no bracket, they search for nothing and the scan finds nothing.
-/

namespace ConcreteSyntax

open TokenParser

variable {τ : Type} [HasKind τ]

/-! ## The scan -/

/-- The place of the closer that ends an open bracket. The tokens begin at place
`place`, inside `depth` further brackets. -/
def closerFrom (depth place : Nat) : List τ → Option Nat
  | [] => none
  | t :: ts =>
    if openers.contains (kind t) then closerFrom (depth + 1) (place + 1) ts
    else if closers.contains (kind t) then
      match depth with
      | 0 => some place
      | depth + 1 => closerFrom depth (place + 1) ts
    else closerFrom depth (place + 1) ts

/-- The place of the closer that belongs to the opener at the front, if there is one. -/
def matchingCloser : List τ → Option Nat
  | [] => none
  | t :: ts => if openers.contains (kind t) then closerFrom 0 1 ts else none

/-- Whether the bracket at the front is followed, behind its closer, by a token of
a certain kind. -/
def bracketFollowedBy (k : TokenKind) (ts : List τ) : Bool :=
  (matchingCloser ts).elim false fun close => kindAt ts (close + 1) == k

/-- An opener goes one level down. -/
theorem closerFrom_opener {t : τ} (ho : openers.contains (kind t) = true) (depth place : Nat)
    (ts : List τ) : closerFrom depth place (t :: ts) = closerFrom (depth + 1) (place + 1) ts := by
  cases depth <;> simp [closerFrom, ho]

/-- At the outermost level a closer is the one that is looked for. -/
theorem closerFrom_zero {t : τ} (ho : ¬ openers.contains (kind t) = true)
    (hc : closers.contains (kind t) = true) (place : Nat) (ts : List τ) :
    closerFrom 0 place (t :: ts) = some place := by
  simp [closerFrom, ho, hc]

/-- At an inner level a closer goes one level up. -/
theorem closerFrom_succ {t : τ} (ho : ¬ openers.contains (kind t) = true)
    (hc : closers.contains (kind t) = true) (depth place : Nat) (ts : List τ) :
    closerFrom (depth + 1) place (t :: ts) = closerFrom depth (place + 1) ts := by
  simp [closerFrom, ho, hc]

/-- A token that is no bracket is passed over. -/
theorem closerFrom_other {t : τ} (ho : ¬ openers.contains (kind t) = true)
    (hc : ¬ closers.contains (kind t) = true) (depth place : Nat) (ts : List τ) :
    closerFrom depth place (t :: ts) = closerFrom depth (place + 1) ts := by
  cases depth <;> simp [closerFrom, ho, hc]

/-- The place of the closer moves with the place of the first token. -/
theorem closerFrom_add (depth place n : Nat) (ts : List τ) :
    closerFrom depth (place + n) ts = (closerFrom depth place ts).map (· + n) := by
  induction ts generalizing depth place with
  | nil => rfl
  | cons t ts ih =>
    by_cases ho : openers.contains (kind t) = true
    · rw [closerFrom_opener ho, closerFrom_opener ho, ← ih, Nat.add_right_comm]
    · by_cases hc : closers.contains (kind t) = true
      · cases depth with
        | zero =>
          rw [closerFrom_zero ho hc, closerFrom_zero ho hc]
          rfl
        | succ depth =>
          rw [closerFrom_succ ho hc, closerFrom_succ ho hc, ← ih, Nat.add_right_comm]
      · rw [closerFrom_other ho hc, closerFrom_other ho hc, ← ih, Nat.add_right_comm]

/-- A kind behind a number of tokens is a kind in the tokens that remain. -/
theorem kindAt_drop (ts : List τ) (n i : Nat) :
    kindAt (ts.drop n) i = kindAt ts (n + i) := by
  simp only [kindAt, List.getElem?_drop]

/-- Only an opener has a closer. -/
theorem opens_of_matchingCloser {ts : List τ} {close : Nat} (h : matchingCloser ts = some close) :
    openers.contains (kindAt ts 0) = true := by
  cases ts with
  | nil => contradiction
  | cons t ts =>
    rw [matchingCloser] at h
    split at h
    · assumption
    · contradiction

/-! ## The search -/

/-- What the search reports for the closer that the scan finds. -/
def CloserSearch.ofOption : Option Nat → CloserSearch
  | some close => .found close
  | none => .missing

/-- Inside an open bracket the search finds what the scan finds. -/
theorem searchCloser_succ (depth place : Nat) (ts : List τ) :
    searchCloser (depth + 1) place ts = .ofOption (closerFrom depth place ts) := by
  induction ts generalizing depth place with
  | nil => rfl
  | cons t ts ih =>
    by_cases ho : openers.contains (kind t) = true
    · simp only [searchCloser, if_pos ho, ih, closerFrom_opener ho]
    · by_cases hc : closers.contains (kind t) = true
      · cases depth with
        | zero => simp only [searchCloser, if_neg ho, if_pos hc, closerFrom_zero ho hc]; rfl
        | succ depth => simp only [searchCloser, if_neg ho, if_pos hc, ih, closerFrom_succ ho hc]
      · simp only [searchCloser, if_neg ho, if_neg hc, ih, closerFrom_other ho hc]

section

variable {ts : List τ} {n : Nat} (h : openers.contains (kindAt ts n) = true)

/-- The closer of an opener is what the search finds from there. -/
theorem ofOption_findCloser : .ofOption (findCloser ts n h) = searchCloser 0 n (ts.drop n) := by
  unfold findCloser
  split
  · next hsearch => exact hsearch.symm
  · next hsearch => exact hsearch.symm
  · next hsearch =>
    exact absurd (searchCloser_opener h ▸ hsearch) (searchCloser_ne_underflow 0 _ _)

/-- The closer of an opener is the one that the scan finds. -/
theorem findCloser_eq_scan : findCloser ts n h = (matchingCloser (ts.drop n)).map (· + n) := by
  have hscan : matchingCloser (ts.drop n) = closerFrom 0 1 (ts.drop (n + 1)) := by
    have hfirst : openers.contains (kindAt (ts.drop n) 0) = true := by rwa [kindAt_drop]
    rw [← List.drop_drop]
    cases hdrop : ts.drop n with
    | nil =>
      rw [hdrop] at hfirst
      exact absurd (show openers.contains .eof = true from hfirst) (by decide)
    | cons t us =>
      rw [hdrop] at hfirst
      exact if_pos hfirst
  have hsearch := ofOption_findCloser h
  rw [searchCloser_opener h, searchCloser_succ, Nat.add_comm n 1, closerFrom_add,
    Nat.add_comm 1 n, ← hscan] at hsearch
  generalize (matchingCloser (ts.drop n)).map (· + n) = found at hsearch
  cases hfound : findCloser ts n h <;> cases found <;> rw [hfound] at hsearch <;>
    first | rfl | exact congrArg some (CloserSearch.found.inj hsearch) | contradiction

/-- The closer of the opener at the front is the one that the scan finds. -/
theorem findCloser_zero (h : openers.contains (kindAt ts 0) = true) :
    findCloser ts 0 h = matchingCloser ts := by
  rw [findCloser_eq_scan, List.drop_zero]
  cases matchingCloser ts <;> rfl

/-- What the scan finds belongs to an opener at the front. -/
theorem exists_findCloser {close : Nat} (hclose : matchingCloser ts = some close) :
    ∃ h : openers.contains (kindAt ts 0) = true, findCloser ts 0 h = some close := by
  have hopen := opens_of_matchingCloser hclose
  exact ⟨hopen, (findCloser_zero hopen).trans hclose⟩

/-- What follows the closer of an opener is what follows it in the scan. -/
theorem closerFollowedBy_eq_scan (k : TokenKind) :
    closerFollowedBy k ts n h = bracketFollowedBy k (ts.drop n) := by
  rw [closerFollowedBy, findCloser_eq_scan, bracketFollowedBy]
  cases matchingCloser (ts.drop n) with
  | none => rfl
  | some close =>
    have hplace : close + n + 1 = n + (close + 1) := by omega
    rw [Option.map_some, Option.elim_some, Option.elim_some, kindAt_drop, hplace]

end

/-! ## The decisions -/

/-- A loop of its own is recognised by the scan of the parenthesis. -/
theorem startsLoop_eq_scan (ts : List τ) :
    startsLoop ts = (kindAt ts 1 == .leftParen && bracketFollowedBy .leftBrace (ts.drop 1)) := by
  unfold startsLoop
  split
  · next h => rw [closerFollowedBy_eq_scan, h, beq_self_eq_true, Bool.true_and]
  · next h => rw [beq_eq_false_iff_ne.2 h, Bool.false_and]

namespace Grammar

/-- A constructor is recognised by the scan of the bracket. -/
theorem constructorAhead?_eq_scan (rules : Rules) (ts : List τ) :
    constructorAhead? rules ts =
      match matchingCloser ts with
      | none => none
      | some close =>
        let follower := kindAt ts (close + 1)
        let resultFollows := rules.operandStart.contains follower
        let parameters := opensParameter (ts.drop 1)
        match kindAt ts 0 with
        | .leftParen =>
          if close == 1 || parameters then
            if follower = .thinArrow then some ⟨.function, true⟩
            else if resultFollows then some ⟨.function, false⟩
            else none
          else none
        | .leftBracket =>
          if follower = .fatArrow && rules.operandStart.contains (kindAt ts (close + 2)) then
            some ⟨.template, true⟩
          else if resultFollows then
            some ⟨if parameters then .template else .array, false⟩
          else none
        | _ => none := by
  by_cases h : kindAt ts 0 = .leftParen ∨ kindAt ts 0 = .leftBracket
  · have hfind : findCloser ts 0 (opens_of_eq h) = matchingCloser ts := findCloser_zero _
    exact (dif_pos h).trans (hfind ▸ rfl)
  · rw [constructorAhead?, dif_neg h]
    obtain ⟨hp, hb⟩ := not_or.1 h
    cases matchingCloser ts with
    | none => rfl
    | some close =>
      dsimp only
      split
      · contradiction
      · contradiction
      · rfl

/-- An arrow behind a parenthesis is recognised by the scan of the parenthesis. -/
theorem arrowConstructor_eq_scan (g : Grammar τ) : g.arrowConstructor = (do
    match ← peek with
    | .leftBracket =>
      let specifier ← g.bracket
      let mark ← eat .fatArrow
      let result ← g.phrase .operand
      return some (if mark.isSome then .template mark specifier result
        else .array none specifier result)
    | .leftParen =>
      if bracketFollowedBy .thinArrow (← ahead) then
        let parameters ← g.paren
        let mark ← expect .thinArrow
        return some (.function (some mark) parameters (← g.phrase .operand))
      else return none
    | _ => return none) := by
  funext ts
  obtain ⟨k, hk⟩ : ∃ k, kindAt ts 0 = k := ⟨_, rfl⟩
  have hpeek : (peekAhead ts : Outcome τ ((k : TokenKind) × {ts : List τ // kindAt ts 0 = k})) =
      .done ⟨k, ts, hk⟩ ts := by
    subst hk
    rfl
  rw [arrowConstructor]
  show TokenParser.bind peekAhead _ ts = TokenParser.bind peek _ ts
  simp only [TokenParser.bind, hpeek, peek, hk]
  cases k with
  | leftParen =>
    simp only [closerFollowedBy_eq_scan]
    rfl
  | _ => rfl

end Grammar

end ConcreteSyntax
