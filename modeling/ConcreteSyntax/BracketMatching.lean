import ConcreteSyntax.TokenParsers

/-!
# Looking ahead

Decisions of the grammar that look at tokens without reading them. The closer of
an opening bracket is found by counting: every opener goes one level down and
every closer one level up, whatever their types. The count would fall below zero at
a closer that has no opener, so a search may begin at an opener only, and every
search comes with a proof that it does.
-/

namespace ConcreteSyntax

open TokenParser

variable {τ : Type} [HasKind τ]

/-- The kinds that open a bracket. -/
def openers : KindSet := .ofList [.leftParen, .leftBracket, .leftBrace]

/-- The kinds that close a bracket. -/
def closers : KindSet := .ofList [.rightParen, .rightBracket, .rightBrace]

/-- How the search for a closer ends. -/
inductive CloserSearch where
  /-- A closer at a place brings the counter back to zero. -/
  | found (place : Nat)
  /-- The text ends first. -/
  | missing
  /-- The counter would fall below zero. -/
  | underflow
  deriving DecidableEq, Repr

/-- The search for a closer in tokens that begin at place `place`. The counter `depth`
goes up at an opener and down at a closer, and the search is over when it is back at
zero. -/
def searchCloser (depth place : Nat) : List τ → CloserSearch
  | [] => .missing
  | t :: ts =>
    if openers.contains (kind t) then searchCloser (depth + 1) (place + 1) ts
    else if closers.contains (kind t) then
      match depth with
      | 0 => .underflow
      | 1 => .found place
      | depth + 2 => searchCloser (depth + 1) (place + 1) ts
    else searchCloser depth (place + 1) ts

/-- Inside an open bracket the counter does not fall below zero. -/
theorem searchCloser_ne_underflow (depth place : Nat) (ts : List τ) :
    searchCloser (depth + 1) place ts ≠ .underflow := by
  induction ts generalizing depth place with
  | nil => simp [searchCloser]
  | cons t ts ih =>
    simp only [searchCloser]
    split
    · exact ih (depth + 1) (place + 1)
    · split
      · cases depth with
        | zero => simp
        | succ depth => exact ih depth (place + 1)
      · exact ih depth (place + 1)

/-- Behind an opener the search goes on inside an open bracket. -/
theorem searchCloser_opener {ts : List τ} {n : Nat} (h : openers.contains (kindAt ts n) = true) :
    searchCloser 0 n (ts.drop n) = searchCloser 1 (n + 1) (ts.drop (n + 1)) := by
  cases hget : ts[n]? with
  | none =>
    rw [kindAt, hget, Option.elim_none] at h
    exact absurd h (by decide)
  | some t =>
    rw [kindAt, hget, Option.elim_some] at h
    obtain ⟨hlt, rfl⟩ := List.getElem?_eq_some_iff.1 hget
    rw [List.drop_eq_getElem_cons hlt, searchCloser, if_pos h]

/-- The place of the closer that belongs to the opener at a place, if the text does not
end before it. That the search begins at an opener keeps its counter from falling below
zero. -/
def findCloser (ts : List τ) (n : Nat) (h : openers.contains (kindAt ts n) = true) : Option Nat :=
  match hsearch : searchCloser 0 n (ts.drop n) with
  | .found close => some close
  | .missing => none
  | .underflow => absurd (searchCloser_opener h ▸ hsearch) (searchCloser_ne_underflow 0 _ _)

/-- Whether the closer that belongs to the opener at a place is followed by a token of a
certain kind. -/
def closerFollowedBy (k : TokenKind) (ts : List τ) (n : Nat)
    (h : openers.contains (kindAt ts n) = true) : Bool :=
  (findCloser ts n h).elim false fun close => kindAt ts (close + 1) == k

/-- A parenthesis and a bracket are openers. -/
theorem opens_of_eq {k : TokenKind} (h : k = .leftParen ∨ k = .leftBracket) :
    openers.contains k = true := by
  rcases h with rfl | rfl <;> decide

/-- Whether the tokens begin with identifiers, separated by commas, and a colon or
the reserved word of a constraint after the last of them. -/
def opensDefinition : List τ → Bool
  | name :: mark :: ts =>
    kind name == .ident &&
      match kind mark with
      | .comma => opensDefinition ts
      | .colon | .isKw => true
      | _ => false
  | _ => false

/-- Whether the tokens begin a parameter: with a colon or like a definition. -/
def opensParameter (ts : List τ) : Bool := kindAt ts 0 == .colon || opensDefinition ts

/-- Whether the tokens begin a declaration. -/
def opensDeclaration (ts : List τ) : Bool := kindAt ts 0 == .defKw || opensDefinition ts

/-- Whether the parenthesis at the front is empty or begins with a colon or with an
identifier and a colon. -/
def opensParameters (ts : List τ) : Bool :=
  match kindAt ts 1 with
  | .rightParen | .colon => true
  | .ident => kindAt ts 2 == .colon
  | _ => false

/-- Whether the reserved word at the front begins a loop of its own: a parenthesis
follows, and a block follows that. -/
def startsLoop (ts : List τ) : Bool :=
  if h : kindAt ts 1 = .leftParen then closerFollowedBy .leftBrace ts 1 (opens_of_eq (.inl h))
  else false

end ConcreteSyntax
