import ConcreteSyntax.Tokens
import ConcreteSyntax.TokenKindSets

/-!
# Parsers over tokens

A parser reads from the front of a list of tokens. It either yields a value and
the tokens that it leaves, or it fails with what it was looking for, the token that
it found instead, and the tokens that it leaves. Parsers consult the kinds of tokens
only. The end of the list counts as a token of the end-of-text kind.
-/

namespace ConcreteSyntax

/-- The constructs that a message may ask for. -/
inductive Construct where
  | declaration
  | primaryExpression
  | controlExpression
  deriving DecidableEq, Repr, Inhabited

/-- The name of a construct in messages. -/
def Construct.name : Construct → String
  | declaration => "declaration"
  | primaryExpression => "primary-expression"
  | controlExpression => "control-expression"

/-- What a parser was looking for when it failed. -/
inductive Expectation where
  /-- A token of a certain kind. -/
  | token (kind : TokenKind)
  /-- The beginning of a construct. -/
  | construct (what : Construct)
  deriving DecidableEq, Repr, Inhabited

/-- The name of an expectation in messages. -/
def Expectation.name : Expectation → String
  | token kind => kind.name
  | construct what => what.name

/-- Why a parser failed. -/
structure Failure (τ : Type) where
  /-- What was looked for. -/
  expected : Expectation
  /-- The token that was ahead then, or none at the end of the text. -/
  found : Option τ
  deriving Repr, Inhabited

/-- How a parser ends. -/
inductive Outcome (τ α : Type) where
  /-- A value, and the tokens that are left. -/
  | done (value : α) (rest : List τ)
  /-- A failure, and the tokens that are left. -/
  | failed (failure : Failure τ) (rest : List τ)
  deriving Repr, Inhabited

/-- The tokens that an outcome leaves. -/
def Outcome.rest {τ α : Type} : Outcome τ α → List τ
  | done _ rest | failed _ rest => rest

/-- A parser of values from tokens. -/
def TokenParser (τ α : Type) : Type := List τ → Outcome τ α

namespace TokenParser

variable {τ α β : Type}

/-- Yields a value and reads nothing. -/
protected def pure (a : α) : TokenParser τ α := fun ts => .done a ts

/-- Goes on with the value and the tokens that a parser leaves. -/
protected def bind (p : TokenParser τ α) (f : α → TokenParser τ β) : TokenParser τ β :=
  fun ts =>
    match p ts with
    | .done a rest => f a rest
    | .failed failure rest => .failed failure rest

instance : Monad (TokenParser τ) where
  pure := TokenParser.pure
  bind := TokenParser.bind

/-- Fails at the next token. -/
def fail (expected : Expectation) : TokenParser τ α := fun ts => .failed ⟨expected, ts.head?⟩ ts

/-- The tokens that are still to be read. -/
def ahead : TokenParser τ (List τ) := fun ts => .done ts ts

/-- Reads the next token, if there is one. -/
def next? : TokenParser τ (Option τ)
  | [] => .done none []
  | t :: ts => .done (some t) ts

/-- Repeats a parser until it yields nothing, at most once for each token of a
budget. -/
def manyWithin (p : TokenParser τ (Option α)) : List τ → TokenParser τ (List α)
  | [], ts => .done [] ts
  | _ :: budget, ts =>
    match p ts with
    | .failed failure rest => .failed failure rest
    | .done none rest => .done [] rest
    | .done (some a) rest =>
      match manyWithin p budget rest with
      | .failed failure rest => .failed failure rest
      | .done as rest => .done (a :: as) rest

/-- Repeats a parser until it yields nothing and collects its values. The tokens
ahead are a sufficient budget for a parser that reads a token for each value and
yields nothing at the end. -/
def many (p : TokenParser τ (Option α)) : TokenParser τ (List α) :=
  fun ts => manyWithin p ts ts

variable [HasKind τ]

/-- The kind of the token at a place of a list. -/
def kindAt (ts : List τ) (place : Nat) : TokenKind := ts[place]?.elim .eof kind

/-- The kind of the next token. -/
def peek : TokenParser τ TokenKind := fun ts => .done (kindAt ts 0) ts

/-- The kind of the next token, and the tokens that are still to be read, which begin with
this kind. -/
def peekAhead : TokenParser τ ((k : TokenKind) × {ts : List τ // kindAt ts 0 = k}) :=
  fun ts => .done ⟨kindAt ts 0, ts, rfl⟩ ts

/-- Reads the next token if its kind belongs to a set. -/
def eatAny (kinds : KindSet) : TokenParser τ (Option τ)
  | [] => .done none []
  | t :: ts => if kinds.contains (kind t) then .done (some t) ts else .done none (t :: ts)

/-- Reads the next token if it is of a certain kind. -/
def eat (k : TokenKind) : TokenParser τ (Option τ)
  | [] => .done none []
  | t :: ts => if kind t = k then .done (some t) ts else .done none (t :: ts)

/-- Reads a token that has to be of a certain kind. -/
def expect (k : TokenKind) : TokenParser τ τ
  | [] => .failed ⟨.token k, none⟩ []
  | t :: ts => if kind t = k then .done t ts else .failed ⟨.token k, some t⟩ (t :: ts)

/-- Runs a parser unless the next token is of a certain kind. -/
def unlessNext (k : TokenKind) (p : TokenParser τ α) : TokenParser τ (Option α) := do
  if (← peek) = k then return none else return some (← p)

/-- Runs a parser behind a token of a certain kind, if that token comes next. -/
def behind (k : TokenKind) (p : TokenParser τ α) : TokenParser τ (Option α) := do
  match ← eat k with
  | some _ => return some (← p)
  | none => return none

/-- One or more values with a separator between any two. -/
def separatedBy (separator : TokenKind) (p : TokenParser τ α) : TokenParser τ (List α) := do
  let first ← p
  let others ← many (behind separator p)
  pure (first :: others)

end TokenParser

end ConcreteSyntax
