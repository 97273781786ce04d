/-!
# Positions and spans of source text

A position is a line and a column, both counted from one. A span is a pair of
positions. Line zero stands for "no place at all", so a span that starts on
line zero covers nothing and is the neutral element of `Span.cover`. Positions
are ordered by line and then by column.

Lines and columns have no upper bound here. Those of the tokens of a text exceed its
number of bytes by one at most (`bounds_of_mem_tokenize`), so unsigned numbers of 32
bits hold them for every text of fewer than 2 ^ 32 - 1 bytes.
-/

namespace ConcreteSyntax

/-- A place in a source text. -/
structure Position where
  /-- The line, counted from one; zero means that there is no place. -/
  line : Nat
  /-- The column, counted from one; zero means that only the line is known. -/
  column : Nat
  deriving DecidableEq, Repr, Inhabited

namespace Position

/-- The position of the first character of a text. -/
def first : Position := ⟨1, 1⟩

/-- A position denotes a place exactly when its line is not zero. -/
def IsValid (p : Position) : Prop := p.line ≠ 0

instance (p : Position) : Decidable p.IsValid := inferInstanceAs (Decidable (p.line ≠ 0))

/-- The position `columns` further to the right on the same line. -/
def advance (p : Position) (columns : Nat) : Position := ⟨p.line, p.column + columns⟩

/-- The position after reading `c`: a line feed starts the next line, and every
other character is one column wide. -/
def after (p : Position) (c : Char) : Position :=
  if c = '\n' then ⟨p.line + 1, 1⟩ else ⟨p.line, p.column + 1⟩

/-- Reading order: by line, and by column within a line. -/
protected def le (p q : Position) : Prop :=
  p.line < q.line ∨ (p.line = q.line ∧ p.column ≤ q.column)

instance : LE Position := ⟨Position.le⟩

instance (p q : Position) : Decidable (p ≤ q) :=
  inferInstanceAs (Decidable (p.line < q.line ∨ (p.line = q.line ∧ p.column ≤ q.column)))

instance : Min Position := ⟨fun p q => if p ≤ q then p else q⟩

instance : Max Position := ⟨fun p q => if p ≤ q then q else p⟩

/-- The written form `line:column`, without the column when it is unknown. -/
def toText (p : Position) : String :=
  if p.column = 0 then toString p.line else s!"{p.line}:{p.column}"

/-- All positions of a list in reading order. -/
def sorted (ps : List Position) : List Position := ps.mergeSort (fun p q => decide (p ≤ q))

/-- The order compares lines first and columns second. -/
theorem le_def {p q : Position} :
    p ≤ q ↔ p.line < q.line ∨ (p.line = q.line ∧ p.column ≤ q.column) := Iff.rfl

end Position

/-- A piece of source text between two positions; the end is not part of it. -/
structure Span where
  /-- Where the piece begins. -/
  start : Position
  /-- The position just after the piece. -/
  stop : Position
  deriving DecidableEq, Repr, Inhabited

namespace Span

/-- The span of something that has no place in the text. -/
def nowhere : Span := ⟨⟨0, 0⟩, ⟨0, 0⟩⟩

/-- The empty span at a position. -/
def point (p : Position) : Span := ⟨p, p⟩

/-- A span is valid exactly when its start is; the end plays no part. -/
def IsValid (s : Span) : Prop := s.start.IsValid

instance (s : Span) : Decidable s.IsValid := inferInstanceAs (Decidable s.start.IsValid)

/-- A valid span that denotes a single position. -/
def IsPoint (s : Span) : Prop := s.IsValid ∧ s.start = s.stop

instance (s : Span) : Decidable s.IsPoint :=
  inferInstanceAs (Decidable (s.IsValid ∧ s.start = s.stop))

/-- A valid span that ends on the line on which it starts. -/
def IsSingleLine (s : Span) : Prop := s.IsValid ∧ s.start.line = s.stop.line

instance (s : Span) : Decidable s.IsSingleLine :=
  inferInstanceAs (Decidable (s.IsValid ∧ s.start.line = s.stop.line))

/-- The least span that contains both spans. A span without a place adds nothing
to the other one. -/
def cover (s t : Span) : Span :=
  if s.IsValid then
    if t.IsValid then ⟨min s.start t.start, max s.stop t.stop⟩ else s
  else t

/-- The written form: `line:column` for a point, `line:column-column` within a
line, both positions joined by two dots otherwise. -/
def toText (s : Span) : String :=
  if ¬ s.IsValid then "<invalid>"
  else if s.IsPoint then s!"{s.start.line}:{s.start.column}"
  else if s.IsSingleLine then s!"{s.start.line}:{s.start.column}-{s.stop.column}"
  else s.start.toText ++ ".." ++ s.stop.toText

/-- Covering from nowhere leaves the other span as it is. -/
@[simp] theorem nowhere_cover (s : Span) : nowhere.cover s = s := by
  have h : ¬ nowhere.IsValid := by decide
  simp only [cover, h, if_false]

/-- A span without a place adds nothing on the right. -/
theorem cover_of_not_isValid {s t : Span} (hs : s.IsValid) (ht : ¬ t.IsValid) :
    s.cover t = s := by
  simp only [cover, hs, ht, if_true, if_false]

end Span

end ConcreteSyntax
