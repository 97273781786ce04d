/-!
# Windows on long lines

A report has room for a certain number of columns. A line that is longer, or that is
indented far, is shown through a window, which is chosen so that the marked part and
the label below it stay in sight.
-/

namespace ConcreteSyntax

/-- The places of a line that the choice of a window depends on. -/
structure LineExtent where
  /-- The columns of blanks at the front. -/
  indent : Nat
  /-- The column at which the marked part starts. -/
  marksStart : Nat
  /-- The column behind the marked part. -/
  marksStop : Nat
  /-- The column behind the label of the marked part. -/
  labelStop : Nat
  /-- The length of the line. -/
  length : Nat
  deriving DecidableEq, Repr, Inhabited

/-- The part of a line that is shown. -/
structure LineWindow where
  /-- The number of columns before the window. -/
  first : Nat
  /-- The column behind the window. -/
  last : Nat
  /-- The length up to which a line counts as shown in full. -/
  reach : Nat
  /-- The number of columns that there is room for. -/
  room : Nat
  deriving DecidableEq, Repr, Inhabited

namespace LineWindow

/-- The columns that are kept free for the dots of a cut line. -/
def dotsRoom : Nat := 6

/-- The widest indent that is shown in full. -/
def widestIndent : Nat := 20

/-- The columns of a wider indent that are shown. -/
def shownIndent : Nat := 16

/-- The first and the last column of the window on a line. A wide indent is cut. If the
rest does not fit, then the window begins at the text, or else lies around the marks
and their label, or around the marks alone, or shows only the marks. -/
def bounds (room : Nat) (e : LineExtent) : Nat × Nat :=
  let first := if e.indent ≤ widestIndent then 0 else e.indent - shownIndent
  let last := max e.length first
  if last ≤ first + room then (first, last)
  else if e.indent ≤ e.labelStop ∧ e.labelStop ≤ e.indent + room then (e.indent, e.indent + room)
  else if e.labelStop ≤ e.marksStart + room then
    let first := e.marksStart - (room - (e.labelStop - e.marksStart)) / 2
    (first, first + room)
  else if e.marksStop ≤ e.marksStart + room then
    let first := e.marksStart - (room - (e.marksStop - e.marksStart)) / 5 * 2
    (first, first + room)
  else (e.marksStart, e.marksStop)

/-- The window on a line. Room for dots is kept on both sides of the marks and behind
the label. Where the window ends with that room, a line that ends in it counts as
shown in full. -/
def fit (room : Nat) (extent : LineExtent) : LineWindow :=
  let e := { extent with
    indent := extent.indent - dotsRoom
    marksStart := extent.marksStart - dotsRoom
    marksStop := extent.marksStop + dotsRoom
    labelStop := extent.labelStop + dotsRoom }
  let (first, last) := bounds room e
  let reach := if last = e.marksStop ∨ last = e.labelStop then last - dotsRoom else last
  ⟨first, last, reach, room⟩

/-- The window on a line of a given length that has nothing to show. -/
def behind (room length : Nat) : LineWindow := ⟨length, length, length, room⟩

/-- The number of characters before the window in a line of a given length. -/
def skipped (w : LineWindow) (length : Nat) : Nat := min w.first length

/-- The number of columns shown of a line of a given length. -/
def shown (w : LineWindow) (length : Nat) : Nat :=
  (if length ≤ w.first + w.room then length else min w.last length) - w.skipped length

/-- Whether the front of a line is cut. -/
def cutsFront (w : LineWindow) : Bool := 0 < w.first

/-- Whether the back of a line of a given length is cut. -/
def cutsBack (w : LineWindow) (length : Nat) : Bool :=
  w.reach < length && w.first + w.room < length

end LineWindow

end ConcreteSyntax
