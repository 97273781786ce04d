import ConcreteSyntax.CharacterWidths
import ConcreteSyntax.Diagnostics
import ConcreteSyntax.LineWindows
import ConcreteSyntax.ScreenRows
import ConcreteSyntax.TextCursors

/-!
# Reports on diagnostics

The report on a diagnostic shows the line in which its range starts and marks the
range below it. A report can be plain or styled for a terminal; the style only wraps
parts of it in escapes.

The layout is that of a renderer of source annotations which the front end uses as it
stands: the room for a line, the window on a long line and the widths of characters are
taken over from it, tables and all. Reports are only shown. What is proved of texts,
tokens, trees and errors speaks of diagnostics, never of their reports.
-/

namespace ConcreteSyntax

/-- Splits characters after a number of bytes. -/
def splitAtByte : Nat → List Char → List Char × List Char
  | _, [] => ([], [])
  | 0, cs => ([], cs)
  | bytes, c :: cs =>
    let (front, back) := splitAtByte (bytes - c.utf8Size) cs
    (c :: front, back)

/-- The line that a report shows, and the place of the marks below it. -/
structure Excerpt where
  /-- The number of the line, counted from one. -/
  line : Nat
  /-- The column at which the range starts, in characters and counted from one. -/
  column : Nat
  /-- The characters of the line. -/
  chars : List Char
  /-- The screen columns before the marks. -/
  marksStart : Nat
  /-- The number of marks; an empty range has one. -/
  marks : Nat
  deriving DecidableEq, Repr, Inhabited

/-- Whether a character does not end a line. -/
def insideLine (c : Char) : Bool := c != '\n'

/-- The excerpt for a range of bytes that lies within a text. There is none when
the range starts in an empty line. Tabs and other control characters take no column
for the marks. -/
def excerpt? (text : List Char) (start stop : Nat) : Option Excerpt :=
  let (before, rest) := splitAtByte start text
  let (range, _) := splitAtByte (stop - start) rest
  let lead := (before.reverse.takeWhile insideLine).reverse
  let line := lead ++ rest.takeWhile insideLine
  if line.isEmpty then none
  else some {
    line := before.count '\n' + 1
    column := lead.length + 1
    chars := line
    marksStart := columnsOf 0 lead
    marks := max 1 (columnsOf 0 (range.takeWhile insideLine)) }

/-- The direction marks and joiners that are left out of a shown line. -/
def invisibleControls : CodeRanges := [(0x200d, 0x200d), (0x202a, 0x202e), (0x2066, 0x2069)]

/-- The number of spaces that a tab is shown as. -/
def tabSize : Nat := 4

/-- The characters of a line as a report shows them. -/
def shownChars (line : List Char) : List Char :=
  line.flatMap fun c =>
    if c = '\t' then List.replicate tabSize ' '
    else if invisibleControls.contains c then []
    else [c]

/-- The columns that the blanks at the front of a line are shown in. -/
def indentOf (line : List Char) : Nat :=
  (line.takeWhile blanks.contains).foldr
    (fun c columns => (if c = '\t' then tabSize else 1) + columns) 0

/-- The characters at the front of a line that fit into a number of columns. Here a
control character takes one. -/
def takeColumns : Nat → List Char → List Char
  | _, [] => []
  | room, c :: cs =>
    let width := (columnWidth? c).getD 1
    if width ≤ room then c :: takeColumns (room - width) cs else []

/-- What is taken fits. -/
theorem columnsOf_takeColumns_le (room : Nat) (chars : List Char) :
    columnsOf 1 (takeColumns room chars) ≤ room := by
  induction chars generalizing room with
  | nil => exact Nat.zero_le _
  | cons c cs ih =>
    simp only [takeColumns]
    split
    · have h := ih (room - (columnWidth? c).getD 1)
      simp only [columnsOf, List.foldr_cons] at h ⊢
      omega
    · exact Nat.zero_le _

namespace Excerpt

/-- The number of columns of the line number. -/
def margin (e : Excerpt) : Nat := (toString e.line).length

/-- The columns before the code: the line number, the gutter and the spaces around it. -/
def codeColumn (e : Excerpt) : Nat := e.margin + 3

/-- The number of columns of a report. -/
def reportWidth : Nat := 140

/-- The columns that there is room for beside the frame, which is as wide as the
number of the line below needs it. -/
def room (e : Excerpt) : Nat := reportWidth - ((toString (e.line + 1)).length + 3)

/-- The window through which the line is shown. Nothing is shown of a line of blanks. -/
def window (e : Excerpt) (label : String) : LineWindow :=
  if e.chars.all blanks.contains then .behind e.room (byteCount (shownChars e.chars))
  else .fit e.room {
    indent := indentOf e.chars
    marksStart := e.marksStart
    marksStop := e.marksStart + e.marks
    labelStop := e.marksStart + e.marks + label.utf8ByteSize + 1
    length := byteCount e.chars }

/-- The gutter without a line number. -/
def gutter (e : Excerpt) : Row := Row.write [] (e.margin + 1) .frame ['|']

/-- The dots that stand for a cut part of a line. -/
def dots : List Char := ['.', '.', '.']

/-- The row with the line. -/
def codeRow (e : Excerpt) (w : LineWindow) : Row :=
  let chars := shownChars e.chars
  let length := byteCount chars
  let code := takeColumns (w.shown length) (chars.drop (w.skipped length))
  let row := (Row.ofText .frame (toString e.line ++ " |")).write e.codeColumn .plain code
  let row := if w.cutsFront then row.write e.codeColumn .frame dots else row
  if w.cutsBack length then row.write (e.codeColumn + columnsOf 1 code - 3) .frame dots else row

/-- The columns of the code that are hidden before the window. -/
def hidden (e : Excerpt) (w : LineWindow) : Nat :=
  let chars := shownChars e.chars
  columnsOf 1 (chars.take (w.skipped (byteCount chars)))

/-- The row below the line, with the marks and the label. Marks of hidden columns pile
up at the left end of the row and replace what is there. -/
def marksRow (e : Excerpt) (w : LineWindow) (label : String) : Row :=
  let hidden := e.hidden w
  let labelColumn := e.codeColumn + (e.marksStart + e.marks + 1 - hidden)
  (List.range' e.marksStart e.marks).foldl
    (fun row place => row.put (e.codeColumn + place - hidden) ⟨'^', .fault⟩)
    (e.gutter.write labelColumn .fault label.toList)

end Excerpt

namespace Diagnostic

/-- The row that names the level and the message. -/
def headline (d : Diagnostic) : Row :=
  Row.ofText .fault "error" ++
    if d.message.isEmpty then [] else Row.ofText .plain ": " ++ Row.ofText .strong d.message

/-- The row that names the place, behind a margin. -/
def placeRow (path : String) (margin line column : Nat) : Row :=
  (Row.write [] margin .frame "-->".toList).write (margin + 4) .plain path.toList ++
    Row.ofText .plain (":" ++ toString line ++ ":" ++ toString column)

/-- The rows of the report on a diagnostic. -/
def reportRows (d : Diagnostic) (path text : String) : List Row :=
  let (start, stop) := d.clamped text.utf8ByteSize
  match excerpt? text.toList start stop with
  | none =>
    let gutter := Row.write [] 1 .frame ['|']
    [d.headline, placeRow path 0 1 1, gutter, gutter]
  | some e =>
    let w := e.window d.label
    [d.headline, placeRow path e.margin e.line e.column, e.gutter, e.codeRow w,
      e.marksRow w d.label, e.gutter]

/-- The report on a diagnostic, without a line feed at its end. -/
def report (d : Diagnostic) (palette : Palette) (path text : String) : String :=
  "\n".intercalate ((d.reportRows path text).map (Row.text palette))

/-- The report as it is written to a terminal. -/
def terminalReport (d : Diagnostic) (path text : String) : String :=
  d.report .styled path text ++ "\n"

end Diagnostic

end ConcreteSyntax
