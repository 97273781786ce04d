/-!
# Rows of a screen

A row is a list of cells, each with a character and a style. Writing at a column
replaces the cells from there on, and spaces fill a row that does not reach the
column. A palette says how the styles look, and gives the text of a row.
-/

namespace ConcreteSyntax

/-- The styles of the parts of a report. -/
inductive Style where
  /-- Text without emphasis. -/
  | plain
  /-- The frame: the arrow, the gutter, line numbers and the dots of a cut line. -/
  | frame
  /-- What marks the fault: the level, the marks and the label. -/
  | fault
  /-- The message. -/
  | strong
  deriving DecidableEq, Repr, Inhabited

/-- One place of a row. -/
structure Cell where
  /-- The character at the place. -/
  char : Char
  /-- The style of the character. -/
  style : Style
  deriving DecidableEq, Repr, Inhabited

/-- A row of a screen. -/
abbrev Row : Type := List Cell

namespace Row

/-- A place where nothing has been written. -/
def emptyCell : Cell := ⟨' ', .plain⟩

/-- The cells of a text in one style. -/
def ofText (style : Style) (text : String) : Row := text.toList.map fun c => ⟨c, style⟩

/-- A row with at least a given number of cells. -/
def padded (row : Row) (size : Nat) : Row := row ++ List.replicate (size - row.length) emptyCell

/-- A row with a new cell at a column. -/
def put (row : Row) (column : Nat) (cell : Cell) : Row :=
  (row.padded (column + 1)).set column cell

/-- A row with characters written from a column on. -/
def write (row : Row) (column : Nat) (style : Style) : List Char → Row
  | [] => row
  | c :: cs => write (row.put column ⟨c, style⟩) (column + 1) style cs

end Row

/-- How the styles look: each one wraps the text that has it. -/
structure Palette where
  /-- The look of a text in a style. -/
  wrap : Style → String → String

namespace Palette

/-- Leaves every text as it is. -/
def plain : Palette := ⟨fun _ text => text⟩

/-- The escape that sets one attribute of a terminal. -/
def escape (code : String) : String := "\x1b[" ++ code ++ "m"

/-- The escapes that a style begins with: bold bright blue for the frame, bold bright
red for the fault and bold for the message. -/
def attributes : Style → String
  | .plain => ""
  | .frame => escape "1" ++ escape "94"
  | .fault => escape "1" ++ escape "91"
  | .strong => escape "1"

/-- Sets the attributes of a style for its text, and clears them behind it. -/
def styled : Palette where
  wrap style text :=
    if style = .plain then text else attributes style ++ text ++ escape "0"

end Palette

namespace Row

/-- A style and the characters of neighbouring cells that have it. -/
structure Run where
  /-- The style of all the cells. -/
  style : Style
  /-- The characters of the cells. -/
  chars : List Char
  deriving DecidableEq, Repr, Inhabited

/-- The runs with one more cell before them. -/
def addCell (cell : Cell) : List Run → List Run
  | [] => [⟨cell.style, [cell.char]⟩]
  | run :: runs =>
    if cell.style = run.style then ⟨run.style, cell.char :: run.chars⟩ :: runs
    else ⟨cell.style, [cell.char]⟩ :: run :: runs

/-- The runs of a row. -/
def runs (row : Row) : List Run := row.foldr addCell []

/-- The text of a row: each run is wrapped as a whole. -/
def text (palette : Palette) (row : Row) : String :=
  String.join (row.runs.map fun run => palette.wrap run.style (String.ofList run.chars))

/-- A cell adds its character to the runs behind it. -/
theorem chars_addCell (cell : Cell) (runs : List Run) :
    (addCell cell runs).flatMap Run.chars = cell.char :: runs.flatMap Run.chars := by
  cases runs with
  | nil => rfl
  | cons run runs =>
    simp only [addCell]
    split <;> rfl

/-- The runs of a row hold its characters in their order. -/
theorem chars_runs (row : Row) : row.runs.flatMap Run.chars = row.map Cell.char := by
  induction row with
  | nil => rfl
  | cons cell row ih =>
    have h := chars_addCell cell (runs row)
    rw [ih] at h
    exact h

/-- Joined texts hold the characters of their parts. -/
theorem join_ofList (runs : List Run) :
    String.join (runs.map fun run => String.ofList run.chars) =
      String.ofList (runs.flatMap Run.chars) := by
  induction runs with
  | nil => rfl
  | cons run runs ih =>
    rw [List.map_cons, String.join_cons, ih, List.flatMap_cons, String.ofList_append]

/-- Without styles the text of a row is its characters. -/
theorem text_plain (row : Row) : row.text .plain = String.ofList (row.map Cell.char) :=
  (join_ofList row.runs).trans (congrArg String.ofList row.chars_runs)

end Row

end ConcreteSyntax
