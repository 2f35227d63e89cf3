import EngineLink.Text.Width

/-!
# Tables of text

A table has a row of headings and rows of cells in a frame. A cell may hold several lines; a
column is as wide as its widest line, with one space on each side.

Read `Table.columnWidths` and `Table.text` first.
-/

namespace EngineLink.Text

/-- The lines of a text, one more than it has line feeds. -/
def lines : List Char → List (List Char)
  | [] => [[]]
  | c :: rest =>
    if c = '\n' then [] :: lines rest
    else
      match lines rest with
      | [] => [[c]]
      | first :: later => (c :: first) :: later

/-- A table of cells under headings. -/
structure Table where
  headings : List String
  rows : List (List String)
  deriving DecidableEq

namespace Table

/-- The characters of a horizontal rule: its left end, its stroke, what stands between two
columns, and its right end. -/
structure Rule where
  left : Char
  stroke : Char
  between : Char
  right : Char

/-- The rule above the headings. -/
def topRule : Rule := ⟨'┌', '─', '┬', '┐'⟩

/-- The rule below the headings. -/
def headingRule : Rule := ⟨'╞', '═', '╪', '╡'⟩

/-- The rule between two rows. -/
def rowRule : Rule := ⟨'├', '╌', '┼', '┤'⟩

/-- The rule below the last row. -/
def bottomRule : Rule := ⟨'└', '─', '┴', '┘'⟩

/-- The lines of a cell. -/
def cellLines (cell : String) : List (List Char) :=
  lines cell.toList

/-- The columns of the widest line of a cell. -/
def cellWidth (cell : String) : Nat :=
  ((cellLines cell).map width).foldl max 0

/-- The larger of two widths, column by column. -/
def widen : List Nat → List Nat → List Nat
  | [], more => more
  | widths, [] => widths
  | a :: widths, b :: more => max a b :: widen widths more

/-- The width of every column. -/
def columnWidths (t : Table) : List Nat :=
  (t.headings :: t.rows).foldl (fun widths row => widen widths (row.map cellWidth)) []

/-- A horizontal rule over columns of these widths. -/
def ruleLine (r : Rule) (widths : List Nat) : List Char :=
  let strokes := widths.map fun w => List.replicate (w + 2) r.stroke
  r.left :: (strokes.intersperse [r.between]).flatten ++ [r.right]

/-- A line of a cell with spaces around it, filled up to a width. -/
def padded (w : Nat) (line : List Char) : List Char :=
  ' ' :: line ++ List.replicate (w - width line + 1) ' '

/-- One line of a row, cell by cell. -/
def rowLine (widths : List Nat) (cells : List (List Char)) : List Char :=
  '│' :: ((List.zipWith padded widths cells).intersperse ['┆']).flatten ++ ['│']

/-- The lines of a row: as many as its highest cell has. -/
def rowLines (widths : List Nat) (row : List String) : List (List Char) :=
  let cells := row.map cellLines
  let height := (cells.map List.length).foldl max 0
  (List.range height).map fun i => rowLine widths (cells.map fun cell => (cell[i]?).getD [])

/-- The lines of a table. -/
def allLines (t : Table) : List (List Char) :=
  let widths := t.columnWidths
  let rows := t.rows.map (rowLines widths)
  [ruleLine topRule widths] ++ rowLines widths t.headings ++ [ruleLine headingRule widths] ++
    (rows.intersperse [ruleLine rowRule widths]).flatten ++ [ruleLine bottomRule widths]

/-- A table as text without a line feed at its end. -/
def text (t : Table) : String :=
  String.ofList (t.allLines.intersperse ['\n']).flatten

end Table

end EngineLink.Text
