import DrawnModels.Text.Appearance

/-!
# Tables in boxes

A table is drawn with lines around it, between its columns and under its first row. A cell may
have several lines of text. Cells are aligned to the left and to the top and filled with blanks,
each column is as wide as its widest line, and one blank stands at either side of a cell.
-/

namespace DrawnModels

namespace Text

/-- The lines of a cell, from the top. -/
abbrev Cell := List String

def Cell.width (c : Cell) : Nat :=
  (c.map Text.width).foldl max 0

/-- A line filled with blanks up to a width, and one blank at either side. -/
def padded (w : Nat) (line : String) : String :=
  " " ++ line ++ .ofList (List.replicate (w - width line) ' ') ++ " "

def columnWidth (rows : List (List Cell)) (i : Nat) : Nat :=
  (rows.map fun row => (row.getD i []).width).foldl max 0

def rule (widths : List Nat) (left cross right : String) : String :=
  left ++ join cross (widths.map fun w => .ofList (List.replicate (w + 2) '─')) ++ right

def rowLines (widths : List Nat) (row : List Cell) : List String :=
  let height := (row.map List.length).foldl max 1
  (List.range height).map fun k =>
    "│" ++ join "│" (widths.mapIdx fun i w => padded w ((row.getD i []).getD k "")) ++ "│"

/-- A table with a header row. Rows that are shorter than the header end with empty cells. -/
def boxed (header : List Cell) (rows : List (List Cell)) : String :=
  let widths := (List.range header.length).map (columnWidth (header :: rows))
  join "\n" <|
    rule widths "╭" "┬" "╮" :: rowLines widths header ++
      rule widths "├" "┼" "┤" :: rows.flatMap (rowLines widths) ++
      [rule widths "╰" "┴" "╯"]

end Text

end DrawnModels
