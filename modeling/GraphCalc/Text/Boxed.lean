/-!
# Boxed tables

A table with lines around all its cells and rounded corners. The cells of a column are as wide as
the widest of them, with one space to each side, and their text is to the left.
-/

namespace GraphCalc.Text.Boxed

/-- The characters of a line between two rows, or above or below all of them. -/
structure Rule where
  left : Char
  middle : Char
  right : Char

/-- The line above all rows. -/
def Rule.top : Rule := ⟨'╭', '┬', '╮'⟩
/-- The line between two rows. -/
def Rule.between : Rule := ⟨'├', '┼', '┤'⟩
/-- The line below all rows. -/
def Rule.bottom : Rule := ⟨'╰', '┴', '╯'⟩

/-- A line over columns of these widths. -/
def rule (r : Rule) (widths : List Nat) : String :=
  String.ofList
    (r.left :: List.intercalate [r.middle] (widths.map fun w => List.replicate (w + 2) '─')
      ++ [r.right])

/-- A cell with its text padded to a width. -/
def cell (width : Nat) (s : String) : String :=
  " " ++ s ++ String.ofList (List.replicate (width - s.length) ' ') ++ " "

/-- A row of cells. -/
def row (widths : List Nat) (cells : List String) : String :=
  "│" ++ String.intercalate "│" (List.zipWith cell widths cells) ++ "│"

/-- How wide each column has to be. -/
def widths (rows : List (List String)) : List Nat :=
  rows.foldl (fun ws cells => List.zipWith (fun w c => max w c.length) ws cells)
    (List.replicate ((rows.map List.length).max?.getD 0) 0)

/-- The table, without a line feed at its end. -/
def text (rows : List (List String)) : String :=
  let ws := widths rows
  String.intercalate "\n"
    (rule .top ws :: (rows.map (row ws)).intersperse (rule .between ws) ++ [rule .bottom ws])

end GraphCalc.Text.Boxed
