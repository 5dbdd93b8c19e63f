/-!
# Comma-separated text

A row is its fields with commas between them and a line feed at the end. A field that holds a comma,
a quote or the end of a line stands between quotes, with every quote inside written twice.
-/

namespace GraphCalc.Text.Csv

/-- Whether the character forces quotes around its field. -/
def isSpecial (c : Char) : Bool := c == ',' || c == '"' || c == '\n' || c == '\r'

/-- A field, in quotes if it needs them. -/
def field (cs : List Char) : List Char :=
  if cs.any isSpecial then
    '"' :: cs.flatMap (fun c => if c = '"' then ['"', '"'] else [c]) ++ ['"']
  else cs

/-- A row. -/
def row (fields : List String) : List Char :=
  List.intercalate [','] (fields.map fun f => field f.toList) ++ ['\n']

/-- Rows one below the other. -/
def text (rows : List (List String)) : String := String.ofList (rows.flatMap row)

end GraphCalc.Text.Csv
