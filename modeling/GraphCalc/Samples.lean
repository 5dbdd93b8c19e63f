import GraphCalc.Decimal.Text
import GraphCalc.Text.Boxed
import GraphCalc.Text.Csv

/-!
# Samples as text

The two columns of a plot, row by row: as comma-separated text under given labels, and as a table.
Where the columns differ in length the shorter one decides.
-/

namespace GraphCalc.Samples

/-- The rows of two columns. -/
def rows (xs ys : List Float) : List (List String) :=
  List.zipWith (fun x y => [Decimal.plain x, Decimal.plain y]) xs ys

/-- The samples as comma-separated text. -/
def csv (xLabel yLabel : String) (xs ys : List Float) : String :=
  Text.Csv.text ([xLabel, yLabel] :: rows xs ys)

/-- The samples as a table. -/
def table (xs ys : List Float) : String :=
  Text.Boxed.text (["x", "y"] :: rows xs ys)

end GraphCalc.Samples
