import GraphCalc.Decimal.Text
import GraphCalc.Expr.Basic
import GraphCalc.Text.Quoted

/-!
# Writing expressions

`text` is the usual notation: a binary operator stands between its two operands, in parentheses, and
everything else is a call. `outline` names the form of every node. Both put their output in front of
the text that follows, so that writing takes time linear in the result.
-/

namespace GraphCalc.Expr

/-- Whether the operation is written with its name between the operands. A symbol with any other
number of operands is written as a call. -/
def isInfix (name : String) (operands : List Expr) : Bool :=
  (Operator.ofName? name).any Operator.isInfix && operands.length == 2

mutual

/-- The text of an expression, followed by `rest`. -/
def write : Expr → List Char → List Char
  | number v, rest => (Decimal.plain v).toList ++ rest
  | var x, rest => x.toList ++ rest
  | operation f es, rest =>
    if isInfix f es then
      '(' :: writeList (' ' :: f.toList ++ [' ']) es (')' :: rest)
    else
      f.toList ++ '(' :: writeList [',', ' '] es (')' :: rest)

/-- The texts of a list, with a separator between them, followed by `rest`. -/
def writeList (separator : List Char) : List Expr → List Char → List Char
  | [], rest => rest
  | e :: es, rest => write e (writeTail separator es rest)

/-- The texts of the further items of a list, each after a separator, followed by `rest`. -/
def writeTail (separator : List Char) : List Expr → List Char → List Char
  | [], rest => rest
  | e :: es, rest => separator ++ write e (writeTail separator es rest)

end

/-- The expression in the usual notation. -/
def text (e : Expr) : String := String.ofList (e.write [])

instance : ToString Expr := ⟨text⟩

mutual

/-- The outline of an expression, followed by `rest`. -/
def writeOutline : Expr → List Char → List Char
  | number v, rest => "Number(".toList ++ (Decimal.explicit v).toList ++ ')' :: rest
  | var x, rest => "Variable(".toList ++ (Text.quote x).toList ++ ')' :: rest
  | operation f es, rest =>
    "Operation(".toList ++ (Text.quote f).toList ++ ", [".toList ++
      writeOutlines es (']' :: ')' :: rest)

/-- The outlines of a list, with commas between them, followed by `rest`. -/
def writeOutlines : List Expr → List Char → List Char
  | [], rest => rest
  | e :: es, rest => writeOutline e (writeOutlineTail es rest)

/-- The outlines of the further items of a list, each after a comma, followed by `rest`. -/
def writeOutlineTail : List Expr → List Char → List Char
  | [], rest => rest
  | e :: es, rest => ',' :: ' ' :: writeOutline e (writeOutlineTail es rest)

end

/-- The expression with the form of every node spelt out: `Operation("+", [Number(1.0)])`. -/
def outline (e : Expr) : String := String.ofList (e.writeOutline [])

end GraphCalc.Expr
