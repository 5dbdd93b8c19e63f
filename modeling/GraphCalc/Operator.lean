/-!
# Operators

The operators that an expression can be computed with. Each has a name, under which expressions
mention it, and a number of operands. `ofName?_name` says that the name determines the operator.
-/

namespace GraphCalc

/-- Change of sign, sine and cosine of one number, and the arithmetic of two. -/
inductive Operator where
  | negate
  | sin
  | cos
  | add
  | sub
  | mul
  | div
  | pow
  deriving DecidableEq, Repr, Inhabited

namespace Operator

/-- All operators, the unary ones first. -/
def all : List Operator := [negate, sin, cos, add, sub, mul, div, pow]

/-- The name that expressions use. -/
def name : Operator → String
  | negate => "negate"
  | sin => "sin"
  | cos => "cos"
  | add => "+"
  | sub => "-"
  | mul => "*"
  | div => "/"
  | pow => "^"

/-- The operator of this name. -/
def ofName? (s : String) : Option Operator := all.find? fun op => op.name == s

/-- How many operands the operator takes. -/
def arity : Operator → Nat
  | negate | sin | cos => 1
  | add | sub | mul | div | pow => 2

/-- The value at these operands, if their number is right. The arithmetic is that of floats: a
division by zero or a power outside its domain is a value, not a failure. -/
def compute? : Operator → List Float → Option Float
  | negate, [a] => some (-a)
  | sin, [a] => some a.sin
  | cos, [a] => some a.cos
  | add, [a, b] => some (a + b)
  | sub, [a, b] => some (a - b)
  | mul, [a, b] => some (a * b)
  | div, [a, b] => some (a / b)
  | pow, [a, b] => some (a.pow b)
  | _, _ => none

/-- Whether the name is written between the two operands. -/
def isInfix (op : Operator) : Bool := op.arity == 2

/-- Whether simplification may compute the operator. The others stay in the expression, so that
`1 / 3` is shown as it was entered. -/
def isFoldable : Operator → Bool
  | negate | add | sub | mul => true
  | sin | cos | div | pow => false

/-- Every operator is found by its name. -/
theorem ofName?_name (op : Operator) : ofName? op.name = some op := by
  cases op <;> decide

/-- An operator is found by its own name only. -/
theorem name_of_ofName? {s : String} {op : Operator} (h : ofName? s = some op) : op.name = s := by
  simpa using List.find?_some h

/-- An operator has a value exactly at as many operands as its arity. -/
theorem isSome_compute? (op : Operator) (xs : List Float) :
    (op.compute? xs).isSome = (xs.length == op.arity) := by
  rcases xs with _ | ⟨a, _ | ⟨b, _ | ⟨c, xs⟩⟩⟩ <;> cases op <;> simp [compute?, arity]

/-- There is a value only at as many operands as the arity says. -/
theorem length_of_compute? {op : Operator} {xs : List Float} {v : Float}
    (h : op.compute? xs = some v) : xs.length = op.arity := by
  have hsome := op.isSome_compute? xs
  rwa [h, Option.isSome_some, eq_comm, beq_iff_eq] at hsome

end Operator

end GraphCalc
