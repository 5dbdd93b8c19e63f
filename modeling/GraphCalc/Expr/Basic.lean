import GraphCalc.Operator

/-!
# Expressions

An expression is a number, a variable, or an operation: a name with a list of operands. The name of
an operation is any text. Which names mean something is decided where the expression is used, so
that `plot(…)` or a function nobody knows are expressions too.
-/

namespace GraphCalc

/-- A number, a variable, or an operation with its operands in order. Operands that are kept in a
`Sequence` are used in the same way (`operation_of_history`). -/
inductive Expr where
  | number (value : Float)
  | var (name : String)
  | operation (name : String) (operands : List Expr)
  deriving Repr, Inhabited

namespace Expr

/-- Whether the expression is a number. -/
def isNumber : Expr → Bool
  | number _ => true
  | _ => false

/-- Whether the expression is a variable. -/
def isVariable : Expr → Bool
  | var _ => true
  | _ => false

/-- Whether the expression is an operation, known or not. -/
def isOperation : Expr → Bool
  | operation .. => true
  | _ => false

/-- The value of a number. -/
def value? : Expr → Option Float
  | number v => some v
  | _ => none

/-- The name of a variable or an operation. -/
def name? : Expr → Option String
  | number _ => none
  | var x => some x
  | operation f _ => some f

/-- The operands of an operation. -/
def operands? : Expr → Option (List Expr)
  | operation _ es => some es
  | _ => none

/-- The operands of an operation with this name and this many of them. -/
def operandsOf? (name : String) (arity : Nat) : Expr → Option (List Expr)
  | operation f es => if f = name ∧ es.length = arity then some es else none
  | _ => none

/-! ## Comparison -/

mutual

/-- Same shape, same names, and numbers that are equal as floats: a NaN differs from itself, and
the two zeros are equal. -/
def equal : Expr → Expr → Bool
  | number v, number w => v == w
  | var x, var y => x == y
  | operation f es, operation g fs => f == g && equalAll es fs
  | _, _ => false

/-- Two lists of the same length, equal at every position. -/
def equalAll : List Expr → List Expr → Bool
  | [], [] => true
  | e :: es, f :: fs => equal e f && equalAll es fs
  | _, _ => false

end

instance : BEq Expr := ⟨equal⟩

end Expr

end GraphCalc
