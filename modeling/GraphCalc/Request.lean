import GraphCalc.Log.Event
import GraphCalc.Simplification

/-!
# Requests

Some operations ask for a computation on their operand: `toDouble(e)` for the value of `e`, and
`simplify(e)` for the simplified `e`. Both are carried out within the default depth.
-/

namespace GraphCalc.Request

/-- The operand of a request with this name. -/
def operand (name : String) (node : Expr) : Except EvalError Expr :=
  match node.operandsOf? name 1 with
  | some [e] => .ok e
  | _ => .error (.malformed name 1)

/-- The value that `toDouble(e)` asks for, as a number. -/
def toDouble (b : Bindings) (node : Expr) : Except EvalError Expr := do
  let e ← operand "toDouble" node
  return .number (← b.evaluate defaultDepth e)

/-- The expression that `simplify(e)` asks for, and what is told about it. -/
def simplify (b : Bindings) (node : Expr) : Except EvalError Expr × List Event :=
  match operand "simplify" node with
  | .error err => (.error err, [])
  | .ok e =>
    let r := b.simplify defaultDepth e
    (r, Event.ofSimplification e r)

end GraphCalc.Request
