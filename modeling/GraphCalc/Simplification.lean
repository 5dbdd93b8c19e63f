import GraphCalc.Evaluation

/-!
# Simplification

Simplifying an expression computes what is known and leaves the rest in place. Of the operators only
the foldable ones are computed, and only when all operands are numbers. A bound variable becomes a
number if its binding simplifies to one; otherwise the binding is taken as it stands, not in its
simplified form. A variable without binding stays.

Only nesting beyond the limit makes it fail. Operands that are numbers already do not count as a
level.
-/

namespace GraphCalc

/-- The operation, or its value if the operator is foldable and every operand is a number. -/
def Expr.fold (f : String) (es : List Expr) : Expr :=
  match Operator.ofName? f, es.mapM Expr.value? with
  | some op, some vs =>
    match op.isFoldable, op.compute? vs with
    | true, some v => .number v
    | _, _ => .operation f es
  | _, _ => .operation f es

namespace Bindings

/-- The simplified expression within a budget of levels, the expression's own included. The limit is
only quoted in the error. -/
def simplifyWithin (b : Bindings) (limit : Nat) : Nat → Expr → Except EvalError Expr
  | 0, _ => .error (.tooDeep limit)
  | _ + 1, .number v => .ok (.number v)
  | n + 1, .var x =>
    match b.get? x with
    | none => .ok (.var x)
    | some e => do
      let s ← b.simplifyWithin limit n e
      return if s.isNumber then s else e
  | n + 1, .operation f es => do
    let ss ← es.mapM fun e => if e.isNumber then .ok e else b.simplifyWithin limit n e
    return Expr.fold f ss

/-- The simplified expression, with `limit` levels below the expression itself. -/
def simplify (b : Bindings) (limit : Nat) (e : Expr) : Except EvalError Expr :=
  b.simplifyWithin limit (limit + 1) e

end Bindings

end GraphCalc
