import GraphCalc.EvalError
import GraphCalc.Expr.Basic
import GraphCalc.Store

/-!
# Evaluation

An expression has a value under bindings of names to expressions. A variable has the value of the
expression it is bound to, so bindings may be symbolic, and may even lead back to themselves. The
nesting of an evaluation, through operands and through bindings alike, is bounded by a limit:
`evaluate b limit e` fails with `tooDeep limit` where it would go deeper.

Operands are evaluated from left to right, and the first failure is the result.
-/

namespace GraphCalc

/-- The expressions that names are bound to. -/
abbrev Bindings := Store String Expr

/-- The nesting allowed where no limit is asked for. -/
def defaultDepth : Nat := 1000

namespace Bindings

/-- The value of an expression within a budget of levels, the expression's own included. The limit
is only quoted in the error. -/
def evaluateWithin (b : Bindings) (limit : Nat) : Nat → Expr → Except EvalError Float
  | 0, _ => .error (.tooDeep limit)
  | _ + 1, .number v => .ok v
  | n + 1, .var x =>
    match b.get? x with
    | none => .error (.undefinedVariable x)
    | some e => b.evaluateWithin limit n e
  | n + 1, .operation f es =>
    match Operator.ofName? f with
    | none => .error (.unknownOperator f)
    | some op =>
      if es.length = op.arity then do
        let vs ← es.mapM (b.evaluateWithin limit n)
        match op.compute? vs with
        | some v => return v
        | none => throw (.malformed f op.arity)
      else .error (.malformed f op.arity)

/-- The value of an expression, with `limit` levels below the expression itself. -/
def evaluate (b : Bindings) (limit : Nat) (e : Expr) : Except EvalError Float :=
  b.evaluateWithin limit (limit + 1) e

end Bindings

end GraphCalc
