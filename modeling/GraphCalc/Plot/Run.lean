import GraphCalc.Log.Event
import GraphCalc.Plot.Chart
import GraphCalc.Plot.Sweep
import GraphCalc.Simplification

/-!
# Plots

`plot(e, x, min, max, step)` samples `e` for `x` from `min` to `max`. A run checks the request
(`Plan.ofExpr`), sweeps, unbinds the variable, has the chart drawn, and answers with `e` simplified
under the bindings it started from. Its `Report` holds all that can be seen afterwards: the result,
the bindings, the state of the renderer and the events in order.
-/

namespace GraphCalc

/-- A checked request. -/
structure Plan where
  expr : Expr
  name : String
  range : Range

/-- Reads a request and computes its range. The checks are made in this order: the form of the
request, the variable, the values of the minimum, the maximum and the step, the order of the two
bounds, the sign of the step. A NaN passes the last two. -/
def Plan.ofExpr (o : PlotOptions) (b : Bindings) (node : Expr) : Except EvalError Plan :=
  match node.operandsOf? "plot" 5 with
  | some [e, .var x, min, max, step] =>
    if b.contains x then .error (.alreadyDefined x)
    else do
      let min ← b.evaluate o.maxDepth min
      let max ← b.evaluate o.maxDepth max
      let step ← b.evaluate o.maxDepth step
      if max < min then .error (.emptyRange min max)
      else if step ≤ 0.0 then .error (.nonPositiveStep step)
      else .ok ⟨e, x, ⟨min, max, step⟩⟩
  | _ => .error (.malformed "plot" 5)

/-- What a successful plot answers: the simplified expression, the variable and the columns. -/
structure Outcome where
  simplified : Expr
  name : String
  xs : Array Float
  ys : Array Float

/-- What can be seen after a run. -/
structure Report (σ : Type) where
  result : Except EvalError Outcome
  bindings : Bindings
  renderer : σ
  log : List Event

namespace Plan

/-- The title of every chart. -/
def title : String := "Plot"

/-- The label of the values. -/
def valueLabel : String := "output"

/-- What is told before the sweep. -/
def opening (plan : Plan) (s : Stepping) : List Event :=
  (if plan.range.isStalled then [.stalled plan.name plan.range] else [])
    ++ [.plotting plan.expr plan.name plan.range s]

/-- What is told of the samples: every position that has a value. -/
def sampled (plan : Plan) (st : Sweep.Progress) : List Event :=
  (st.xs.zip st.ys).toList.map fun (x, y) => .sampled plan.name x y

/-- The bindings after a failed sweep, and what is told of the variable. -/
def afterFailure (plan : Plan) (o : PlotOptions) (st : Sweep.Progress) : Bindings × List Event :=
  if o.unbindOnFailure then
    match st.bindings.remove? plan.name with
    | some (last, b) => (b, [.unboundAfterFailure plan.name last])
    | none => (st.bindings, [])
  else (st.bindings, [.leftBound st.xs.size plan.name])

/-- The bindings after a complete sweep, and what is told of the variable. -/
def afterSuccess (plan : Plan) (st : Sweep.Progress) : Bindings × List Event :=
  match st.bindings.remove? plan.name with
  | some (last, b) => (b, [.unbound plan.name last])
  | none => (st.bindings, [])

/-- The chart of a complete sweep. -/
def chart (plan : Plan) (st : Sweep.Progress) : Chart :=
  ⟨title, plan.name, valueLabel, st.xs, st.ys⟩

/-- What follows a complete sweep: the chart is drawn once, and then the expression simplified. -/
def complete (plan : Plan) (o : PlotOptions) (draw : Renderer σ) (s : σ) (st : Sweep.Progress) :
    Report σ :=
  let (b, told) := plan.afterSuccess st
  let log := plan.opening o.stepping ++ plan.sampled st ++ told ++ [.samplesTaken st.xs.size]
  match draw (plan.chart st) s with
  | (.error message, s) => ⟨.error (.renderFailed message), b, s, log⟩
  | (.ok (), s) =>
    let r := b.simplify o.maxDepth plan.expr
    ⟨r.map fun e => ⟨e, plan.name, st.xs, st.ys⟩, b, s, log ++ Event.ofSimplification plan.expr r⟩

/-- What follows a failed sweep: nothing is drawn. -/
def abandon (plan : Plan) (o : PlotOptions) (s : σ) (st : Sweep.Progress) (err : EvalError) :
    Report σ :=
  let (b, told) := plan.afterFailure o st
  ⟨.error err, b, s, plan.opening o.stepping ++ plan.sampled st ++ told⟩

/-- The sweep of a plan from its first position. -/
def sweep (plan : Plan) (o : PlotOptions) (fuel : Nat) (b : Bindings) :
    Option (Except EvalError Unit × Sweep.Progress) :=
  Sweep.sweep o plan.expr plan.name plan.range fuel 0 (plan.range.start o.stepping) ⟨b, #[], #[]⟩

end Plan

/-- Carries out a plot. `none` means that the sweep has not ended after `fuel` positions. -/
def PlotOptions.run (o : PlotOptions) (draw : Renderer σ) (fuel : Nat) (b : Bindings) (s : σ)
    (node : Expr) : Option (Report σ) :=
  match Plan.ofExpr o b node with
  | .error err => some ⟨.error err, b, s, []⟩
  | .ok plan =>
    (plan.sweep o fuel b).map fun
      | (.error err, st) => plan.abandon o s st err
      | (.ok (), st) => plan.complete o draw s st

end GraphCalc
