import GraphCalc.Evaluation
import GraphCalc.Plot.Range

/-!
# Sweeps

A sweep goes through the positions of a range. At each it binds the plotted variable to the position
and evaluates the expression, until a position is not within the maximum, a sample fails, or the
number of samples allowed is reached. A sweep need not end: the step may be too small to move the
variable, or the maximum infinite. `sweep` therefore has fuel, one unit for a position, and running
out of it is `none`, apart from every result.
-/

namespace GraphCalc

/-- How a plot is carried out. -/
structure PlotOptions where
  stepping : Stepping
  /-- whether a failed sample takes the binding of the variable with it -/
  unbindOnFailure : Bool
  /-- the nesting allowed in evaluations and in the simplification -/
  maxDepth : Nat
  /-- the number of samples allowed -/
  maxSamples : Option Nat
  deriving DecidableEq, Repr

/-- Accumulated steps, a failed sample leaves the variable bound, and any number of samples. -/
def PlotOptions.default : PlotOptions := ⟨.accumulate, false, defaultDepth, none⟩

namespace Sweep

/-- How far a sweep has got: the bindings, the positions bound so far and the values found there. A
position whose sample fails has no value. Columns that are kept in a `Sequence` are the same
(`stored_of_run`). -/
structure Progress where
  bindings : Bindings
  xs : Array Float
  ys : Array Float

/-- The limit that forbids a further sample. -/
def exceeded? (o : PlotOptions) (taken : Nat) : Option Nat :=
  o.maxSamples.filter (· ≤ taken)

/-- Takes the sample at position `p`. The binding and the position stay when the evaluation fails,
and nothing happens when no further sample is allowed. -/
def sample (o : PlotOptions) (e : Expr) (x : String) (p : Float) (st : Progress) :
    Except EvalError Unit × Progress :=
  match exceeded? o st.xs.size with
  | some limit => (.error (.tooManySamples limit), st)
  | none =>
    let b : Bindings := st.bindings.put x (.number p)
    match b.evaluate o.maxDepth e with
    | .error err => (.error err, ⟨b, st.xs.push p, st.ys⟩)
    | .ok y => (.ok (), ⟨b, st.xs.push p, st.ys.push y⟩)

/-- Samples from position `p` on, which is the one of index `k`. -/
def sweep (o : PlotOptions) (e : Expr) (x : String) (r : Range) :
    Nat → Nat → Float → Progress → Option (Except EvalError Unit × Progress)
  | 0, _, _, _ => none
  | fuel + 1, k, p, st =>
    if p ≤ r.max then
      match sample o e x p st with
      | (.error err, st) => some (.error err, st)
      | (.ok (), st) => sweep o e x r fuel (k + 1) (r.next k p o.stepping) st
    else some (.ok (), st)

end Sweep

end GraphCalc
