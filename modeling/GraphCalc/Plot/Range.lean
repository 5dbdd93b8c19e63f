/-!
# Ranges and positions

The positions at which a plot samples its expression: from the minimum of a range upwards in steps,
as long as the maximum is not passed. Adding the step again and again collects rounding errors,
computing each position from its index does not, so the two kinds of stepping may disagree about
the last position.
-/

namespace GraphCalc

/-- How one position follows from another. -/
inductive Stepping where
  /-- the step is added to the position before -/
  | accumulate
  /-- the position is computed from its index -/
  | indexed
  deriving DecidableEq, Repr, Inhabited

namespace Stepping

/-- Both kinds of stepping. -/
def all : List Stepping := [accumulate, indexed]

/-- The name in settings. -/
def name : Stepping → String
  | accumulate => "accumulate"
  | indexed => "indexed"

/-- The kind of stepping of this name. -/
def ofName? (s : String) : Option Stepping := all.find? fun t => t.name == s

end Stepping

/-- Where a plot begins, how far it goes and in which steps. The bounds belong to it. -/
structure Range where
  min : Float
  max : Float
  step : Float
  deriving DecidableEq, Repr

namespace Range

/-- The first position. -/
def start (r : Range) : Stepping → Float
  | .accumulate => r.min
  | .indexed => r.min + Float.ofNat 0 * r.step

/-- The position after `p`, which is the one of index `k`. -/
def next (r : Range) (k : Nat) (p : Float) : Stepping → Float
  | .accumulate => p + r.step
  | .indexed => r.min + Float.ofNat (k + 1) * r.step

/-- The position of an index. -/
def position (r : Range) (s : Stepping) : Nat → Float
  | 0 => r.start s
  | k + 1 => r.next k (r.position s k) s

/-- Whether the step is lost when it is added to the minimum. -/
def isStalled (r : Range) : Bool := r.min + r.step == r.min

end Range

end GraphCalc
