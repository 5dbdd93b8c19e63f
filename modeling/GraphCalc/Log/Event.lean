import GraphCalc.Expr.Text
import GraphCalc.Plot.Range

/-!
# Events

What the calculator tells about its work, as data: an event says what happened, and its level,
origin and wording are functions of it. So a statement about the log is a statement about events.
-/

namespace GraphCalc

/-- How much an event matters, the least first. -/
inductive Level where
  | debug
  | info
  | warn
  | error
  deriving DecidableEq, Repr, Inhabited

namespace Level

/-- All levels, the least first. -/
def all : List Level := [debug, info, warn, error]

/-- The name in settings. -/
def name : Level → String
  | debug => "debug"
  | info => "info"
  | warn => "warn"
  | error => "error"

/-- The level of this name. -/
def ofName? (s : String) : Option Level := all.find? fun l => l.name == s

/-- The name in log lines. -/
def label : Level → String
  | debug => "DEBUG"
  | info => "INFO"
  | warn => "WARN"
  | error => "ERROR"

/-- The place of the level among all. -/
def severity : Level → Nat
  | debug => 0
  | info => 1
  | warn => 2
  | error => 3

/-- Whether a log kept at this level takes an event of level `l`. -/
def admits (threshold l : Level) : Bool := threshold.severity ≤ l.severity

end Level

/-- The part of the calculator that an event comes from. -/
inductive Origin where
  | logging
  | simplification
  | plot
  deriving DecidableEq, Repr

/-- What happened. -/
inductive Event where
  /-- a log was opened -/
  | started (level : Level)
  /-- a log is kept in a file -/
  | kept (file : String)
  | simplified (before after : Expr)
  /-- the step of a plot is too small to move its variable away from the minimum -/
  | stalled (name : String) (range : Range)
  | plotting (e : Expr) (name : String) (range : Range) (stepping : Stepping)
  | sampled (name : String) (x y : Float)
  /-- the variable was unbound because the sample of this position failed -/
  | unboundAfterFailure (name : String) (last : Expr)
  /-- the sample of this number failed and the variable keeps its binding -/
  | leftBound (count : Nat) (name : String)
  /-- the variable was unbound because the last sample is taken -/
  | unbound (name : String) (last : Expr)
  | samplesTaken (count : Nat)
  deriving Repr

namespace Event

/-- How much the event matters. -/
def level : Event → Level
  | started _ | kept _ | plotting .. | samplesTaken _ => .info
  | simplified .. | sampled .. | unboundAfterFailure .. | unbound .. => .debug
  | stalled .. | leftBound .. => .warn

/-- Where the event comes from. -/
def origin : Event → Origin
  | started _ | kept _ => .logging
  | simplified .. => .simplification
  | _ => .plot

/-- The event in words. -/
def message : Event → String
  | started level => "logging started with level " ++ level.label
  | kept file => "logging to " ++ file
  | simplified e s => "simplified " ++ e.text ++ " -> " ++ s.text
  | stalled x r =>
    "step " ++ Decimal.plain r.step ++ " does not move " ++ x ++ " away from "
      ++ Decimal.plain r.min ++ ", the sweep cannot advance"
  | plotting e x r s =>
    "plotting " ++ e.text ++ " for " ++ x ++ " from " ++ Decimal.plain r.min ++ " to "
      ++ Decimal.plain r.max ++ " with step " ++ Decimal.plain r.step ++ " (" ++ s.name
      ++ " stepping)"
  | sampled name x y => name ++ " = " ++ Decimal.plain x ++ " -> " ++ Decimal.plain y
  | unboundAfterFailure x last =>
    "unbound " ++ x ++ " after failed sample (last value " ++ last.text ++ ")"
  | leftBound count x =>
    "sample " ++ toString count ++ " failed, " ++ x ++ " is left bound to its last value"
  | unbound x last => "unbound " ++ x ++ " (last sample " ++ last.text ++ ")"
  | samplesTaken count => toString count ++ " samples taken"

/-- What a simplification tells: a success with its result, a failure nothing. -/
def ofSimplification (e : Expr) : Except ε Expr → List Event
  | .ok s => [simplified e s]
  | .error _ => []

end Event

end GraphCalc
