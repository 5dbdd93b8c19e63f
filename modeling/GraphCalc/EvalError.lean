import GraphCalc.Decimal.Text
import GraphCalc.Text.Quoted

/-!
# What can go wrong with an expression

The causes for which an evaluation, a simplification or a plot has no result, and their wording.
-/

namespace GraphCalc

/-- Why there is no result. -/
inductive EvalError where
  /-- not an operation of this name with this many operands -/
  | malformed (expected : String) (arity : Nat)
  | undefinedVariable (name : String)
  | unknownOperator (name : String)
  /-- the variable of a plot has a binding -/
  | alreadyDefined (name : String)
  | emptyRange (min max : Float)
  | nonPositiveStep (step : Float)
  /-- an expression or a chain of bindings nests deeper than allowed -/
  | tooDeep (limit : Nat)
  | tooManySamples (limit : Nat)
  | renderFailed (message : String)
  deriving DecidableEq, Repr

/-- The cause in words. -/
def EvalError.message : EvalError → String
  | malformed expected arity =>
    "Node is not valid " ++ expected ++ " node (expected " ++ toString arity ++ " operand(s))"
  | undefinedVariable x => "Variable not found: " ++ x
  | unknownOperator f => "Operator not found: " ++ f
  | alreadyDefined x => "Variable already defined: " ++ x
  | emptyRange min max =>
    "Minimum larger than maximum: " ++ Decimal.plain min ++ " > " ++ Decimal.plain max
  | nonPositiveStep step =>
    "Incrementation less than or equal to zero: " ++ Decimal.plain step
  | tooDeep limit =>
    "Expression nested deeper than " ++ toString limit ++ " levels (self-referencing variable?)"
  | tooManySamples limit => "Plot needs more than " ++ toString limit ++ " samples"
  | renderFailed message => "Plot rendering failed: " ++ message

/-- The circumstances of a cause with their names, between braces. -/
def EvalError.circumstances (entries : List (String × String)) : String :=
  " \x7b " ++ String.intercalate ", " (entries.map fun (k, v) => k ++ ": " ++ v) ++ " \x7d"

/-- The cause and its circumstances, spelt out: `UndefinedVariable("x")`. -/
def EvalError.outline : EvalError → String
  | malformed expected arity =>
    "MalformedNode" ++ circumstances [("expected", Text.quote expected), ("arity", toString arity)]
  | undefinedVariable x => "UndefinedVariable(" ++ Text.quote x ++ ")"
  | unknownOperator f => "UnknownOperator(" ++ Text.quote f ++ ")"
  | alreadyDefined x => "VariableAlreadyDefined(" ++ Text.quote x ++ ")"
  | emptyRange min max =>
    "MinimumLargerThanMaximum"
      ++ circumstances [("min", Decimal.explicit min), ("max", Decimal.explicit max)]
  | nonPositiveStep step => "NonPositiveStep(" ++ Decimal.explicit step ++ ")"
  | tooDeep limit => "RecursionLimitExceeded" ++ circumstances [("limit", toString limit)]
  | tooManySamples limit => "TooManySamples" ++ circumstances [("limit", toString limit)]
  | renderFailed message => "RenderFailed(" ++ Text.quote message ++ ")"

end GraphCalc
