import GraphCalc.Decimal.Read
import GraphCalc.Decimal.Text
import GraphCalc.Text.Listing

/-!
# Scalars

A value in a settings document is a token, and the token decides what it is: an integer of 64 bits,
else a float, else `true` or `false`, else a string.
-/

namespace GraphCalc

/-- What a token can stand for. -/
inductive Scalar where
  | string (s : String)
  | float (v : Float)
  | integer (i : Int)
  | boolean (b : Bool)
  deriving DecidableEq, Repr

namespace Scalar

/-- The number of integers of 64 bits on each side of zero. -/
def bound : Int := Nat.pow 2 63

/-- An optional sign and digits, if the number fits into 64 bits. -/
def integer? (token : List Char) : Option Int :=
  let (negative, digits) := Decimal.splitSign token
  let n : Int := Decimal.digitsValue digits
  let i := if negative then -n else n
  if digits ≠ [] ∧ digits.all Char.isDigit ∧ -bound ≤ i ∧ i < bound then some i else none

/-- What a token stands for. -/
def ofToken (token : List Char) : Scalar :=
  let s := String.ofList token
  match integer? token, Decimal.read? s with
  | some i, _ => integer i
  | none, some v => float v
  | none, none =>
    if s = "true" then boolean true else if s = "false" then boolean false else string s

/-- The text of a value. A number is written anew, which need not be how its token spelt it. -/
def text : Scalar → String
  | string s => s
  | float v => Decimal.plain v
  | integer i => toString i
  | boolean b => Text.truth b

/-- The integer, if it is one. A float is none, whatever its value. -/
def integerValue? : Scalar → Option Int
  | integer i => some i
  | _ => none

/-- The truth value, if it is one. -/
def booleanValue? : Scalar → Option Bool
  | boolean b => some b
  | _ => none

end Scalar

end GraphCalc
