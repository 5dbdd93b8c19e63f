/-!
# Reading a float

A number is an optional sign and either one of the words `inf`, `infinity` and `nan` in any case, or
digits with at most one decimal point, at least one digit, and an optional exponent. `read?` gives
the float nearest to the decimal, ties to even; what is too large becomes infinite and what is too
small becomes zero, each with its sign.
-/

namespace GraphCalc.Decimal

/-- The value of a string of decimal digits. -/
def digitsValue (ds : List Char) : Nat :=
  ds.foldl (fun n d => 10 * n + (d.toNat - '0'.toNat)) 0

/-- Takes a leading sign off; `true` is minus. -/
def splitSign : List Char → Bool × List Char
  | '-' :: r => (true, r)
  | '+' :: r => (false, r)
  | r => (false, r)

/-- The float nearest to `coefficient * 10 ^ exponent`. The largest float is below `10 ^ 309` and
half the smallest one above `10 ^ (-325)`, so outside of these bounds nothing has to be computed. -/
def ofScaled (coefficient : Nat) (exponent : Int) : Float :=
  let point := exponent + (Nat.toDigits 10 coefficient).length
  if coefficient = 0 ∨ point < -330 then 0.0
  else if 310 < point then 1.0 / 0.0
  else Float.ofScientific coefficient (exponent < 0) exponent.natAbs

/-- An infinity or a NaN written as a word. -/
def word? (cs : List Char) : Option Float :=
  match String.ofList (cs.map Char.toLower) with
  | "inf" | "infinity" => some (1.0 / 0.0)
  | "nan" => some (0.0 / 0.0)
  | _ => none

/-- The exponent after the digits: nothing, or `e`, an optional sign and digits. -/
def exponent? : List Char → Option Int
  | [] => some 0
  | c :: r =>
    let (negative, digits) := splitSign r
    if (c = 'e' ∨ c = 'E') ∧ digits ≠ [] ∧ digits.all Char.isDigit then
      some (if negative then -(digitsValue digits : Int) else digitsValue digits)
    else none

/-- Digits with an optional point and exponent. -/
def number? (cs : List Char) : Option Float :=
  let whole := cs.takeWhile Char.isDigit
  let rest := cs.dropWhile Char.isDigit
  let (fraction, rest) :=
    match rest with
    | '.' :: r => (r.takeWhile Char.isDigit, r.dropWhile Char.isDigit)
    | r => ([], r)
  if whole = [] ∧ fraction = [] then none
  else
    (exponent? rest).map fun e => ofScaled (digitsValue (whole ++ fraction)) (e - fraction.length)

/-- The float that a text stands for. -/
def read? (s : String) : Option Float :=
  let (negative, cs) := splitSign s.toList
  ((word? cs).orElse fun _ => number? cs).map fun v => if negative then -v else v

end GraphCalc.Decimal
