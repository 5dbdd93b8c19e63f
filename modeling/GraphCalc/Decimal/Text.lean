import GraphCalc.Decimal.Shortest

/-!
# Writing a float

A float is written with the digits of `shortest`. A `Style` says when the digits are laid out around
a decimal point and when with an exponent, and whether a whole number shows its point. `plain` is
the text of a value, `explicit` the one that shows it is a float.
-/

namespace GraphCalc.Decimal

/-- How digits become text. `point` is the place of the decimal point counted from the first digit:
`1.5` has it at 1, `0.05` at -1. -/
structure Style where
  /-- whether a nonzero value with this `point` is written without exponent -/
  positional : Int → Bool
  /-- what follows a whole number -/
  whole : String

/-- Never an exponent, and whole numbers without a point: `1000000`, `0.0000001`. -/
def Style.plain : Style where
  positional _ := true
  whole := ""

/-- An exponent below `0.0001` and from `10 ^ 16` on, and a point in every other number: `1.0`,
`1e16`, `1e-5`. -/
def Style.explicit : Style where
  positional point := -3 ≤ point && point ≤ 16
  whole := ".0"

/-- Digits around a decimal point, padded with zeros where they do not reach it. -/
def layPositional (whole : String) (digits : List Char) (point : Int) : String :=
  if point ≤ 0 then
    "0." ++ String.ofList (List.replicate (-point).toNat '0' ++ digits)
  else if digits.length ≤ point.toNat then
    String.ofList (digits ++ List.replicate (point.toNat - digits.length) '0') ++ whole
  else
    String.ofList (digits.take point.toNat ++ '.' :: digits.drop point.toNat)

/-- One digit before the point, the rest after it, and the exponent. -/
def layScientific (digits : List Char) (point : Int) : String :=
  let tail := digits.drop 1
  String.ofList (digits.take 1 ++ (if tail.isEmpty then [] else '.' :: tail))
    ++ "e" ++ toString (point - 1)

/-- The text of `m * 2 ^ q`. -/
def magnitudeText (s : Style) (m : Nat) (q : Int) : String :=
  if m = 0 then "0" ++ s.whole
  else
    let d := shortest m q
    let digits := Nat.toDigits 10 d.coefficient
    let point := d.exponent + digits.length
    if s.positional point then layPositional s.whole digits point else layScientific digits point

/-- The text of a float. The sign of zero is kept, and NaN has none. -/
def text (s : Style) (v : Float) : String :=
  match Reading.ofFloat v with
  | .nan => "NaN"
  | .infinite negative => if negative then "-inf" else "inf"
  | .finite negative m q => (if negative then "-" else "") ++ magnitudeText s m q

/-- The text of a value in answers and messages. -/
def plain (v : Float) : String := text .plain v

/-- The text that tells a float from an integer. -/
def explicit (v : Float) : String := text .explicit v

end GraphCalc.Decimal
