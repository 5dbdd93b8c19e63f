/-!
# The shortest decimal that stands for a float

A positive finite float is a significand times a power of two, and it stands for every real number
that rounds to it. `shortest` gives the decimal of that interval with the fewest digits, and among
those the one nearest to the float. It walks the decimal grids `10 ^ e` from coarse to fine and
takes the first grid that has a point in the interval: if a grid has one at all, then one of the
two neighbours of the float on that grid is in the interval (`Interval.nearest?`), because the
float itself lies between them. All arithmetic is exact, on natural numbers.
-/

namespace GraphCalc.Decimal

/-- What the bits of a float say: `finite negative m q` is `± m * 2 ^ q`. -/
inductive Reading where
  | nan
  | infinite (negative : Bool)
  | finite (negative : Bool) (significand : Nat) (exponent : Int)
  deriving DecidableEq, Repr

/-- Splits the 64 bits into sign, biased exponent and fraction. A biased exponent of zero has no
hidden bit and the scale of one. -/
def Reading.ofFloat (v : Float) : Reading :=
  let bits := v.toBits.toNat
  let negative := bits / Nat.pow 2 63 == 1
  let biased : Nat := bits / Nat.pow 2 52 % Nat.pow 2 11
  let fraction : Nat := bits % Nat.pow 2 52
  if biased = 2047 then
    if fraction = 0 then .infinite negative else .nan
  else if biased = 0 then .finite negative fraction (-1074)
  else .finite negative (Nat.pow 2 52 + fraction) ((biased : Int) - 1075)

/-- The reals that round to a positive float, as fractions over one denominator. The two ends
belong to it when a tie goes to this float. -/
structure Interval where
  low : Nat
  value : Nat
  high : Nat
  denominator : Nat
  closed : Bool
  deriving DecidableEq, Repr

/-- The interval of `m * 2 ^ q`: half a unit to each side, but a quarter below a power of two,
where the spacing changes. Ties go to the even significand. -/
def Interval.ofBinary (m : Nat) (q : Int) : Interval :=
  let scale := Nat.pow 2 (q - 2).toNat
  let below := if m = Nat.pow 2 52 ∧ -1074 < q then 1 else 2
  { low := (4 * m - below) * scale
    value := 4 * m * scale
    high := (4 * m + 2) * scale
    denominator := Nat.pow 2 (2 - q).toNat
    closed := m % 2 == 0 }

/-- The decimal `coefficient * 10 ^ exponent`. -/
structure Scaled where
  coefficient : Nat
  exponent : Int
  deriving DecidableEq, Repr

/-- Whether `k * 10 ^ e` lies in the interval. -/
def Interval.contains (I : Interval) (k : Nat) (e : Int) : Bool :=
  let point := k * (Nat.pow 10 e.toNat * I.denominator)
  let low := I.low * Nat.pow 10 (-e).toNat
  let high := I.high * Nat.pow 10 (-e).toNat
  if I.closed then low ≤ point && point ≤ high else low < point && point < high

/-- The point of the grid `10 ^ e` in the interval that is nearest to the float, if the grid has a
point there. The upper neighbour wins a tie. -/
def Interval.nearest? (I : Interval) (e : Int) : Option Nat :=
  let unit := Nat.pow 10 e.toNat * I.denominator
  let value := I.value * Nat.pow 10 (-e).toNat
  let k := value / unit
  match I.contains k e, I.contains (k + 1) e with
  | true, true => some (if 2 * (value % unit) < unit then k else k + 1)
  | true, false => some k
  | false, true => some (k + 1)
  | false, false => none

/-- Tries the grid `10 ^ e` and then up to `n` finer ones. -/
def Interval.search (I : Interval) : Nat → Int → Scaled
  | 0, e => ⟨(I.nearest? e).getD 0, e⟩
  | n + 1, e =>
    match I.nearest? e with
    | some k => ⟨k, e⟩
    | none => I.search n (e - 1)

/-- An exponent of ten whose power is above `m * 2 ^ q`: `0.30103` exceeds the logarithm of two. -/
def coarsest (m : Nat) (q : Int) : Int :=
  ((m.log2 + 1 : Nat) + q) * 30103 / 100000 + 1

/-- The decimal with the fewest digits that rounds to `m * 2 ^ q`. Seventeen digits always suffice,
and the first grid tried is at most two places too coarse. -/
def shortest (m : Nat) (q : Int) : Scaled :=
  (Interval.ofBinary m q).search 20 (coarsest m q)

end GraphCalc.Decimal
