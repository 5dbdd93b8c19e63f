import GraphCalc.Decimal.Shortest
import Mathlib.Algebra.Order.Field.Power
import Mathlib.Data.Rat.Cast.Order
import Mathlib.Tactic.Linarith
import Mathlib.Tactic.NormNum
import Mathlib.Tactic.Positivity
import Mathlib.Tactic.Ring

/-!
# Decimals round to the float they stand for

A float stands for the rational numbers that round to it (`RoundsTo`). `Interval.ofBinary` describes
them by natural numbers (`contains_ofBinary`), and the search of `shortest` ends with a decimal among
them (`shortest_roundsTo`): the finest grid that it tries is finer than half the distance between two
floats. Since a number rounds to one float only (`RoundsTo.unique`), the decimal determines the float.
-/

namespace GraphCalc.Decimal

/-! ## The numbers that round to a float -/

/-- The significands and exponents of floats: a significand below `2 ^ 52` only goes with the least
exponent. -/
structure Canonical (m : Nat) (q : Int) : Prop where
  lt : m < 2 ^ 53
  least : -1074 ≤ q
  greatest : q ≤ 971
  normal : -1074 < q → 2 ^ 52 ≤ m

/-- Half the distance to the float below, in units of `2 ^ (q - 2)`. -/
def below (m : Nat) (q : Int) : Nat := if m = 2 ^ 52 ∧ -1074 < q then 1 else 2

/-- The rational number is not further from `m * 2 ^ q` than from any other float, and if it lies in the
middle between two, `m` is even. -/
structure RoundsTo (x : ℚ) (m : Nat) (q : Int) : Prop where
  low : (4 * m - below m q) * 2 ^ (q - 2) ≤ x
  high : x ≤ (4 * m + 2) * 2 ^ (q - 2)
  tie : x = (4 * m - below m q) * 2 ^ (q - 2) ∨ x = (4 * m + 2) * 2 ^ (q - 2) → m % 2 = 0

section
variable {x : ℚ} {m m' : Nat} {q q' : Int}

/-- The float below is never further away than the one above. -/
theorem below_le (m : Nat) (q : Int) : below m q ≤ 2 := by
  unfold below
  split <;> omega

/-- Strictly between the ends there is no tie to break. -/
theorem RoundsTo.of_lt (hlow : (4 * m - below m q) * 2 ^ (q - 2) < x)
    (hhigh : x < (4 * m + 2) * 2 ^ (q - 2)) : RoundsTo x m q :=
  ⟨hlow.le, hhigh.le, fun h => (h.elim hlow.ne' hhigh.ne).elim⟩

/-- With a lesser exponent the upper end is below the lower end, unless both are the same number, and
the significand is then the last one before a power of two. -/
theorem RoundsTo.not_of_exponent_lt (hm : Canonical m q) (hm' : Canonical m' q') (hq : q < q')
    (h : RoundsTo x m q) : ¬RoundsTo x m' q' := by
  intro h'
  have hunit : (0 : ℚ) < 2 ^ (q - 2) := by positivity
  have hlow : (2 ^ 55 - 2) * 2 ^ (q - 2) ≤ (4 * (m' : ℚ) - below m' q') * 2 ^ (q' - 2) := by
    have hleast := hm.least
    have hnormal : 2 ^ 52 ≤ m' := hm'.normal (by omega)
    have hfront : 2 ^ 54 + below m' q' ≤ 4 * m' + 1 := by
      unfold below
      split <;> omega
    have hfront : (2 ^ 54 : ℚ) + below m' q' ≤ 4 * m' + 1 := mod_cast hfront
    calc (2 ^ 55 - 2) * (2 : ℚ) ^ (q - 2)
        = (2 ^ 54 - 1) * 2 ^ (q - 2 + 1) := by rw [zpow_add_one₀ (by norm_num)]; ring
      _ ≤ (2 ^ 54 - 1) * 2 ^ (q' - 2) := by
        refine mul_le_mul_of_nonneg_left (zpow_le_zpow_right₀ (by norm_num) (by omega)) (by norm_num)
      _ ≤ (4 * (m' : ℚ) - below m' q') * 2 ^ (q' - 2) :=
        mul_le_mul_of_nonneg_right (by linarith) (by positivity)
  have hbound : (m : ℚ) ≤ 2 ^ 53 - 1 := by
    have hlt : m + 1 ≤ 2 ^ 53 := hm.lt
    have hlt : (m : ℚ) + 1 ≤ 2 ^ 53 := mod_cast hlt
    linarith
  have hhigh : (4 * (m : ℚ) + 2) * 2 ^ (q - 2) ≤ (2 ^ 55 - 2) * 2 ^ (q - 2) :=
    mul_le_mul_of_nonneg_right (by linarith) hunit.le
  -- All the bounds are equal, so `m` is odd and the number lies in the middle.
  have heq : x = (4 * (m : ℚ) + 2) * 2 ^ (q - 2) :=
    le_antisymm h.high (hhigh.trans (hlow.trans h'.low))
  have hlast : 4 * (m : ℚ) + 2 = 2 ^ 55 - 2 :=
    mul_right_cancel₀ hunit.ne' (le_antisymm hhigh (hlow.trans (h'.low.trans h.high)))
  have hm : m + 1 = 2 ^ 53 := by
    have hlast : (m : ℚ) + 1 = 2 ^ 53 := by linarith
    exact_mod_cast hlast
  have heven := h.tie (.inr heq)
  omega

/-- With the same exponent the ends can only meet between neighbours, and one of these is odd. -/
theorem RoundsTo.not_of_significand_lt (hm : m < m') (h : RoundsTo x m q) : ¬RoundsTo x m' q := by
  intro h'
  have hunit : (0 : ℚ) < 2 ^ (q - 2) := by positivity
  have hends : 4 * (m' : ℚ) - below m' q ≤ 4 * m + 2 :=
    le_of_mul_le_mul_right (h'.low.trans h.high) hunit
  have hends : 4 * m' ≤ 4 * m + 2 + below m' q := by
    have hends : 4 * (m' : ℚ) ≤ 4 * m + 2 + below m' q := by linarith
    exact_mod_cast hends
  have hbelow := below_le m' q
  obtain rfl : m' = m + 1 := by omega
  have hmeet : 4 * ((m + 1 : Nat) : ℚ) - below (m + 1) q = 4 * m + 2 := by
    have hbelow : below (m + 1) q = 2 := by omega
    rw [hbelow]
    push_cast
    ring
  have heq : x = (4 * (m : ℚ) + 2) * 2 ^ (q - 2) := by
    refine le_antisymm h.high ?_
    rw [← hmeet]
    exact h'.low
  have heven := h.tie (.inr heq)
  have heven' := h'.tie (.inl (by rw [hmeet, heq]))
  omega

/-- A number rounds to one float. -/
theorem RoundsTo.unique (hm : Canonical m q) (hm' : Canonical m' q') (h : RoundsTo x m q)
    (h' : RoundsTo x m' q') : m = m' ∧ q = q' := by
  rcases lt_trichotomy q q' with hq | rfl | hq
  · exact absurd h' (h.not_of_exponent_lt hm hm' hq)
  · rcases lt_trichotomy m m' with hm | rfl | hm
    · exact absurd h' (h.not_of_significand_lt hm)
    · exact ⟨rfl, rfl⟩
    · exact absurd h (h'.not_of_significand_lt hm)
  · exact absurd h (h'.not_of_exponent_lt hm' hm hq)

/-- Even significands have the ends of their interval, odd ones do not. -/
theorem roundsTo_iff : RoundsTo x m q ↔
    if m % 2 = 0 then
      (4 * m - below m q) * 2 ^ (q - 2) ≤ x ∧ x ≤ (4 * m + 2) * 2 ^ (q - 2)
    else (4 * m - below m q) * 2 ^ (q - 2) < x ∧ x < (4 * m + 2) * 2 ^ (q - 2) := by
  split
  · next heven => exact ⟨fun h => ⟨h.low, h.high⟩, fun h => ⟨h.1, h.2, fun _ => heven⟩⟩
  · next hodd =>
    refine ⟨fun h => ⟨h.low.lt_of_ne fun heq => ?_, h.high.lt_of_ne fun heq => ?_⟩,
      fun h => .of_lt h.1 h.2⟩
    · exact hodd (h.tie (.inl heq.symm))
    · exact hodd (h.tie (.inr heq))

end

/-! ## Grids -/

/-- The number that a decimal stands for. -/
def Scaled.value (d : Scaled) : ℚ := d.coefficient * 10 ^ d.exponent

section
variable {m k : Nat} {q e : Int} {I : Interval}

/-- The two natural numbers that an integer exponent is split into make it up again. -/
theorem zpow_mul_pow {b : ℚ} (hb : b ≠ 0) (e : Int) : b ^ e * b ^ (-e).toNat = b ^ e.toNat := by
  rw [← zpow_natCast, ← zpow_natCast, ← zpow_add₀ hb]
  congr 1
  omega

/-- What a multiple of `2 ^ (q - 2)` is, in units of the least common denominator. -/
theorem cast_end (a : Nat) (q e : Int) :
    ((a * Nat.pow 2 (q - 2).toNat * Nat.pow 10 (-e).toNat : Nat) : ℚ) =
      a * 2 ^ (q - 2) * (2 ^ (2 - q).toNat * 10 ^ (-e).toNat) := by
  have hpower := zpow_mul_pow two_ne_zero (q - 2)
  rw [Int.neg_sub] at hpower
  simp only [Nat.pow_eq]
  push_cast
  rw [← hpower]
  ring

/-- What a multiple of `10 ^ e` is, in the same units. -/
theorem cast_point (k : Nat) (q e : Int) :
    ((k * (Nat.pow 10 e.toNat * Nat.pow 2 (2 - q).toNat) : Nat) : ℚ) =
      k * 10 ^ e * (2 ^ (2 - q).toNat * 10 ^ (-e).toNat) := by
  have hpower := zpow_mul_pow (b := 10) (by norm_num) e
  simp only [Nat.pow_eq]
  push_cast
  rw [← hpower]
  ring

/-- Multiples of a power of two and of a power of ten are compared by natural numbers. -/
theorem cross_le (a k : Nat) (q e : Int) :
    a * Nat.pow 2 (q - 2).toNat * Nat.pow 10 (-e).toNat ≤
        k * (Nat.pow 10 e.toNat * Nat.pow 2 (2 - q).toNat) ↔
      (a : ℚ) * 2 ^ (q - 2) ≤ k * 10 ^ e := by
  rw [← @Nat.cast_le ℚ, cast_end, cast_point, mul_le_mul_iff_left₀ (by positivity)]

/-- The same comparison the other way round. -/
theorem cross_ge (a k : Nat) (q e : Int) :
    k * (Nat.pow 10 e.toNat * Nat.pow 2 (2 - q).toNat) ≤
        a * Nat.pow 2 (q - 2).toNat * Nat.pow 10 (-e).toNat ↔
      (k : ℚ) * 10 ^ e ≤ a * 2 ^ (q - 2) := by
  rw [← @Nat.cast_le ℚ, cast_end, cast_point, mul_le_mul_iff_left₀ (by positivity)]

/-- The interval of a float consists of the numbers that round to it. -/
theorem contains_ofBinary (hm : 0 < m) :
    (Interval.ofBinary m q).contains k e = true ↔ RoundsTo (k * 10 ^ e) m q := by
  have hbelow := below_le m q
  have hlow : ((4 * m - below m q : Nat) : ℚ) = 4 * m - below m q := by
    rw [Nat.cast_sub (by omega)]
    push_cast
    rfl
  have hhigh : ((4 * m + 2 : Nat) : ℚ) = 4 * m + 2 := by push_cast; rfl
  rw [roundsTo_iff, ← hlow, ← hhigh]
  simp only [← cross_le, ← cross_ge, ← not_le]
  change (if (m % 2 == 0) = true then _ else _) = true ↔ _
  simp only [beq_iff_eq]
  split
  · rw [Bool.and_eq_true, decide_eq_true_eq, decide_eq_true_eq]
    rfl
  · rw [Bool.and_eq_true, decide_eq_true_eq, decide_eq_true_eq, ← not_le, ← not_le]
    rfl

/-! ## The search -/

/-- A point of the grid is found if the upper neighbour of the value is in the interval. -/
theorem isSome_of_contains (h : I.contains (I.value * Nat.pow 10 (-e).toNat /
    (Nat.pow 10 e.toNat * I.denominator) + 1) e = true) : (I.nearest? e).isSome = true := by
  simp only [Interval.nearest?, h]
  split <;> simp_all

/-- On a grid that is finer than half the distance to the next float, the upper neighbour is in the
interval. -/
theorem isSome_nearest? (hm : 0 < m) (he : (10 : ℚ) ^ e < 2 ^ (q - 1)) :
    ((Interval.ofBinary m q).nearest? e).isSome = true := by
  refine isSome_of_contains ((contains_ofBinary hm).2 ?_)
  generalize hk : (Interval.ofBinary m q).value * Nat.pow 10 (-e).toNat /
    (Nat.pow 10 e.toNat * (Interval.ofBinary m q).denominator) = k
  have hunit : 0 < Nat.pow 10 e.toNat * Nat.pow 2 (2 - q).toNat :=
    Nat.mul_pos (Nat.pow_pos (by decide)) (Nat.pow_pos (by decide))
  have hfloor : (k : ℚ) * 10 ^ e ≤ (4 * m : Nat) * 2 ^ (q - 2) := by
    rw [← cross_ge, ← hk]
    exact Nat.div_mul_le_self ..
  have hceil : ((4 * m : Nat) : ℚ) * 2 ^ (q - 2) < (k + 1 : Nat) * 10 ^ e := by
    rw [← not_le, ← cross_ge, ← hk, not_le, Nat.add_mul, Nat.one_mul]
    exact Nat.lt_div_mul_add hunit
  have hhalf : (2 : ℚ) ^ (q - 1) = 2 * 2 ^ (q - 2) := by
    rw [← zpow_one_add₀ two_ne_zero]
    congr 1
    ring
  have hbelow : (0 : ℚ) ≤ below m q * 2 ^ (q - 2) := by positivity
  push_cast at hfloor hceil ⊢
  exact .of_lt (by linarith) (by linarith)

/-- A point that is found is in the interval. -/
theorem contains_of_nearest? (h : I.nearest? e = some k) : I.contains k e = true := by
  simp only [Interval.nearest?] at h
  split at h <;> grind

/-- The search finds a decimal in the interval if the last grid has one. -/
theorem contains_search {n : Nat} (h : (I.nearest? (e - n)).isSome = true) :
    I.contains (I.search n e).coefficient (I.search n e).exponent = true := by
  induction n generalizing e with
  | zero =>
    obtain ⟨k, hk⟩ := Option.isSome_iff_exists.1 h
    rw [Nat.cast_zero, sub_zero] at hk
    simp only [Interval.search, hk, Option.getD_some]
    exact contains_of_nearest? hk
  | succ n ih =>
    simp only [Interval.search]
    split
    · next hk => exact contains_of_nearest? hk
    · refine ih ?_
      rwa [sub_sub, add_comm, ← Nat.cast_add_one]

/-- The last grid is fine enough: `10 ^ 3` is below `2 ^ 10`, and `2 ^ 33` below `10 ^ 10`. -/
theorem ten_zpow_lt (hleast : -1074 ≤ q) (hgreatest : q ≤ 971)
    (he : 100000 * e ≤ (53 + q) * 30103 - 1900000) : (10 : ℚ) ^ e < 2 ^ (q - 1) := by
  rcases le_total 0 e with hpos | hneg
  · refine lt_of_pow_lt_pow_left₀ 3 (by positivity) ?_
    calc ((10 : ℚ) ^ e) ^ 3 = (10 ^ 3) ^ e := by rw [← zpow_natCast, ← zpow_natCast, zpow_comm]
      _ ≤ (2 ^ 10) ^ e := zpow_le_zpow_left₀ hpos (by norm_num) (by norm_num)
      _ = 2 ^ (10 * e) := by rw [zpow_mul]; norm_num
      _ < 2 ^ ((q - 1) * 3) := zpow_lt_zpow_right₀ (by norm_num) (by omega)
      _ = (2 ^ (q - 1)) ^ 3 := by rw [zpow_mul]; norm_num
  · refine lt_of_pow_lt_pow_left₀ 10 (by positivity) ?_
    calc ((10 : ℚ) ^ e) ^ 10 = ((10 ^ 10)⁻¹) ^ (-e) := by
          rw [inv_zpow', neg_neg, ← zpow_natCast, ← zpow_natCast, zpow_comm]
      _ ≤ ((2 ^ 33)⁻¹) ^ (-e) :=
          zpow_le_zpow_left₀ (by omega) (by positivity) (inv_anti₀ (by norm_num) (by norm_num))
      _ = 2 ^ (33 * e) := by rw [inv_zpow', neg_neg, zpow_mul]; norm_num
      _ < 2 ^ ((q - 1) * 10) := zpow_lt_zpow_right₀ (by norm_num) (by omega)
      _ = (2 ^ (q - 1)) ^ 10 := by rw [zpow_mul]; norm_num

/-- The shortest decimal rounds to the float it is made for. -/
theorem shortest_roundsTo (hm : 0 < m) (h : Canonical m q) : RoundsTo (shortest m q).value m q := by
  refine (contains_ofBinary hm).1 (contains_search (isSome_nearest? hm ?_))
  have hlog : m.log2 < 53 := (Nat.log2_lt (by omega)).2 h.lt
  have hleast := h.least
  refine ten_zpow_lt hleast h.greatest ?_
  unfold coarsest
  push_cast
  omega

end

end GraphCalc.Decimal
