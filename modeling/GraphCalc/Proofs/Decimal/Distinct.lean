import Mathlib
import GraphCalc.Proofs.Decimal.Digits
import GraphCalc.Proofs.Decimal.Rounding
import GraphCalc.Proofs.Text.Runs

/-!
# Floats with the same text

A float is written with the digits of a decimal that rounds to it, and the digits, the point and the
zeros around them determine the decimal (`valueOf_layPositional`). So two floats that are written alike
have the same sign, significand and exponent (`magnitudeText_inj`), which are all their bits say
(`Reading.ofFloat_injective`).
-/

namespace GraphCalc.Decimal

open Written (Starts Stops)

/-! ## Bits -/

section
open Float.Model

/-- The exponent is read from the eleven bits below the sign. -/
theorem toNat_unpackExponent (b : BitVec 64) :
    (@UnpackedFloat.unpackExponent .binary64 b).toNat = b.toNat / 2 ^ 52 % 2 ^ 11 := by
  rw [← Nat.shiftRight_eq_div_pow]
  exact BitVec.extractLsb_toNat ..

/-- The fraction is read from the last 52 bits. -/
theorem toNat_unpackMantissa (b : BitVec 64) :
    (@UnpackedFloat.unpackMantissa .binary64 b).toNat = b.toNat % 2 ^ 52 :=
  BitVec.extractLsb_toNat ..

/-- There is one NaN. -/
theorem toBits_of_nan {v : Float} (hexponent : v.toBits.toNat / 2 ^ 52 % 2 ^ 11 = 2047)
    (hfraction : v.toBits.toNat % 2 ^ 52 ≠ 0) : v.toBits.toNat = 0x7FF8000000000000 := by
  have h := v.toModel.valid.eq_packedNaN
  rw [← BitVec.toNat_inj, ne_eq, ← BitVec.toNat_inj, ← BitVec.toNat_inj, toNat_unpackExponent,
    toNat_unpackMantissa] at h
  exact h hexponent hfraction

end

section
variable {v : Float}

/-- The kinds of floats, by the bits of their exponent. -/
theorem Reading.ofFloat_cases {n : Nat} (hn : v.toBits.toNat = n) :
    (n / 2 ^ 52 % 2 ^ 11 = 2047 ∧ n % 2 ^ 52 ≠ 0 ∧ ofFloat v = .nan) ∨
    ∃ negative : Bool, negative.toNat = n / 2 ^ 63 ∧
      ((n / 2 ^ 52 % 2 ^ 11 = 2047 ∧ n % 2 ^ 52 = 0 ∧ ofFloat v = .infinite negative) ∨
        (n / 2 ^ 52 % 2 ^ 11 = 0 ∧ ofFloat v = .finite negative (n % 2 ^ 52) (-1074)) ∨
        (0 < n / 2 ^ 52 % 2 ^ 11 ∧ n / 2 ^ 52 % 2 ^ 11 < 2047 ∧
          ofFloat v = .finite negative (2 ^ 52 + n % 2 ^ 52)
            (((n / 2 ^ 52 % 2 ^ 11 : Nat) : Int) - 1075))) := by
  have hlt := v.toBits.toNat_lt
  rw [hn] at hlt
  have hsign : (n / 2 ^ 63 == 1).toNat = n / 2 ^ 63 := by
    have hbit : n / 2 ^ 63 = 0 ∨ n / 2 ^ 63 = 1 := by omega
    rcases hbit with h | h <;> rw [h] <;> rfl
  simp only [ofFloat, hn, Nat.pow_eq]
  by_cases hlast : n / 2 ^ 52 % 2 ^ 11 = 2047
  · rw [if_pos hlast]
    by_cases hfraction : n % 2 ^ 52 = 0
    · exact .inr ⟨_, hsign, .inl ⟨hlast, hfraction, if_pos hfraction⟩⟩
    · exact .inl ⟨hlast, hfraction, if_neg hfraction⟩
  · rw [if_neg hlast]
    refine .inr ⟨_, hsign, .inr ?_⟩
    by_cases hfirst : n / 2 ^ 52 % 2 ^ 11 = 0
    · exact .inl ⟨hfirst, if_pos hfirst⟩
    · exact .inr ⟨Nat.pos_of_ne_zero hfirst, by omega, if_neg hfirst⟩

/-- The bits that say this. -/
def Reading.bits : Reading → Nat
  | nan => 0x7FF8000000000000
  | infinite negative => negative.toNat * 2 ^ 63 + 2047 * 2 ^ 52
  | finite negative m q =>
    negative.toNat * 2 ^ 63 + if m < 2 ^ 52 then m else (q + 1074).toNat * 2 ^ 52 + m

/-- What is read from a float determines its bits. That there is one NaN is needed here. -/
theorem Reading.bits_ofFloat (v : Float) : (ofFloat v).bits = v.toBits.toNat := by
  have hnan := @toBits_of_nan v
  generalize hn : v.toBits.toNat = n at hnan
  rcases ofFloat_cases hn with ⟨hlast, hfraction, h⟩ |
    ⟨negative, hsign, ⟨hlast, hfraction, h⟩ | ⟨hfirst, h⟩ | ⟨hpos, hlast, h⟩⟩
  all_goals rw [h, bits]
  · exact (hnan hlast hfraction).symm
  · omega
  · rw [if_pos (Nat.mod_lt _ (by decide))]
    omega
  · rw [if_neg (by omega)]
    omega

/-- The bits are read without a loss. -/
theorem Reading.ofFloat_injective : Function.Injective ofFloat := by
  intro v w h
  rw [← Float.toBits_inj, ← UInt64.toNat_inj, ← bits_ofFloat, ← bits_ofFloat, h]

/-- The significand and the exponent of a finite float are in range, and normal where they can be. -/
theorem canonical_of_finite {negative : Bool} {m : Nat} {q : Int}
    (hv : Reading.ofFloat v = .finite negative m q) : Canonical m q := by
  rcases Reading.ofFloat_cases (v := v) rfl with ⟨-, -, h⟩ |
    ⟨negative, -, ⟨-, -, h⟩ | ⟨hfirst, h⟩ | ⟨hpos, hlast, h⟩⟩
  all_goals
    rw [hv] at h
    cases h
  · exact ⟨by omega, by omega, by omega, by omega⟩
  · exact ⟨by omega, by omega, by omega, by omega⟩

end

/-! ## Digits -/

/-- The number that is written with digits and at most one point. -/
def valueOf (cs : List Char) : ℚ :=
  digitsValue (cs.filter (· != '.')) / 10 ^ ((cs.dropWhile (· != '.')).drop 1).length

section
variable {ds fs : List Char}

/-- There is no point among digits. -/
theorem ne_point_of_isDigit (hds : ∀ c ∈ ds, c.isDigit = true) : ∀ c ∈ ds, (c != '.') = true := by
  intro c hc
  rw [bne_iff_ne]
  rintro rfl
  exact absurd (hds _ hc) (by decide)

/-- Without a point the text is a whole number. -/
theorem valueOf_whole (hds : ∀ c ∈ ds, c.isDigit = true) : valueOf ds = digitsValue ds := by
  have hne := ne_point_of_isDigit hds
  have hdrop : ds.dropWhile (· != '.') = [] := List.dropWhile_eq_nil_iff.2 hne
  rw [valueOf, List.filter_eq_self.2 hne, hdrop]
  simp

/-- The digits behind the point are counted by the power of ten. -/
theorem valueOf_point (hds : ∀ c ∈ ds, c.isDigit = true) (hfs : ∀ c ∈ fs, c.isDigit = true) :
    valueOf (ds ++ '.' :: fs) = digitsValue (ds ++ fs) / 10 ^ fs.length := by
  have hpoint : ('.' != '.') = false := rfl
  have hdrop : (ds ++ '.' :: fs).dropWhile (· != '.') = '.' :: fs := by
    rw [List.dropWhile_append_of_pos (ne_point_of_isDigit hds)]
    simp
  have hfilter : (ds ++ '.' :: fs).filter (· != '.') = ds ++ fs := by
    rw [List.filter_append, List.filter_cons, List.filter_eq_self.2 (ne_point_of_isDigit hds),
      List.filter_eq_self.2 (ne_point_of_isDigit hfs)]
    simp
  rw [valueOf, hdrop, hfilter]
  rfl

/-- Zeros in front do not change the value. -/
theorem digitsValue_zeros_append (n : Nat) (ds : List Char) :
    digitsValue (List.replicate n '0' ++ ds) = digitsValue ds := by
  change Nat.ofDigitChars 10 _ 0 = Nat.ofDigitChars 10 _ 0
  rw [Nat.ofDigitChars_append, Nat.ofDigitChars_replicate_zero, Nat.mul_zero]

/-- Each zero at the end makes the value ten times as large. -/
theorem digitsValue_append_zeros (ds : List Char) (n : Nat) :
    digitsValue (ds ++ List.replicate n '0') = 10 ^ n * digitsValue ds := by
  change Nat.ofDigitChars 10 _ 0 = _ * Nat.ofDigitChars 10 _ 0
  rw [Nat.ofDigitChars_append, Nat.ofDigitChars_replicate_zero]

/-- Digits around a point stand for their value, shifted by the place of the point. -/
theorem valueOf_layPositional (hds : ∀ c ∈ ds, c.isDigit = true) (point : Int) :
    valueOf (layPositional "" ds point).toList = digitsValue ds * 10 ^ (point - ds.length) := by
  have hzeros (n : Nat) : ∀ c ∈ List.replicate n '0', c.isDigit = true := by
    intro c hc
    rw [List.eq_of_mem_replicate hc]
    rfl
  unfold layPositional
  split
  · have hexponent : point - ds.length = -((List.replicate (-point).toNat '0' ++ ds).length : Int) := by
      rw [List.length_append, List.length_replicate]
      omega
    have hfraction : ∀ c ∈ List.replicate (-point).toNat '0' ++ ds, c.isDigit = true :=
      fun c hc => (List.mem_append.1 hc).elim (hzeros _ c) (hds c)
    have hfront : "0.".toList = List.replicate 1 '0' ++ ['.'] := rfl
    rw [String.toList_append, hfront, String.toList_ofList, List.append_assoc, List.singleton_append,
      hexponent, zpow_neg, zpow_natCast, ← div_eq_mul_inv, valueOf_point (hzeros 1) hfraction,
      digitsValue_zeros_append, digitsValue_zeros_append]
  · split
    · have hexponent : point - ds.length = (point.toNat - ds.length : Nat) := by omega
      rw [String.append_empty, String.toList_ofList, hexponent, zpow_natCast, mul_comm]
      rw [valueOf_whole fun c hc => (List.mem_append.1 hc).elim (hds c) (hzeros _ c),
        digitsValue_append_zeros]
      push_cast
      rfl
    · have hexponent : point - ds.length = -((ds.drop point.toNat).length : Int) := by
        rw [List.length_drop]
        omega
      rw [String.toList_ofList, hexponent, zpow_neg, zpow_natCast, ← div_eq_mul_inv,
        valueOf_point (fun c hc => hds c (List.mem_of_mem_take hc))
          (fun c hc => hds c (List.mem_of_mem_drop hc)), List.take_append_drop]

end

/-! ## Texts -/

section
variable {m m' : Nat} {q q' : Int}

/-- Zero rounds to a float with significand zero. -/
theorem roundsTo_zero (q : Int) : RoundsTo 0 0 q := by
  have hunit : (0 : ℚ) < 2 ^ (q - 2) := by positivity
  have hbelow : (0 : ℚ) ≤ below 0 q * 2 ^ (q - 2) := by positivity
  exact ⟨by push_cast; linarith, by push_cast; linarith, fun _ => rfl⟩

/-- What is written for a float rounds to it. -/
theorem roundsTo_magnitudeText (h : Canonical m q) :
    RoundsTo (valueOf (magnitudeText .plain m q).toList) m q := by
  unfold magnitudeText
  split
  · next hzero =>
    subst hzero
    have hvalue : valueOf ("0" ++ Style.plain.whole).toList = 0 := by
      rw [valueOf_whole (List.all_eq_true.1 rfl)]
      rfl
    rw [hvalue]
    exact roundsTo_zero q
  · next hne =>
    have hvalue : (digitsValue (Nat.toDigits 10 (shortest m q).coefficient) : ℚ) =
        (shortest m q).coefficient := mod_cast Nat.ofDigitChars_toDigits (by decide) (by decide)
    have hrounds := shortest_roundsTo (Nat.pos_of_ne_zero hne) h
    simp only [Style.plain, if_true]
    rw [valueOf_layPositional fun c => Nat.isDigit_of_mem_toDigits (by decide) (by decide), hvalue,
      add_sub_cancel_right]
    exact hrounds

/-- The text of a magnitude determines it, since the decimal written rounds to one float only. -/
theorem magnitudeText_inj (h : Canonical m q) (h' : Canonical m' q')
    (htext : magnitudeText .plain m q = magnitudeText .plain m' q') : m = m' ∧ q = q' := by
  have hrounds := roundsTo_magnitudeText h
  rw [htext] at hrounds
  exact hrounds.unique h h' (roundsTo_magnitudeText h')

/-- Digits with a point placed among them begin with a digit, also where the point comes first. -/
theorem starts_layPositional {ds : List Char} (hne : ds ≠ []) (hds : ∀ c ∈ ds, c.isDigit = true)
    (point : Int) : Starts Char.isDigit (layPositional "" ds point).toList := by
  have hstarts := Written.starts_of_all hne hds
  unfold layPositional
  split
  · rw [String.toList_append]
    exact .append ⟨'0', _, rfl, rfl⟩ _
  · split
    · rw [String.append_empty, String.toList_ofList]
      exact hstarts.append _
    · obtain ⟨n, hn⟩ : ∃ n, point.toNat = n + 1 := ⟨point.toNat - 1, by omega⟩
      obtain ⟨c, t, rfl, hc⟩ := hstarts
      rw [String.toList_ofList, hn]
      exact ⟨c, _, rfl, hc⟩

/-- The text of a magnitude begins with a digit. -/
theorem starts_magnitudeText (m : Nat) (q : Int) :
    Starts Char.isDigit (magnitudeText .plain m q).toList := by
  unfold magnitudeText
  split
  · exact ⟨'0', [], rfl, rfl⟩
  · exact starts_layPositional Nat.toDigits_ne_nil
      (fun c => Nat.isDigit_of_mem_toDigits (by decide) (by decide)) _

end

namespace Reading

/-- Whether a minus sign is written. NaN has none. -/
def negative : Reading → Bool
  | nan => false
  | infinite negative | finite negative _ _ => negative

/-- What is written after the sign. -/
def unsigned : Reading → List Char
  | nan => ['N', 'a', 'N']
  | infinite _ => ['i', 'n', 'f']
  | finite _ m q => (magnitudeText .plain m q).toList

/-- What follows the sign begins so. -/
def isFront : Reading → Char → Bool
  | nan, c => c == 'N'
  | infinite _, c => c == 'i'
  | finite .., c => c.isDigit

/-- What follows the sign begins as its kind does. -/
theorem starts_unsigned (r : Reading) : Starts r.isFront r.unsigned := by
  cases r with
  | nan => exact ⟨'N', ['a', 'N'], rfl, rfl⟩
  | infinite => exact ⟨'i', ['n', 'f'], rfl, rfl⟩
  | finite _ m q => exact starts_magnitudeText m q

/-- What follows the sign is not another minus sign. -/
theorem stops_unsigned (r : Reading) : Stops (· == '-') r.unsigned := by
  refine r.starts_unsigned.stops fun c hc => beq_eq_false_iff_ne.2 ?_
  rintro rfl
  cases r <;> cases hc

/-- Numbers and words are told apart by their first character. -/
theorem unsigned_inj {v w : Float} (hsign : (ofFloat v).negative = (ofFloat w).negative)
    (htext : (ofFloat v).unsigned = (ofFloat w).unsigned) : ofFloat v = ofFloat w := by
  obtain ⟨c, t, hc, hfront⟩ := starts_unsigned (ofFloat v)
  obtain ⟨d, t', hd, hfront'⟩ := starts_unsigned (ofFloat w)
  obtain ⟨rfl, -⟩ := List.cons_eq_cons.1 (hc.symm.trans (htext.trans hd))
  cases hv : ofFloat v <;> cases hw : ofFloat w <;> rw [hv] at hsign hfront htext <;>
    rw [hw] at hsign hfront' htext
  case infinite.infinite => exact congrArg infinite hsign
  case finite.finite =>
    obtain ⟨rfl, rfl⟩ := magnitudeText_inj (canonical_of_finite hv) (canonical_of_finite hw)
      (String.toList_inj.1 htext)
    exact congrArg (finite · _ _) hsign
  all_goals simp_all [isFront]

end Reading

/-- The text of a float is its sign and what follows that. -/
theorem plain_eq (v : Float) :
    (plain v).toList = (if (Reading.ofFloat v).negative then ['-'] else []) ++
      (Reading.ofFloat v).unsigned := by
  unfold plain text
  cases Reading.ofFloat v with
  | nan => rfl
  | infinite negative => cases negative <;> rfl
  | finite negative => cases negative <;> rw [String.toList_append] <;> rfl

/-- A minus sign is told from texts that do not begin with one. -/
theorem sign_inj {s t : Bool} {cs ds : List Char} (hcs : Stops (· == '-') cs)
    (hds : Stops (· == '-') ds)
    (h : (if s then ['-'] else []) ++ cs = (if t then ['-'] else []) ++ ds) : s = t ∧ cs = ds := by
  cases s <;> cases t
  · exact ⟨rfl, h⟩
  · subst h
    cases hcs '-' rfl
  · subst h
    cases hds '-' rfl
  · exact ⟨rfl, List.tail_eq_of_cons_eq h⟩

/-- Floats are told apart by their texts. -/
theorem plain_injective : Function.Injective plain := by
  intro v w h
  have htext := congrArg String.toList h
  rw [plain_eq, plain_eq] at htext
  obtain ⟨hsign, hunsigned⟩ := sign_inj (Reading.stops_unsigned _) (Reading.stops_unsigned _) htext
  exact Reading.ofFloat_injective (Reading.unsigned_inj hsign hunsigned)

end GraphCalc.Decimal
