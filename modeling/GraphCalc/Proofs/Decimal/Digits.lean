import GraphCalc.Decimal.Read
import GraphCalc.Decimal.Text
import Mathlib.Data.List.Basic
import Mathlib.Data.List.Induction

/-!
# Digits

Digits that do not begin with a zero are those of their value (`toDigits_digitsValue`), and the text of
a float consists of digits, points and signs, or is one of three words (`plain_cases`).
-/

namespace GraphCalc.Decimal

/-! ## How integers are written -/

/-- One more digit at the end makes the value ten times as large and adds the digit. -/
theorem digitsValue_concat (ds : List Char) (c : Char) :
    digitsValue (ds ++ [c]) = 10 * digitsValue ds + (c.toNat - '0'.toNat) := by
  simp [digitsValue]

/-- A digit is below ten and is written as itself. -/
theorem digitChar_toNat {c : Char} (h : c.isDigit = true) :
    c.toNat - '0'.toNat < 10 ∧ Nat.digitChar (c.toNat - '0'.toNat) = c := by
  delta Char.isDigit at h
  simp only [Bool.and_eq_true, decide_eq_true_eq, UInt32.le_iff_toNat_le, ge_iff_le] at h
  change 48 ≤ c.toNat ∧ c.toNat ≤ 57 at h
  change c.toNat - 48 < 10 ∧ Nat.digitChar (c.toNat - 48) = c
  have hchar : ∀ r < 10, Nat.digitChar r = Char.ofNat (48 + r) := by decide
  refine ⟨by omega, ?_⟩
  rw [hchar _ (by omega), Nat.add_sub_cancel' h.1, Char.ofNat_toNat]

/-- Digits that do not begin with a zero are those of their value, which is not zero. -/
theorem toDigits_digitsValue {ds : List Char} (hne : ds ≠ []) (hds : ∀ c ∈ ds, c.isDigit = true)
    (hhead : ds.head? ≠ some '0') : 0 < digitsValue ds ∧ Nat.toDigits 10 (digitsValue ds) = ds := by
  induction ds using List.reverseRecOn with
  | nil => exact absurd rfl hne
  | append_singleton ds c ih =>
    obtain ⟨hlt, hc⟩ := digitChar_toNat (hds c (by simp))
    rw [digitsValue_concat]
    by_cases hnil : ds = []
    · subst hnil
      have hpos : c.toNat - '0'.toNat ≠ 0 := by
        intro hzero
        rw [hzero] at hc
        exact hhead (by rw [← hc]; rfl)
      have hnone : 10 * digitsValue [] = 0 := rfl
      rw [hnone, Nat.zero_add, Nat.toDigits_of_lt_base hlt, hc]
      exact ⟨Nat.pos_of_ne_zero hpos, rfl⟩
    · rw [List.head?_append_of_ne_nil _ hnil] at hhead
      obtain ⟨hpos, hdigits⟩ := ih hnil (fun d hd => hds d (by simp [hd])) hhead
      refine ⟨by omega, ?_⟩
      rw [← Nat.toDigits_append_toDigits (by decide) hpos hlt, hdigits,
        Nat.toDigits_of_lt_base hlt, hc]

/-- A positive number is not written with a zero in front. -/
theorem head?_toDigits {n : Nat} (hn : 0 < n) : (Nat.toDigits 10 n).head? ≠ some '0' := by
  induction n using Nat.strongRecOn with
  | ind n ih =>
    rcases Nat.lt_or_ge n 10 with hlt | hge
    · rw [Nat.toDigits_of_lt_base hlt]
      have hchar : ∀ r < 10, 0 < r → Nat.digitChar r ≠ '0' := by decide
      simpa using hchar n hlt hn
    · rw [Nat.toDigits_of_base_le (by decide) hge, List.head?_append_of_ne_nil _ Nat.toDigits_ne_nil]
      exact ih (n / 10) (by omega) (by omega)

/-- Digits are those of their value if they are a single zero, or do not begin with one. -/
theorem toDigits_digitsValue_eq_iff {ds : List Char} (hne : ds ≠ [])
    (hds : ∀ c ∈ ds, c.isDigit = true) :
    Nat.toDigits 10 (digitsValue ds) = ds ↔ ds = ['0'] ∨ ds.head? ≠ some '0' := by
  constructor
  · intro h
    rcases Nat.eq_zero_or_pos (digitsValue ds) with hzero | hpos
    · rw [hzero] at h
      exact .inl h.symm
    · rw [← h]
      exact .inr (head?_toDigits hpos)
  · rintro (rfl | hhead)
    · rfl
    · exact (toDigits_digitsValue hne hds hhead).2

/-- A token has a minus sign, a plus sign or none. Without one, all of it is what follows. -/
theorem splitSign_cases (token : List Char) :
    (∃ ds, token = '-' :: ds ∧ splitSign token = (true, ds)) ∨
      (∃ ds, token = '+' :: ds ∧ splitSign token = (false, ds)) ∨
      token.head? ≠ some '+' ∧ splitSign token = (false, token) := by
  unfold splitSign
  split
  · exact .inl ⟨_, rfl, rfl⟩
  · exact .inr (.inl ⟨_, rfl, rfl⟩)
  · next hplus =>
    refine .inr (.inr ⟨?_, rfl⟩)
    intro hhead
    obtain ⟨ds, rfl⟩ := List.head?_eq_some_iff.1 hhead
    exact hplus ds rfl

/-! ## How floats are written -/

/-- What a number is written with, unless it is infinite or NaN. -/
def isPlainChar (c : Char) : Bool := c.isDigit || c == '.' || c == '-'

/-- Digits are characters that floats are written with. -/
theorem isPlainChar_of_isDigit {c : Char} (h : c.isDigit = true) : isPlainChar c = true := by
  simp [isPlainChar, h]

/-- Placing the point adds no characters but zeros and the point itself. -/
theorem isPlainChar_layPositional {ds : List Char} (hds : ∀ c ∈ ds, isPlainChar c = true)
    (point : Int) : ∀ c ∈ (layPositional "" ds point).toList, isPlainChar c = true := by
  have hzero : isPlainChar '0' = true := by decide
  have hpoint : isPlainChar '.' = true := by decide
  intro c hc
  unfold layPositional at hc
  split at hc
  · simp only [String.toList_append, String.toList_ofList, List.mem_append,
      List.mem_replicate] at hc
    rcases hc with hc | ⟨-, rfl⟩ | hc
    · exact List.all_eq_true.1 (rfl : "0.".toList.all isPlainChar = true) c hc
    · exact hzero
    · exact hds c hc
  · split at hc
    · simp only [String.append_empty, String.toList_ofList, List.mem_append,
        List.mem_replicate] at hc
      rcases hc with hc | ⟨-, rfl⟩
      · exact hds c hc
      · exact hzero
    · simp only [String.toList_ofList, List.mem_append, List.mem_cons] at hc
      rcases hc with hc | rfl | hc
      · exact hds c (List.mem_of_mem_take hc)
      · exact hpoint
      · exact hds c (List.mem_of_mem_drop hc)

/-- The text of a float has neither an exponent nor a plus sign. -/
theorem plain_cases (v : Float) : plain v = "NaN" ∨ plain v = "inf" ∨ plain v = "-inf" ∨
    ∀ c ∈ (plain v).toList, isPlainChar c = true := by
  unfold plain text
  split
  · exact .inl rfl
  · next negative _ =>
    cases negative with
    | true => exact .inr (.inr (.inl rfl))
    | false => exact .inr (.inl rfl)
  · next negative m q _ =>
    have hmagnitude : ∀ c ∈ (magnitudeText .plain m q).toList, isPlainChar c = true := by
      unfold magnitudeText
      split
      · exact List.all_eq_true.1 rfl
      · exact isPlainChar_layPositional (fun c hc => isPlainChar_of_isDigit
          (Nat.isDigit_of_mem_toDigits (by decide) (by decide) hc)) _
    refine .inr (.inr (.inr ?_))
    cases negative with
    | true => simpa [isPlainChar] using hmagnitude
    | false => simpa using hmagnitude

end GraphCalc.Decimal
