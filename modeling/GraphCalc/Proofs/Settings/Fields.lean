import GraphCalc.Proofs.Failures
import GraphCalc.Settings.Basic
import Mathlib.Logic.Function.Basic

/-!
# The fields of settings

Settings are the same thing as a value for each `Setting` (`Settings.get`, `Settings.ext_get`). An
entry that is accepted changes one of these values and does not depend on the others: it gives a
setting a value (`Setting.Gives`), and applying it is to set the field (`apply_eq_ok_iff`).
-/

namespace GraphCalc

/-! ## Reading and setting a field -/

/-- What the values of a setting are. -/
def Setting.Value : Setting → Type
  | logLevel => Level
  | logToFile | unbindOnFailure => Bool
  | backend => Backend
  | output => String
  | width | height | maxDepth | initialCapacity => Nat
  | stepping => Stepping
  | maxSamples => Option Nat
  | csv => Option String

namespace Settings

/-- The value of a setting. -/
def get (t : Settings) : (s : Setting) → s.Value
  | .logLevel => t.logLevel
  | .logToFile => t.logToFile
  | .backend => t.backend
  | .output => t.output
  | .width => t.width
  | .height => t.height
  | .stepping => t.stepping
  | .unbindOnFailure => t.unbindOnFailure
  | .maxSamples => t.maxSamples
  | .csv => t.csv
  | .maxDepth => t.maxDepth
  | .initialCapacity => t.initialCapacity

/-- The settings with another value for one of them. -/
def set (t : Settings) : (s : Setting) → s.Value → Settings
  | .logLevel, l => { t with logLevel := l }
  | .logToFile, b => { t with logToFile := b }
  | .backend, b => { t with backend := b }
  | .output, p => { t with output := p }
  | .width, n => { t with width := n }
  | .height, n => { t with height := n }
  | .stepping, x => { t with stepping := x }
  | .unbindOnFailure, b => { t with unbindOnFailure := b }
  | .maxSamples, n => { t with maxSamples := n }
  | .csv, p => { t with csv := p }
  | .maxDepth, n => { t with maxDepth := n }
  | .initialCapacity, n => { t with initialCapacity := n }

/-- Setting a field changes its value and no other. -/
theorem get_set (t : Settings) (s : Setting) (a : s.Value) :
    (t.set s a).get = Function.update t.get s a := by
  funext s'
  cases s <;> cases s' <;> rfl

/-- Settings are determined by the values of their fields. -/
theorem ext_get {t t' : Settings} (h : ∀ s, t.get s = t'.get s) : t = t' := by
  cases t
  cases t'
  simp only [Settings.mk.injEq]
  exact ⟨h .logLevel, h .logToFile, h .backend, h .output, h .width, h .height, h .stepping,
    h .unbindOnFailure, h .maxSamples, h .csv, h .maxDepth, h .initialCapacity⟩

end Settings

/-! ## Entries -/

namespace Setting

/-- The value that a scalar stands for. The text of a scalar is its own, or that of the number. -/
def value? : (s : Setting) → Scalar → Option s.Value
  | logLevel, v => Level.ofName? v.text
  | logToFile, v | unbindOnFailure, v => v.booleanValue?
  | backend, v => Backend.ofName? v.text
  | output, v => some v.text
  | width, v | height, v => count? maxPixels v
  | stepping, v => Stepping.ofName? v.text
  | maxSamples, v => (count? maxCount v).map some
  | csv, v => some (some v.text)
  | maxDepth, v | initialCapacity, v => count? maxCount v

/-- A scalar that stands for a value sets the field, and any other is refused in the same words. -/
theorem update_eq (s : Setting) (v : Scalar) :
    s.update v = match s.value? v with
      | some a => .ok fun t => t.set s a
      | none => .error (.invalidValue s.place.key v.text) := by
  cases s with
  | output | csv => rfl
  | logToFile | unbindOnFailure => cases v <;> rfl
  | logLevel =>
    simp only [update, value?, Level.parse]
    cases Level.ofName? v.text <;> rfl
  | backend =>
    simp only [update, value?]
    cases Backend.ofName? v.text <;> rfl
  | stepping =>
    simp only [update, value?]
    cases Stepping.ofName? v.text <;> rfl
  | width | height =>
    simp only [update, value?]
    cases count? maxPixels v <;> rfl
  | maxSamples | maxDepth | initialCapacity =>
    simp only [update, value?]
    cases count? maxCount v <;> rfl

/-- Each setting is found at its place. -/
theorem ofPlace_place (s : Setting) : ofPlace s.place = .ok s := by
  cases s <;> rfl

/-- A setting is found at its own place only. -/
theorem place_of_ofPlace {p : Place} {s : Setting} (h : ofPlace p = .ok s) : s.place = p := by
  unfold ofPlace at h
  split at h
  · next s' hfind =>
    cases h
    simpa using List.find?_some hfind
  · split at h <;> cases h

/-- No two settings share a place. -/
theorem place_injective {s s' : Setting} (h : s.place = s'.place) : s = s' := by
  have hs := ofPlace_place s
  rw [h, ofPlace_place] at hs
  exact (Except.ok.inj hs).symm

/-- The entry stands at the place of the setting and has one scalar, which stands for the value. -/
def Gives (e : Place × List Scalar) (s : Setting) (a : s.Value) : Prop :=
  e.1 = s.place ∧ ∃ v, e.2 = [v] ∧ s.value? v = some a

/-- An entry gives a setting one value at most. -/
theorem Gives.unique {e : Place × List Scalar} {s : Setting} {a a' : s.Value} (h : Gives e s a)
    (h' : Gives e s a') : a = a' := by
  obtain ⟨-, v, hv, ha⟩ := h
  obtain ⟨-, v', hv', ha'⟩ := h'
  cases hv.symm.trans hv'
  exact Option.some.inj (ha.symm.trans ha')

end Setting

namespace Settings

variable {t t' : Settings} {p : Place} {vs : List Scalar}

/-- An entry that is accepted sets the field of its place. -/
theorem change_eq_ok_iff {f : Settings → Settings} :
    change p vs = .ok f ↔ ∃ s a, Setting.Gives (p, vs) s a ∧ f = fun t => t.set s a := by
  constructor
  · intro h
    unfold change at h
    split at h
    · next v =>
      obtain ⟨s, hs, h⟩ := ok_of_bind h
      rw [s.update_eq] at h
      split at h
      · next a ha =>
        cases h
        exact ⟨s, a, ⟨(Setting.place_of_ofPlace hs).symm, v, rfl, ha⟩, rfl⟩
      · cases h
    · cases h
  · rintro ⟨s, a, ⟨hp, v, hvs, ha⟩, rfl⟩
    obtain rfl : p = s.place := hp
    obtain rfl : vs = [v] := hvs
    simp only [change, Setting.ofPlace_place, s.update_eq, ha, bind, Except.bind]

/-- Applying an entry is setting the field that it gives a value. -/
theorem apply_eq_ok_iff :
    t.apply p vs = .ok t' ↔ ∃ s a, Setting.Gives (p, vs) s a ∧ t' = t.set s a := by
  constructor
  · intro h
    rw [apply] at h
    cases hchange : change p vs with
    | error err =>
      rw [hchange] at h
      cases h
    | ok f =>
      obtain ⟨s, a, ha, rfl⟩ := change_eq_ok_iff.1 hchange
      rw [hchange] at h
      cases h
      exact ⟨s, a, ha, rfl⟩
  · rintro ⟨s, a, ha, rfl⟩
    rw [apply, change_eq_ok_iff.2 ⟨s, a, ha, rfl⟩]
    rfl

/-- An entry is refused under all settings alike. -/
theorem apply_eq_error {err : SettingsError} (h : t.apply p vs = .error err) (t' : Settings) :
    t'.apply p vs = .error err := by
  rw [apply] at h ⊢
  cases hchange : change p vs with
  | error err' =>
    rw [hchange] at h
    exact h
  | ok f =>
    rw [hchange] at h
    cases h

end Settings

end GraphCalc
