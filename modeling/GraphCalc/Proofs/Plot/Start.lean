import Mathlib
import GraphCalc.Proofs.Plot.Outcome

/-!
# The first position

With accumulated steps the first position is the minimum of the range. With positions computed from
their index it is the minimum plus no times the step. For a finite step the product is zero and the sum
is the minimum again, up to the sign of a zero. For an infinite step the product is not a number, and
neither is the sum, so that it is not within any maximum (`Range.start_cases`): the sweep ends before
its first sample. `first_of_run` says what this means for a run, and `first_of_run_infinite_step` is a
run that succeeds without a sample although its range has a minimum.
-/

namespace GraphCalc

/-! ## Adding nothing -/

namespace Arithmetic

open Float.Model

variable {a b : Float}

/-- Floats are compared by their unpacked values. -/
theorem lt_iff_unpack :
    a < b ↔ UnpackedFloat.lt a.toModel.unpack b.toModel.unpack = true := decide_eq_true_iff

/-- The same for the comparison that allows equality. -/
theorem le_iff_unpack :
    a ≤ b ↔ UnpackedFloat.le a.toModel.unpack b.toModel.unpack = true := decide_eq_true_iff

/-- A product is that of the unpacked values, rounded and packed. -/
theorem mul_eq_pack (a b : Float) :
    a * b = .ofModel (pack (.mul .binary64 a.toModel.unpack b.toModel.unpack)) := rfl

/-- A sum is that of the unpacked values, rounded and packed. -/
theorem add_eq_pack (a b : Float) :
    a + b = .ofModel (pack (.add .binary64 a.toModel.unpack b.toModel.unpack)) := rfl

/-- Nothing is lost by unpacking. -/
theorem pack_unpack (a : Float) : Float.ofModel (pack a.toModel.unpack) = a := a.ofBits_toBits

/-- The literal is the positive zero. -/
theorem unpack_zero : (0.0 : Float).toModel.unpack = .zero .positive := rfl

/-- Zero times a positive number is zero, unless the number is infinite. -/
theorem zero_mul_of_pos (h : 0.0 < a) : 0.0 * a = if a.isInf then Float.nan else 0.0 := by
  rw [lt_iff_unpack, unpack_zero] at h
  rw [mul_eq_pack, unpack_zero]
  change _ = if a.toModel.unpack.isInf then Float.nan else 0.0
  cases ha : a.toModel.unpack with
  | notANumber | zero =>
    rw [ha] at h
    cases h
  | infinity => rfl
  | finite sign =>
    cases sign with
    | positive => rfl
    | negative =>
      rw [ha] at h
      cases h

/-- Adding zero changes a number at most by the sign of a zero. -/
theorem add_zero_cases (a : Float) : a + 0.0 = a ∨ a = -0.0 ∧ a + 0.0 = 0.0 := by
  have hpack := pack_unpack a
  rw [add_eq_pack, unpack_zero]
  cases ha : a.toModel.unpack with
  | notANumber | infinity | finite =>
    left
    rw [ha] at hpack
    exact hpack
  | zero sign =>
    rw [ha] at hpack
    cases sign with
    | positive => exact .inl hpack
    | negative => exact .inr ⟨hpack.symm, rfl⟩

/-- The two zeros are below the same numbers. -/
theorem neg_zero_le_iff : -0.0 ≤ b ↔ 0.0 ≤ b := by
  rw [le_iff_unpack, le_iff_unpack]
  change UnpackedFloat.le (.zero .negative) _ = true ↔ UnpackedFloat.le (.zero .positive) _ = true
  cases b.toModel.unpack with
  | notANumber | zero => rfl
  | infinity sign | finite sign => cases sign <;> rfl

/-- A sum with NaN is NaN. -/
theorem add_nan (a : Float) : a + Float.nan = Float.nan := by
  rw [add_eq_pack]
  change Float.ofModel (pack (.add _ _ .notANumber)) = _
  cases a.toModel.unpack <;> rfl

/-- NaN is not below anything. -/
theorem not_nan_le (b : Float) : ¬ Float.nan ≤ b := by
  rw [le_iff_unpack]
  nofun

/-- What can be compared is not NaN, and so equals itself. -/
theorem beq_self_of_le (h : a ≤ b) : (a == a) = true := by
  rw [Float.beq_self_iff]
  rintro rfl
  exact not_nan_le b h

end Arithmetic

/-! ## The first position of a range -/

/-- The first position is not within the maximum if it is computed from its index with an infinite step;
otherwise it is the minimum, and within the maximum if that is. -/
theorem Range.start_cases {r : Range} {s : Stepping} (hrange : r.min ≤ r.max) (hstep : 0.0 < r.step) :
    if s = .indexed ∧ r.step.isInf = true then ¬ r.start s ≤ r.max
    else r.start s ≤ r.max ∧ (r.start s == r.min) = true := by
  have hself := Arithmetic.beq_self_of_le hrange
  cases s with
  | accumulate => exact ⟨hrange, hself⟩
  | indexed =>
    have hstart : r.start .indexed = r.min + if r.step.isInf then Float.nan else 0.0 := by
      rw [← Arithmetic.zero_mul_of_pos hstep]
      rfl
    rw [hstart]
    split
    · next hinf =>
      rw [if_pos hinf.2, Arithmetic.add_nan]
      exact Arithmetic.not_nan_le r.max
    · next hfinite =>
      rw [if_neg fun hinf => hfinite ⟨rfl, hinf⟩]
      rcases Arithmetic.add_zero_cases r.min with hmin | ⟨hmin, hzero⟩
      · rw [hmin]
        exact ⟨hrange, hself⟩
      · rw [hzero, ← Arithmetic.neg_zero_le_iff, ← hmin]
        refine ⟨hrange, ?_⟩
        rw [hmin]
        rfl

/-! ## Runs -/

variable {o : PlotOptions} {draw : Renderer σ} {fuel : Nat} {b : Bindings} {s : σ} {report : Report σ}

/-- The bounds and the step have one value each. -/
theorem Plan.Bounds.range_eq {lo hi inc : Expr} {r r' : Range} (h : Plan.Bounds o b lo hi inc r)
    (h' : Plan.Bounds o b lo hi inc r') : r = r' := by
  have hmin := Except.ok.inj (h.min.symm.trans h'.min)
  have hmax := Except.ok.inj (h.max.symm.trans h'.max)
  have hstep := Except.ok.inj (h.step.symm.trans h'.step)
  cases r
  cases r'
  cases hmin
  cases hmax
  cases hstep
  rfl

/-- A sweep that ends at its maximum has samples just if the first position is within it. -/
theorem Plan.Sampled.start_le_iff {plan : Plan} {n : Nat} {ys : Array Float}
    (hs : plan.Sampled o b n ys) (hpassed : ¬ plan.position o n ≤ plan.range.max) :
    plan.range.start o.stepping ≤ plan.range.max ↔ 0 < n := by
  constructor
  · intro hstart
    refine Nat.pos_of_ne_zero ?_
    rintro rfl
    exact hpassed hstart
  · exact fun hpos => hs.within 0 hpos

/-- A run that succeeds over a range that has its minimum has sampled the expression there first. The
exception is an infinite step with positions computed from their index: the run has no samples then. -/
theorem first_of_run {e lo hi inc : Expr} {x : String} {r : Range} {out : Outcome} (hb : b.Built)
    (hr : Plan.Bounds o b lo hi inc r) (hrange : r.min ≤ r.max) (hstep : 0.0 < r.step)
    (h : o.run draw fuel b s (Plan.request e x lo hi inc) = some report)
    (hout : report.result = .ok out) :
    if o.stepping = .indexed ∧ r.step.isInf = true then out.xs = #[] ∧ out.ys = #[]
    else ∃ p, out.xs[0]? = some p ∧ (p == r.min) = true := by
  obtain ⟨-, hcourse⟩ := course_of_run hb.compact h
  rw [hout] at hcourse
  generalize report.bindings.entries = entries, report.renderer = s' at hcourse
  cases hcourse with
  | @complete plan n ys _ _ hp hs hpassed _ _ =>
    obtain ⟨lo', hi', inc', hnode, hr'⟩ := hp.exists_bounds
    cases hnode
    obtain rfl := hr.range_eq hr'
    have hstart := Range.start_cases (s := o.stepping) hrange hstep
    have hpos := hs.start_le_iff hpassed
    split at hstart
    · next hinf =>
      obtain rfl := Nat.eq_zero_of_not_pos (mt hpos.2 hstart)
      rw [if_pos hinf]
      exact ⟨rfl, Array.eq_empty_of_size_eq_zero hs.size_eq⟩
    · next hfinite =>
      obtain ⟨n, rfl⟩ := Nat.exists_eq_succ_of_ne_zero (hpos.1 hstart.1).ne'
      rw [if_neg hfinite]
      refine ⟨plan.range.start o.stepping, ?_, hstart.2⟩
      rw [Plan.positions, List.range_succ_eq_map]
      rfl

/-- Three samples from the negative zero on, which the first position computed from its index is equal
to, and a single one with an infinite step that is accumulated. -/
theorem first_of_run_negative_zero :
    let b : Bindings := Store.withCapacity 1
    let node : Float → Expr := fun step =>
      Plan.request (.var "x") "x" (.number (-0.0)) (.number 1.0) (.number step)
    let o : PlotOptions := ⟨.indexed, false, 4, none⟩
    let o' : PlotOptions := { o with stepping := .accumulate }
    (∃ report out p, o.run Renderer.recording 4 b .empty (node 0.5) = some report ∧
      report.result = .ok out ∧ out.xs = #[0.0, 0.5, 1.0] ∧ out.xs[0]? = some p ∧
      (p == -0.0) = true) ∧
    ∃ report out p, o'.run Renderer.recording 4 b .empty (node (1.0 / 0.0)) = some report ∧
      report.result = .ok out ∧ out.xs = #[-0.0] ∧ out.xs[0]? = some p ∧ (p == -0.0) = true := by
  intro b node o o'
  have hbuilt : b.Built := .withCapacity 1
  have hbounds (step : Float) : Plan.Bounds o b (.number (-0.0)) (.number 1.0) (.number step)
    ⟨-0.0, 1.0, step⟩ := ⟨rfl, rfl, rfl⟩
  have hbounds' (step : Float) : Plan.Bounds o' b (.number (-0.0)) (.number 1.0) (.number step)
    ⟨-0.0, 1.0, step⟩ := ⟨rfl, rfl, rfl⟩
  constructor
  · have hresult : (o.run Renderer.recording 4 b .empty (node 0.5)).map Report.result =
        some (.ok ⟨.var "x", "x", #[0.0, 0.5, 1.0], #[0.0, 0.5, 1.0]⟩) := by
      subst b node o' o
      rfl
    obtain ⟨report, hrun, hout⟩ := Option.map_eq_some_iff.1 hresult
    have hfirst := first_of_run hbuilt (hbounds 0.5) (by decide) (by decide) hrun hout
    rw [if_neg (by decide)] at hfirst
    obtain ⟨p, hp, hmin⟩ := hfirst
    exact ⟨report, _, p, hrun, hout, rfl, hp, hmin⟩
  · have hresult : (o'.run Renderer.recording 4 b .empty (node (1.0 / 0.0))).map Report.result =
        some (.ok ⟨.var "x", "x", #[-0.0], #[-0.0]⟩) := by
      subst b node o' o
      rfl
    obtain ⟨report, hrun, hout⟩ := Option.map_eq_some_iff.1 hresult
    have hfirst := first_of_run hbuilt (hbounds' (1.0 / 0.0)) (by decide) (by decide) hrun hout
    rw [if_neg (by decide)] at hfirst
    obtain ⟨p, hp, hmin⟩ := hfirst
    exact ⟨report, _, p, hrun, hout, rfl, hp, hmin⟩

/-- `plot(x, x, 0, 1, inf)` with positions computed from their index succeeds without a sample, although
0 is not above 1 and the step is positive. -/
theorem first_of_run_infinite_step :
    let b : Bindings := Store.withCapacity 1
    let r : Range := ⟨0.0, 1.0, 1.0 / 0.0⟩
    let node : Expr := Plan.request (.var "x") "x" (.number r.min) (.number r.max) (.number r.step)
    let o : PlotOptions := ⟨.indexed, false, 4, none⟩
    r.min ≤ r.max ∧ 0.0 < r.step ∧ ∃ report out,
      o.run Renderer.recording 1 b .empty node = some report ∧ report.result = .ok out ∧
        out.xs = #[] ∧ report.renderer = ⟨1, some ⟨"Plot", "x", "output", #[], #[]⟩⟩ := by
  intro b r node o
  have hresult : (o.run Renderer.recording 1 b .empty node).map
      (fun report => (report.result, report.renderer)) =
        some (.ok ⟨.var "x", "x", #[], #[]⟩, ⟨1, some ⟨"Plot", "x", "output", #[], #[]⟩⟩) := by
    subst b r node o
    rfl
  obtain ⟨report, hrun, heq⟩ := Option.map_eq_some_iff.1 hresult
  obtain ⟨hout, hdrawn⟩ := Prod.mk.inj heq
  exact ⟨by decide, by decide, report, _, hrun, hout, rfl, hdrawn⟩

end GraphCalc
