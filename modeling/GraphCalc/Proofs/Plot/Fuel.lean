import GraphCalc.Proofs.Plot.Course
import GraphCalc.Proofs.Plot.Request

/-!
# The fuel of a run

More fuel than needed changes nothing (`PlotOptions.run_of_le`), and a sweep whose positions pass the
maximum at some index needs no more fuel than one unit for each index up to it. A run that meets
such an index therefore has one report, which every fuel beyond the index gives (`run_of_passed`).
-/

namespace GraphCalc

namespace Sweep

variable {o : PlotOptions} {e : Expr} {x : String} {r : Range}

/-- A sweep that ends, ends in the same way with more fuel. -/
theorem sweep_of_le {res : Except EvalError Unit × Progress} : ∀ {fuel fuel' k p st},
    sweep o e x r fuel k p st = some res → fuel ≤ fuel' →
      sweep o e x r fuel' k p st = some res := by
  intro fuel
  induction fuel with
  | zero => intro _ _ _ _ h; cases h
  | succ fuel ih =>
    intro fuel' k p st h hle
    obtain ⟨fuel', rfl⟩ := Nat.exists_eq_succ_of_ne_zero (Nat.ne_zero_of_lt hle)
    simp only [sweep] at h ⊢
    split at h
    · next hwithin =>
      rw [if_pos hwithin]
      split at h
      · exact h
      · exact ih h (Nat.le_of_succ_le_succ hle)
    · next hpassed =>
      rw [if_neg hpassed]
      exact h

/-- A sweep does not go beyond an index whose position is not within the maximum. -/
theorem isSome_sweep {n : Nat} (hpassed : ¬ r.position o.stepping n ≤ r.max) : ∀ {fuel k st},
    k ≤ n → n < k + fuel → (sweep o e x r fuel k (r.position o.stepping k) st).isSome := by
  intro fuel
  induction fuel with
  | zero => intro k st hle hlt; omega
  | succ fuel ih =>
    intro k st hle hlt
    simp only [sweep]
    split
    · next hwithin =>
      have hne : k ≠ n := by
        rintro rfl
        exact hpassed hwithin
      split
      · rfl
      · exact ih (k := k + 1) (by omega) (by omega)
    · rfl

end Sweep

variable {o : PlotOptions} {draw : Renderer σ} {fuel fuel' : Nat} {b : Bindings} {s : σ}
  {node : Expr} {report : Report σ}

/-- With more fuel a run that ends gives the same report. -/
theorem PlotOptions.run_of_le (h : o.run draw fuel b s node = some report) (hle : fuel ≤ fuel') :
    o.run draw fuel' b s node = some report := by
  unfold PlotOptions.run at h ⊢
  split at h
  · exact h
  · obtain ⟨res, hsweep, heq⟩ := Option.map_eq_some_iff.1 h
    exact Option.map_eq_some_iff.2 ⟨res, Sweep.sweep_of_le hsweep hle, heq⟩

/-- A run whose positions pass the maximum ends with fuel beyond that index. -/
theorem Plan.Admitted.isSome_run {plan : Plan} {n : Nat} (hp : Plan.Admitted o b node plan)
    (hpassed : ¬ plan.position o n ≤ plan.range.max) (hlt : n < fuel) :
    (o.run draw fuel b s node).isSome := by
  rw [PlotOptions.run, hp.ofExpr_eq]
  simp only [Option.isSome_map]
  exact Sweep.isSome_sweep hpassed (Nat.zero_le n) (by rwa [Nat.zero_add])

/-- It has the report that it has with any other fuel. -/
theorem Plan.Admitted.run_of_passed {plan : Plan} {n : Nat} (hp : Plan.Admitted o b node plan)
    (hpassed : ¬ plan.position o n ≤ plan.range.max) (h : o.run draw fuel b s node = some report)
    (hlt : n < fuel') : o.run draw fuel' b s node = some report := by
  obtain ⟨report', h'⟩ := Option.isSome_iff_exists.1 (hp.isSome_run hpassed hlt)
  rw [h', ← PlotOptions.run_of_le h' (Nat.le_max_right fuel fuel')]
  exact PlotOptions.run_of_le h (Nat.le_max_left fuel fuel')

end GraphCalc
