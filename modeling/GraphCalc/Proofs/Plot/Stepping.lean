import GraphCalc.Proofs.Plot.Outcome
import GraphCalc.Proofs.Plot.Steps

/-!
# The two steppings

Adding the step again and again and computing positions from their indices differ by rounding only. As
long as the positions are the same floats, so are the bindings and the samples of the two sweeps, and
if they are the same up to the index where the sweep stops, the two runs cannot be told apart but by
the log, which names the stepping: `run_of_stepping`.
-/

namespace GraphCalc

/-- What a run returns and leaves behind, without what it tells. -/
def Report.effect (report : Report σ) : Except EvalError Outcome × Bindings × σ :=
  (report.result, report.bindings, report.renderer)

variable {o : PlotOptions} {draw : Renderer σ} {b : Bindings} {s : σ} {node : Expr}

namespace Plan

variable {plan : Plan} {t : Stepping} {k fuel : Nat}

/-- Only the log of what follows a sweep depends on the stepping. -/
theorem effect_conclude (plan : Plan) (o : PlotOptions) (t : Stepping) (draw : Renderer σ) (s : σ)
    (ended : Except EvalError Unit × Sweep.Progress) :
    (plan.conclude { o with stepping := t } draw s ended).effect =
      (plan.conclude o draw s ended).effect := by
  rcases ended with ⟨_ | _, st⟩
  · rfl
  · simp only [conclude, complete]
    split <;> rfl

/-- Runs with the same sweep have the same effect, whatever the stepping. -/
theorem effect_run_of_sweep (h : ofExpr o b node = .ok plan)
    (hsweep : plan.sweep { o with stepping := t } fuel b = plan.sweep o fuel b) :
    (PlotOptions.run { o with stepping := t } draw fuel b s node).map Report.effect =
      (o.run draw fuel b s node).map Report.effect := by
  have h' : ofExpr { o with stepping := t } b node = .ok plan := h
  rw [run_eq h', run_eq h, hsweep, Option.map_map, Option.map_map]
  congr 1
  exact funext fun ended => effect_conclude plan o t draw s ended

/-- Where the positions are the same the two sweeps do the same. -/
theorem matches_of_position
    (h : plan.position { o with stepping := t } k = plan.position o k) :
    plan.Matches plan o { o with stepping := t } b k :=
  ⟨h, rfl, fun _ _ _ => rfl⟩

end Plan

/-- The steppings differ by rounding only. If the positions of all indices up to the first where no sample
is taken are the same floats in both, the two runs end after the same fuel or neither ends, with the same
result, the same bindings and the same state of the renderer. In any case they take the same samples as
long as the positions are the same, and have the same effect if they end by then. -/
theorem run_of_stepping (o : PlotOptions) (hb : b.Built) (draw : Renderer σ) (s : σ) (node : Expr) :
    let added : PlotOptions := { o with stepping := .accumulate }
    let indexed : PlotOptions := { o with stepping := .indexed }
    ((∀ plan, Plan.ofExpr o b node = .ok plan → ∀ k, (∀ j < k, ¬ plan.Stops added b j) →
        plan.position added k = plan.range.min + Float.ofNat k * plan.range.step) →
      ∀ fuel, (indexed.run draw fuel b s node).map Report.effect =
        (added.run draw fuel b s node).map Report.effect) ∧
    ∀ plan m, Plan.ofExpr o b node = .ok plan →
      (∀ k < m, plan.position added k = plan.range.min + Float.ofNat k * plan.range.step) →
      (∀ n ≤ m, ∀ st, plan.Advances indexed b n st ↔ plan.Advances added b n st) ∧
      ∀ fuel ≤ m, (indexed.run draw fuel b s node).map Report.effect =
        (added.run draw fuel b s node).map Report.effect := by
  intro added indexed
  have hmatch {plan : Plan} {k : Nat}
      (h : plan.position added k = plan.range.min + Float.ofNat k * plan.range.step) :
      plan.Matches plan added indexed b k :=
    Plan.matches_of_position ((plan.range.positions_position .indexed k).trans h.symm)
  refine ⟨fun hsame fuel => ?_, fun plan m hplan hsame => ?_⟩
  · cases hplan : Plan.ofExpr o b node with
    | error err =>
      have hadded : Plan.ofExpr added b node = .error err := hplan
      have hindexed : Plan.ofExpr indexed b node = .error err := hplan
      rw [PlotOptions.run, PlotOptions.run, hadded, hindexed]
    | ok plan =>
      have hc := hb.compact
      have hx := (Plan.admitted_of_ofExpr hplan).lookup_eq_none hc
      have hadded : Plan.ofExpr added b node = .ok plan := hplan
      exact Plan.effect_run_of_sweep hadded
        (Plan.sweep_eq_of_matches hc hx (fun k hk => hmatch (hsame plan hplan k hk)) fuel)
  · have hadded : Plan.ofExpr added b node = .ok plan := hplan
    have hall : ∀ k < m, plan.Matches plan added indexed b k := fun k hk => hmatch (hsame k hk)
    exact ⟨Plan.advances_congr hall, fun fuel hle =>
      Plan.effect_run_of_sweep hadded (Plan.sweep_congr hall fuel hle)⟩

/-- `plot(x * 2, x, 0, hi, inc)`. Up to 2 in steps of 1 the positions are the same, and so are the runs.
Up to 0.6 in steps of 0.1 they are the same at six indices. At the next one adding gives 0.6 and
multiplying a little more, so that one run takes seven samples and the other one six. -/
theorem run_of_stepping_tenths :
    let b : Bindings := Store.withCapacity 1
    let e : Expr := .operation "*" [.var "x", .number 2.0]
    let node : Range → Expr := fun r =>
      .operation "plot" [e, .var "x", .number r.min, .number r.max, .number r.step]
    let o : Stepping → PlotOptions := fun t => ⟨t, false, 4, none⟩
    let units : Range := ⟨0.0, 2.0, 1.0⟩
    let tenths : Range := ⟨0.0, 0.6, 0.1⟩
    (∀ fuel, ((o .indexed).run Renderer.recording fuel b .empty (node units)).map Report.effect =
      ((o .accumulate).run Renderer.recording fuel b .empty (node units)).map Report.effect) ∧
    (∀ n ≤ 6, ∀ st, Plan.Advances ⟨e, "x", tenths⟩ (o .indexed) b n st ↔
      Plan.Advances ⟨e, "x", tenths⟩ (o .accumulate) b n st) ∧
    tenths.position .accumulate 6 ≤ tenths.max ∧ ¬ tenths.position .indexed 6 ≤ tenths.max := by
  intro b e node o units tenths
  have hbuilt : b.Built := .withCapacity 1
  have hrun (r : Range) := run_of_stepping (o .accumulate) hbuilt Renderer.recording .empty (node r)
  have hplan : Plan.ofExpr (o .accumulate) b (node units) = .ok ⟨e, "x", units⟩ := by
    subst b e node o units
    rfl
  have hplan' : Plan.ofExpr (o .accumulate) b (node tenths) = .ok ⟨e, "x", tenths⟩ := by
    subst b e node o tenths
    rfl
  have hunits : ∀ k ≤ 3, units.position .accumulate k = units.min + Float.ofNat k * units.step := by
    decide +kernel
  have htenths : ∀ k < 6,
      tenths.position .accumulate k = tenths.min + Float.ofNat k * tenths.step := by
    decide +kernel
  have hlast : ¬ units.position .accumulate 3 ≤ units.max := by decide +kernel
  refine ⟨(hrun units).1 fun plan hplan₁ k hk => ?_, ((hrun tenths).2 _ 6 hplan' htenths).1,
    by decide +kernel⟩
  cases hplan.symm.trans hplan₁
  exact hunits k (Nat.le_of_not_lt fun hlt => hk 3 hlt (.inl hlast))

end GraphCalc
