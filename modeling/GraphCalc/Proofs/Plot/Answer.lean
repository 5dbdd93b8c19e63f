import GraphCalc.Proofs.Plot.Outcome
import GraphCalc.Proofs.Simplification.Depth

/-!
# What a drawn plot answers

A plot is simplified when its chart is drawn already. If a sample has been taken this does not fail:
the expression had a value within the limit while the variable was bound, and what has a value is
simplified within the same limit under fewer bindings. The simplified expression then has the values
of the samples again, position by position (`run_of_drawn`).
-/

namespace GraphCalc

namespace Plan

variable {plan : Plan} {o : PlotOptions} {b : Bindings} {n : Nat} {ys : Array Float}
  {st : Sweep.Progress} {e : Expr}

/-- Once the chart is drawn, the result is that of the simplification under the bindings from before. -/
theorem Reached.result_complete {draw : Renderer σ} {s s' : σ} (hb : b.Compact)
    (hx : Entries.lookup b.entries plan.name = none) (hst : plan.Reached o b n ys st)
    (hdraw : draw (plan.chart st) s = (.ok (), s')) :
    (plan.complete o draw s st).result =
      (b.simplify o.maxDepth plan.expr).map fun e => ⟨e, plan.name, st.xs, st.ys⟩ := by
  obtain ⟨hc, hentries⟩ := hst.afterSuccess hx
  unfold complete
  simp only [hdraw, Bindings.simplify_congr hc hb hentries]

/-- Binding the variable to a position only adds to the bindings, as it was unbound. -/
theorem extends_bindingsAt (hb : b.Compact) (hx : b.get? plan.name = none) (o : PlotOptions)
    (k : Nat) : b.Extends (plan.bindingsAt o b k) :=
  Bindings.extends_put hb hx _

/-- What can be sampled can be simplified. -/
theorem Sampled.exists_simplify (hb : b.Compact) (hx : b.get? plan.name = none)
    (hs : plan.Sampled o b n ys) (hn : 0 < n) : ∃ e, b.simplify o.maxDepth plan.expr = .ok e :=
  Bindings.exists_simplify_of_evaluate (extends_bindingsAt hb hx o 0)
    (hs.values 0 (by rwa [hs.size_eq]))

/-- The simplified expression has the values of the samples. -/
theorem Sampled.evaluate_simplified (hb : b.Compact) (hx : b.get? plan.name = none)
    (hs : plan.Sampled o b n ys) (he : b.simplify o.maxDepth plan.expr = .ok e) (k : Nat)
    (hk : k < ys.size) : (plan.bindingsAt o b k).evaluate o.maxDepth e = .ok ys[k] := by
  have hrefines := Bindings.refines_of_simplifyWithin (extends_bindingsAt hb hx o k) _ _ _ _ he
  exact hrefines.evaluate_eq_ok (hs.values k hk)

/-- The position listed at an index is the position of that index. -/
theorem getElem_positions (plan : Plan) (o : PlotOptions) (n i : Nat)
    (hi : i < (plan.positions o n).size) : (plan.positions o n)[i] = plan.position o i := by
  simp [positions]

end Plan

variable {o : PlotOptions} {draw : Renderer σ} {fuel : Nat} {b : Bindings} {s s' : σ} {node : Expr}

/-- A run whose sweep is complete and whose chart is drawn succeeds if a sample has been taken, and the
simplified expression reproduces all samples: with the variable bound to a position it has the value
there, within the same limit. If the run fails in spite of the drawing then no sample has been taken,
and the expression is too deep to be simplified. -/
theorem run_of_drawn {plan : Plan} {st : Sweep.Progress} (hb : b.Built)
    (hplan : Plan.ofExpr o b node = .ok plan)
    (hsweep : plan.sweep o fuel b = some (.ok (), st))
    (hdraw : draw (plan.chart st) s = (.ok (), s')) :
    (∃ lo hi inc, node = .operation "plot" [plan.expr, .var plan.name, lo, hi, inc]) ∧
    ∃ report, o.run draw fuel b s node = some report ∧
      (0 < st.xs.size → ∃ out, report.result = .ok out ∧ out.xs = st.xs ∧ out.ys = st.ys ∧
        out.ys.size = out.xs.size ∧ ∀ i (hx : i < out.xs.size) (hy : i < out.ys.size),
          Bindings.evaluate (b.put plan.name (.number out.xs[i])) o.maxDepth out.simplified =
            .ok out.ys[i]) ∧
      ∀ err, report.result = .error err → st.xs.size = 0 ∧ err = .tooDeep o.maxDepth := by
  have hp := Plan.admitted_of_ofExpr hplan
  have hlookup := hp.lookup_eq_none hb.compact
  have hx : b.get? plan.name = none := by rw [hb.compact.get?_eq, hlookup]
  obtain ⟨lo, hi, inc, hnode, -⟩ := hp.exists_bounds
  refine ⟨⟨lo, hi, inc, hnode⟩, plan.complete o draw s st, ?_, ?_⟩
  · rw [PlotOptions.run, hplan]
    simp only [hsweep, Option.map_some]
  cases Plan.ended_of_sweep hb.compact hlookup hsweep with
  | @passed n ys _ hs _ hst =>
  have hsize : st.xs.size = n := by rw [hst.xs_eq, Plan.size_positions]
  rw [hst.result_complete hb.compact hlookup hdraw]
  refine ⟨fun hpos => ?_, fun err herr => ?_⟩
  · obtain ⟨e, he⟩ := hs.exists_simplify hb.compact hx (hsize ▸ hpos)
    rw [he]
    refine ⟨_, rfl, rfl, rfl, by rw [hst.ys_eq, hs.size_eq, hsize], fun i hxs hys => ?_⟩
    have hvalue := hs.evaluate_simplified hb.compact hx he i (by rwa [← hst.ys_eq])
    simp only [hst.xs_eq, hst.ys_eq, Plan.getElem_positions]
    exact hvalue
  · -- The chart is drawn, so only the simplification can have failed. It succeeds if there is a sample.
    cases he : b.simplify o.maxDepth plan.expr with
    | ok e =>
      rw [he] at herr
      cases herr
    | error err' =>
      rw [he] at herr
      cases herr
      refine ⟨Nat.eq_zero_of_not_pos fun hpos => ?_, (Bindings.nests_of_simplifyWithin_error he).1⟩
      obtain ⟨e, he'⟩ := hs.exists_simplify hb.compact hx (hsize ▸ hpos)
      cases he.symm.trans he'

/-- `plot(z * 3, x, 0, a, 1)` with `z` bound to `a + x`: the answer is `(a + x) * 3`, which reproduces
the last of the three samples. Without a sample, since the range begins at a NaN, an expression that is
too deep fails although its chart is drawn. -/
theorem run_of_drawn_symbolic_binding :
    let b : Bindings :=
      ((Store.withCapacity 2).put "a" (.number 2.0)).put "z" (.operation "+" [.var "a", .var "x"])
    let e : Expr := .operation "*" [.var "z", .number 3.0]
    let deep : Expr := .operation "sin" [.operation "sin" [e]]
    let node : Expr → Expr → Expr := fun e lo =>
      .operation "plot" [e, .var "x", lo, .var "a", .number 1.0]
    let nan : Expr := .operation "/" [.number 0.0, .number 0.0]
    let o : PlotOptions := ⟨.accumulate, false, 4, none⟩
    (∃ report out, o.run Renderer.recording 4 b .empty (node e (.number 0.0)) = some report ∧
      report.result = .ok out ∧ out.xs = #[0.0, 1.0, 2.0] ∧ out.ys = #[6.0, 9.0, 12.0] ∧
      Bindings.evaluate (b.put "x" (.number 2.0)) 4 out.simplified = .ok 12.0) ∧
    ∃ report, o.run Renderer.recording 1 b .empty (node deep nan) = some report ∧
      report.result = .error (.tooDeep 4) ∧ report.renderer.calls = 1 := by
  intro b e deep node nan o
  have hbuilt : b.Built := .put (.put (.withCapacity 2) _ _) _ _
  constructor
  · have hplan : Plan.ofExpr o b (node e (.number 0.0)) = .ok ⟨e, "x", ⟨0.0, 2.0, 1.0⟩⟩ := by rfl
    have hends : (Plan.sweep ⟨e, "x", ⟨0.0, 2.0, 1.0⟩⟩ o 4 b).map
        (fun r => (r.1, r.2.xs, r.2.ys)) =
          some (.ok (), #[0.0, 1.0, 2.0], #[6.0, 9.0, 12.0]) := by
      subst b e o
      rfl
    obtain ⟨⟨res, st⟩, hsweep, heq⟩ := Option.map_eq_some_iff.1 hends
    simp only [Prod.mk.injEq] at heq
    obtain ⟨rfl, hxs, hys⟩ := heq
    have hdraw : Renderer.recording (Plan.chart ⟨e, "x", ⟨0.0, 2.0, 1.0⟩⟩ st) .empty =
        (.ok (), _) := rfl
    obtain ⟨-, report, hrun, hok, -⟩ := run_of_drawn hbuilt hplan hsweep hdraw
    obtain ⟨out, hout, hxs', hys', -, hvalues⟩ := hok (by simp [hxs])
    rw [hxs] at hxs'
    rw [hys] at hys'
    have hlast := hvalues 2 (by simp [hxs']) (by simp [hys'])
    simp only [hxs', hys'] at hlast
    exact ⟨report, out, hrun, hout, hxs', hys', hlast⟩
  · have hplan : Plan.ofExpr o b (node deep nan) = .ok ⟨deep, "x", ⟨0.0 / 0.0, 2.0, 1.0⟩⟩ := by rfl
    have hsweep : Plan.sweep ⟨deep, "x", ⟨0.0 / 0.0, 2.0, 1.0⟩⟩ o 1 b =
        some (.ok (), ⟨b, #[], #[]⟩) := by
      subst b e deep o
      rfl
    have hends : (o.run Renderer.recording 1 b .empty (node deep nan)).map
        (fun report => (report.result.isOk, report.renderer.calls)) = some (false, 1) := by
      subst b e deep node nan o
      rfl
    have hdraw : Renderer.recording (Plan.chart ⟨deep, "x", ⟨0.0 / 0.0, 2.0, 1.0⟩⟩ ⟨b, #[], #[]⟩)
        .empty = (.ok (), _) := rfl
    obtain ⟨-, report, hrun, -, hfail⟩ := run_of_drawn hbuilt hplan hsweep hdraw
    simp only [hrun, Option.map_some, Option.some.injEq, Prod.mk.injEq] at hends
    obtain ⟨hresult, hcalls⟩ := hends
    cases herr : report.result with
    | ok out =>
      rw [herr] at hresult
      cases hresult
    | error err => exact ⟨report, hrun, by rw [herr, (hfail err herr).2], hcalls⟩

end GraphCalc
