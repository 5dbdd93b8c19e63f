import GraphCalc.Proofs.Plot.Outcome
import GraphCalc.Proofs.Plot.Steps

/-!
# The cap on samples

A sweep without a cap attempts a number of positions (`Plan.Attempts`), or goes on for ever. A cap of no
less than that number changes nothing, and a smaller one cuts the sweep off when so many samples have
been taken, before it looks at another position. So a sweep with a cap always ends: `run_of_cap`.
-/

namespace GraphCalc

namespace Plan

/-- What a sample takes that nothing caps. -/
structure Samples (plan : Plan) (o : PlotOptions) (b : Bindings) (k : Nat) : Prop where
  within : plan.position o k ≤ plan.range.max
  exists_value : ∃ y, (plan.bindingsAt o b k).evaluate o.maxDepth plan.expr = .ok y

/-- So many positions a sweep attempts that nothing caps: those before the first that is not within the
maximum, or those up to the first where the expression has no value. There is no such number if neither
comes. -/
inductive Attempts (plan : Plan) (o : PlotOptions) (b : Bindings) : Nat → Prop
  | passed : (∀ k < n, plan.Samples o b k) → ¬ plan.position o n ≤ plan.range.max →
      Attempts plan o b n
  | failed : (∀ k < n, plan.Samples o b k) → plan.position o n ≤ plan.range.max →
      (plan.bindingsAt o b n).evaluate o.maxDepth plan.expr = .error err → Attempts plan o b (n + 1)

variable {plan : Plan} {o o' : PlotOptions} {b : Bindings} {n limit fuel : Nat}
  {st : Sweep.Progress}

/-! ## Samples and caps -/

/-- A sample that is allowed is taken. -/
theorem exceeded?_of_allows (h : o.Allows n) : Sweep.exceeded? o n = none := by
  rw [Sweep.exceeded?, Option.filter_eq_none_iff]
  intro limit hlimit
  simpa using h limit hlimit

/-- So many positions have been noted as samples were taken. -/
theorem Advances.size_xs (hb : b.Compact) (hx : Entries.lookup b.entries plan.name = none)
    (h : plan.Advances o b n st) : st.xs.size = n := by
  obtain ⟨ys, -, hst⟩ := h.reached hb hx
  rw [hst.xs_eq, size_positions]

/-- Samples are the same if they are capped alike and, where they are not, have the same value. -/
theorem sample_congr {e e' : Expr} {x : String} {p : Float}
    (hcap : Sweep.exceeded? o' st.xs.size = Sweep.exceeded? o st.xs.size)
    (hvalue : Sweep.exceeded? o st.xs.size = none →
      Bindings.evaluate (st.bindings.put x (.number p)) o'.maxDepth e' =
        Bindings.evaluate (st.bindings.put x (.number p)) o.maxDepth e) :
    Sweep.sample o' e' x p st = Sweep.sample o e x p st := by
  unfold Sweep.sample
  rw [hcap]
  cases hex : Sweep.exceeded? o st.xs.size with
  | some limit => rfl
  | none => simp only [hvalue hex]

/-- After as many samples as it attempts, or one before that, a sweep stops. -/
theorem Attempts.exists_stops (h : plan.Attempts o b n) :
    ∃ k, plan.Stops o b k ∧ ∀ j ≤ k, plan.position o j ≤ plan.range.max → j < n := by
  cases h with
  | passed _ hpassed =>
    refine ⟨n, .inl hpassed, fun j hj hwithin => Nat.lt_of_le_of_ne hj ?_⟩
    rintro rfl
    exact hpassed hwithin
  | failed _ _ herr => exact ⟨_, .inr (.inr ⟨_, herr⟩), fun j hj _ => Nat.lt_succ_of_le hj⟩

/-- A cap of no less than what is attempted does not change the sweep. -/
theorem sweep_of_attempts (hb : b.Compact) (hx : Entries.lookup b.entries plan.name = none)
    (h : plan.Attempts { o with maxSamples := none } b n) (hle : n ≤ limit) (fuel : Nat) :
    plan.sweep { o with maxSamples := some limit } fuel b =
      plan.sweep { o with maxSamples := none } fuel b := by
  obtain ⟨k, hstops, hlt⟩ := h.exists_stops
  have hmatch (j : Nat) (hj : j ≤ k) : plan.Matches plan { o with maxSamples := none }
      { o with maxSamples := some limit } b j := by
    refine ⟨rfl, rfl, fun st hst hwithin => sample_congr ?_ fun _ => rfl⟩
    have hallowed : PlotOptions.Allows { o with maxSamples := some limit } j := by
      rintro _ ⟨⟩
      exact Nat.lt_of_lt_of_le (hlt j hj hwithin) hle
    rw [hst.size_xs hb hx, exceeded?_of_allows hallowed]
    rfl
  exact sweep_eq_of_stops hb hx hmatch hstops fuel

/-- A sweep does not get beyond its cap. -/
theorem stops_of_cap (plan : Plan) (b : Bindings) (h : o.maxSamples = some limit) :
    plan.Stops o b limit :=
  .inr (.inl fun hallowed => Nat.lt_irrefl limit (hallowed limit h))

/-- A smaller cap cuts the sweep off. -/
theorem ended_of_cap (hb : b.Compact) (hx : Entries.lookup b.entries plan.name = none)
    (hcap : o.maxSamples = some limit)
    (h : ∀ n, plan.Attempts { o with maxSamples := none } b n → limit < n) :
    ∃ st, plan.sweep o (limit + 1) b = some (.error (.tooManySamples limit), st) ∧
      plan.Sampled o b limit st.ys ∧ plan.Reached o b limit st.ys st := by
  obtain ⟨⟨res, st⟩, hsweep⟩ := Option.isSome_iff_exists.1
    (isSome_sweep_of_stops hb hx (stops_of_cap plan b hcap) (Nat.lt_succ_self limit))
  have hsamples {n : Nat} {ys : Array Float} (hs : plan.Sampled o b n ys) :
      ∀ k < n, plan.Samples { o with maxSamples := none } b k :=
    fun k hk => ⟨hs.within k hk, _, hs.values k (by rwa [hs.size_eq])⟩
  cases ended_of_sweep hb hx hsweep with
  | passed hs hpassed hst =>
    have hlt := h _ (.passed (hsamples hs) hpassed)
    exact absurd (hs.allowed limit hlt limit hcap) (Nat.lt_irrefl limit)
  | @broken n ys err m _ hs hbreaks hst =>
    cases hbreaks with
    | failed hwithin hallowed herr =>
      have hlt := h _ (.failed (hsamples hs) hwithin herr)
      exact absurd (hallowed limit hcap) (Nat.not_lt_of_le (Nat.le_of_lt_succ hlt))
    | @capped limit' _ hlimit hle =>
      cases hcap.symm.trans hlimit
      have hge : n ≤ limit := Nat.le_of_not_lt fun hlt =>
        absurd (hs.allowed limit hlt limit hcap) (Nat.lt_irrefl limit)
      obtain rfl := Nat.le_antisymm hge hle
      obtain rfl := hst.ys_eq
      exact ⟨st, hsweep, hs, hst⟩

/-- What a sweep with a cap does depends on the values at the positions before the cap only. -/
theorem sweep_of_values (hb : b.Compact) (hx : Entries.lookup b.entries plan.name = none)
    (hcap : o.maxSamples = some limit) {e : Expr}
    (he : ∀ k < limit, (plan.bindingsAt o b k).evaluate o.maxDepth e =
      (plan.bindingsAt o b k).evaluate o.maxDepth plan.expr) (fuel : Nat) :
    sweep { plan with expr := e } o fuel b = plan.sweep o fuel b := by
  have hmatch (k : Nat) : plan.Matches { plan with expr := e } o o b k := by
    refine ⟨rfl, rfl, fun st hst _ => sample_congr rfl fun hnone => ?_⟩
    obtain ⟨ys, -, hreached⟩ := hst.reached hb hx
    rw [hst.size_xs hb hx] at hnone
    rw [hreached.evaluate_put hb hx, hreached.evaluate_put hb hx]
    exact he k (exceeded?_eq_none hnone limit hcap)
  exact sweep_eq_of_stops hb hx (fun k _ => hmatch k) (stops_of_cap plan b hcap) fuel

end Plan

/-! ## Runs with a cap -/

variable {o : PlotOptions} {b : Bindings} {node : Expr}

/-- A cap on samples cuts a sweep off and changes nothing else. With a cap every run ends. If the cap is
no less than what is attempted without one, the run has the same report. If it is less, or the sweep
would not end, the run fails when exactly so many samples have been taken. The next position is not
bound then, the value there does not matter, and nothing is drawn. -/
theorem run_of_cap {plan : Plan} (hb : b.Built) (hplan : Plan.ofExpr o b node = .ok plan)
    (draw : Renderer σ) (s : σ) (limit : Nat) :
    let free : PlotOptions := { o with maxSamples := none }
    let capped : PlotOptions := { o with maxSamples := some limit }
    (∀ fuel > limit, (capped.run draw fuel b s node).isSome) ∧
    (∀ n ≤ limit, plan.Attempts free b n →
      ∀ fuel, capped.run draw fuel b s node = free.run draw fuel b s node) ∧
    ((∀ n, plan.Attempts free b n → limit < n) →
      ∃ st, plan.Sampled capped b limit st.ys ∧ st.xs = plan.positions capped limit ∧
        (∀ fuel > limit, plan.sweep capped fuel b = some (.error (.tooManySamples limit), st)) ∧
        (∀ e, (∀ k < limit, (plan.bindingsAt capped b k).evaluate o.maxDepth e =
            (plan.bindingsAt capped b k).evaluate o.maxDepth plan.expr) →
          ∀ fuel, Plan.sweep { plan with expr := e } capped fuel b = plan.sweep capped fuel b) ∧
        ∀ fuel > limit, ∃ report, capped.run draw fuel b s node = some report ∧
          report.result = .error (.tooManySamples limit) ∧ report.renderer = s ∧
          report.bindings.entries =
            if o.unbindOnFailure then b.entries else plan.entriesAfter capped b limit) := by
  intro free capped
  have hp := Plan.admitted_of_ofExpr hplan
  have hc := hb.compact
  have hx := hp.lookup_eq_none hc
  have hfree : Plan.ofExpr free b node = .ok plan := hplan
  have hcapped : Plan.ofExpr capped b node = .ok plan := hplan
  refine ⟨fun fuel hlt => ?_, fun n hle hn fuel => ?_, fun hn => ?_⟩
  · rw [Plan.run_eq hcapped, Option.isSome_map]
    exact Plan.isSome_sweep_of_stops hc hx (Plan.stops_of_cap plan b rfl) hlt
  · rw [Plan.run_eq hcapped, Plan.run_eq hfree, Plan.sweep_of_attempts hc hx hn hle]
    rfl
  · obtain ⟨st, hsweep, hs, hst⟩ := Plan.ended_of_cap (o := capped) hc hx rfl hn
    have hsweep' (fuel : Nat) (hlt : fuel > limit) := Plan.sweep_of_le hsweep hlt
    refine ⟨st, hs, hst.xs_eq, hsweep', fun e he => Plan.sweep_of_values hc hx rfl he,
      fun fuel hlt => ⟨plan.abandon capped s st (.tooManySamples limit), ?_, rfl, rfl, ?_⟩⟩
    · rw [Plan.run_eq hcapped, hsweep' fuel hlt]
      rfl
    · exact (hst.afterFailure (o := capped) hx).2

/-- `plot(x * a, x, lo, lo + 2, inc)` with `a` bound to 2. From 0 in steps of 1 there are three samples, and
a cap of 3 changes nothing. From 2 ^ 53 a step of a half is lost and the sweep never ends; a cap of 2 ends
it after two samples. -/
theorem run_of_cap_exact_and_stalled :
    let b : Bindings := (Store.withCapacity 1).put "a" (.number 2.0)
    let e : Expr := .operation "*" [.var "x", .var "a"]
    let node : Float → Float → Expr := fun lo inc =>
      .operation "plot" [e, .var "x", .number lo, .number (lo + 2.0), .number inc]
    let o : Option Nat → PlotOptions := fun cap => ⟨.accumulate, true, 4, cap⟩
    (∀ fuel, (o (some 3)).run Renderer.recording fuel b .empty (node 0.0 1.0) =
      (o none).run Renderer.recording fuel b .empty (node 0.0 1.0)) ∧
    ∀ fuel > 2, ∃ report,
      (o (some 2)).run Renderer.recording fuel b .empty (node 9007199254740992.0 0.5) = some report ∧
        report.result = .error (.tooManySamples 2) ∧ report.renderer = .empty ∧
        report.bindings.entries = b.entries := by
  intro b e node o
  have hbuilt : b.Built := .put (.withCapacity 1) _ _
  constructor
  · have hplan : Plan.ofExpr (o none) b (node 0.0 1.0) = .ok ⟨e, "x", ⟨0.0, 2.0, 1.0⟩⟩ := by rfl
    obtain ⟨-, hsame, -⟩ := run_of_cap hbuilt hplan Renderer.recording Record.empty 3
    refine hsame 3 (Nat.le_refl 3) (.passed (fun k hk => ?_) (by decide))
    match k, hk with
    | 0, _ | 1, _ | 2, _ => exact ⟨by decide, _, by rfl⟩
  · let plan : Plan := ⟨e, "x", ⟨9007199254740992.0, 9007199254740994.0, 0.5⟩⟩
    have hplan : Plan.ofExpr (o none) b (node 9007199254740992.0 0.5) = .ok plan := by rfl
    have hstalled : ∀ k, plan.position (o none) k = 9007199254740992.0 := by
      intro k
      induction k with
      | zero => rfl
      | succ k ih =>
        change plan.position (o none) k + 0.5 = _
        rw [ih]
        rfl
    obtain ⟨-, -, hcut⟩ := run_of_cap hbuilt hplan Renderer.recording Record.empty 2
    have hendless : ∀ n, ¬ plan.Attempts (o none) b n := by
      intro n h
      cases h with
      | passed _ hpassed =>
        rw [hstalled] at hpassed
        exact hpassed (by decide)
      | failed _ _ herr =>
        rw [Plan.bindingsAt, hstalled] at herr
        cases herr
    obtain ⟨st, -, -, -, -, hrun⟩ := hcut fun n hn => absurd hn (hendless n)
    exact hrun

end GraphCalc
