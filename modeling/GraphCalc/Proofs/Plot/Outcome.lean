import GraphCalc.Proofs.Plot.Fuel

/-!
# What a plot leaves

`PlotOptions.Course` lists how a run can go: its request is refused, its sweep breaks off, its chart
is refused, its expression cannot be simplified, or it succeeds. Each says what the run returns, which
entries the bindings have afterwards and in which state the renderer is. Every run that ends goes one
of these ways (`course_of_run`), so `run_ok_exact` and `run_error_state` are read off the list.

The variable is bound as the last entry, and so taking it out moves no other entry: the bindings come
back in slot order.
-/

namespace GraphCalc

namespace Plan

variable {plan : Plan} {o : PlotOptions} {b : Bindings} {m : Nat} {ys : Array Float}
  {st : Sweep.Progress}

/-! ## Unbinding the variable -/

/-- Taking the variable out gives the last position and brings the entries back, if a position has
been bound, and finds nothing otherwise. -/
theorem Reached.remove?_cases (hx : Entries.lookup b.entries plan.name = none)
    (hst : plan.Reached o b m ys st) :
    (m = 0 ∧ st.bindings.remove? plan.name = none) ∨
      ∃ k b', m = k + 1 ∧ b'.Compact ∧ b'.entries = b.entries ∧
        st.bindings.remove? plan.name = some (.number (plan.position o k), b') := by
  obtain ⟨heq, hc⟩ := hst.compact.remove?_eq plan.name
  rw [hst.entries_eq] at heq
  cases m with
  | zero =>
    rw [entriesAfter, Entries.remove?, Entries.findIdx?_eq_none hx, Option.bind_none,
      Option.map_eq_none_iff] at heq
    exact .inl ⟨rfl, heq⟩
  | succ k =>
    rw [entriesAfter, Entries.remove?_last hx, Option.map_eq_some_iff] at heq
    obtain ⟨⟨v, b'⟩, hr, heq⟩ := heq
    obtain ⟨rfl, hentries⟩ := Prod.mk.inj heq
    exact .inr ⟨k, b', rfl, hc _ hr, hentries, hr⟩

/-- After a complete sweep the entries are those from before. -/
theorem Reached.afterSuccess (hx : Entries.lookup b.entries plan.name = none)
    (hst : plan.Reached o b m ys st) :
    (plan.afterSuccess st).1.Compact ∧ (plan.afterSuccess st).1.entries = b.entries := by
  unfold Plan.afterSuccess
  rcases hst.remove?_cases hx with ⟨rfl, hr⟩ | ⟨k, b', -, hc, hentries, hr⟩
  · rw [hr]
    exact ⟨hst.compact, hst.entries_eq⟩
  · rw [hr]
    exact ⟨hc, hentries⟩

/-- So they are after a failed sweep if it unbinds; otherwise the last position stays. -/
theorem Reached.afterFailure (hx : Entries.lookup b.entries plan.name = none)
    (hst : plan.Reached o b m ys st) :
    (plan.afterFailure o st).1.Compact ∧ (plan.afterFailure o st).1.entries =
      if o.unbindOnFailure then b.entries else plan.entriesAfter o b m := by
  unfold Plan.afterFailure
  split
  · rcases hst.remove?_cases hx with ⟨rfl, hr⟩ | ⟨k, b', -, hc, hentries, hr⟩
    · rw [hr]
      exact ⟨hst.compact, hst.entries_eq⟩
    · rw [hr]
      exact ⟨hc, hentries⟩
  · exact ⟨hst.compact, hst.entries_eq⟩

/-- The chart of the samples of the first indices. -/
def chartOf (plan : Plan) (o : PlotOptions) (n : Nat) (ys : Array Float) : Chart :=
  ⟨"Plot", plan.name, "output", plan.positions o n, ys⟩

/-- The chart shows the positions that have been bound and the values there. -/
theorem Reached.chart_eq (hst : plan.Reached o b m ys st) : plan.chart st = plan.chartOf o m ys := by
  rw [Plan.chart, hst.xs_eq, hst.ys_eq]
  rfl

end Plan

/-! ## The ways of a run -/

/-- How a run can go: what it returns, the entries it leaves, and the state of the renderer. -/
inductive PlotOptions.Course (o : PlotOptions) (draw : Renderer σ) (b : Bindings) (s : σ)
    (node : Expr) : Except EvalError Outcome → List (String × Expr) → σ → Prop
  | refused : Plan.Refused o b node err → Course o draw b s node (.error err) b.entries s
  | broken : Plan.Admitted o b node plan → plan.Sampled o b n ys → plan.Breaks o b n err m →
      Course o draw b s node (.error err)
        (if o.unbindOnFailure then b.entries else plan.entriesAfter o b m) s
  | undrawn : Plan.Admitted o b node plan → plan.Sampled o b n ys →
      ¬ plan.position o n ≤ plan.range.max →
      draw (plan.chartOf o n ys) s = (.error message, s') →
      Course o draw b s node (.error (.renderFailed message)) b.entries s'
  | unsimplified : Plan.Admitted o b node plan → plan.Sampled o b n ys →
      ¬ plan.position o n ≤ plan.range.max → draw (plan.chartOf o n ys) s = (.ok (), s') →
      b.simplify o.maxDepth plan.expr = .error err →
      Course o draw b s node (.error err) b.entries s'
  | complete : Plan.Admitted o b node plan → plan.Sampled o b n ys →
      ¬ plan.position o n ≤ plan.range.max → draw (plan.chartOf o n ys) s = (.ok (), s') →
      b.simplify o.maxDepth plan.expr = .ok e →
      Course o draw b s node (.ok ⟨e, plan.name, plan.positions o n, ys⟩) b.entries s'

/-- A finite sequence of runs, each on the bindings that the run before leaves, all of which unbind
the variable when the sweep fails. Options, renderers and requests may change from run to run. -/
inductive Session : Bindings → Bindings → Prop
  | done : Session b b
  | run {o : PlotOptions} {report : Report σ} : o.unbindOnFailure = true →
      o.run draw fuel b s node = some report → Session report.bindings b' → Session b b'

variable {o : PlotOptions} {draw : Renderer σ} {fuel : Nat} {b : Bindings} {s : σ} {node : Expr}
  {report : Report σ}

/-- A variable that is not bound is in no entry. -/
theorem Plan.Admitted.lookup_eq_none {plan : Plan} (hb : b.Compact)
    (hp : Plan.Admitted o b node plan) : Entries.lookup b.entries plan.name = none := by
  have hx := hp.unbound
  rw [Store.contains_eq, Option.isSome_eq_false_iff, Option.isNone_iff_eq_none] at hx
  rw [← hb.get?_eq, hx]

/-- A complete sweep is followed by the chart and the simplification. -/
theorem Plan.course_of_complete {plan : Plan} {n : Nat} {ys : Array Float} {st : Sweep.Progress}
    (hb : b.Compact) (hp : Plan.Admitted o b node plan) (hs : plan.Sampled o b n ys)
    (hpassed : ¬ plan.position o n ≤ plan.range.max) (hst : plan.Reached o b n ys st) :
    let report := plan.complete o draw s st
    report.bindings.Compact ∧
      o.Course draw b s node report.result report.bindings.entries report.renderer := by
  obtain ⟨hc, hentries⟩ := hst.afterSuccess (hp.lookup_eq_none hb)
  unfold Plan.complete
  rw [hst.chart_eq]
  cases hdraw : draw (plan.chartOf o n ys) s with
  | mk drawn s' =>
  cases drawn with
  | error message =>
    simp only [hentries]
    exact ⟨hc, .undrawn hp hs hpassed hdraw⟩
  | ok _ =>
    simp only [hentries, Bindings.simplify_congr hc hb hentries]
    refine ⟨hc, ?_⟩
    cases hsimp : b.simplify o.maxDepth plan.expr with
    | error err => exact .unsimplified hp hs hpassed hdraw hsimp
    | ok e =>
      rw [hst.xs_eq, hst.ys_eq]
      exact .complete hp hs hpassed hdraw hsimp

/-- Every run that ends goes one of the ways, and leaves compact bindings. -/
theorem course_of_run (hb : b.Compact) (h : o.run draw fuel b s node = some report) :
    report.bindings.Compact ∧
      o.Course draw b s node report.result report.bindings.entries report.renderer := by
  unfold PlotOptions.run at h
  rcases Plan.refused_or_admitted o b node with ⟨err, hr⟩ | ⟨plan, hp⟩
  · rw [hr.ofExpr_eq] at h
    cases h
    exact ⟨hb, .refused hr⟩
  · rw [hp.ofExpr_eq, Option.map_eq_some_iff] at h
    obtain ⟨⟨res, st⟩, hsweep, h⟩ := h
    have hx := hp.lookup_eq_none hb
    cases Plan.ended_of_sweep hb hx hsweep with
    | passed hs hpassed hst =>
      cases h
      exact Plan.course_of_complete hb hp hs hpassed hst
    | broken hs hbreaks hst =>
      cases h
      obtain ⟨hc, hentries⟩ := hst.afterFailure hx
      refine ⟨hc, ?_⟩
      simp only [Plan.abandon, hentries]
      exact .broken hp hs hbreaks

/-! ## Successful runs -/

/-- A run that succeeds is exact: it was asked for a plot over an unbound variable, has sampled the
expression at every position up to the first that is not within the maximum, had this chart and no
other drawn, simplified the expression under the bindings from before, and restored their entries.
Fuel for more positions than that does not change the report. -/
theorem run_ok_exact {out : Outcome} (hb : b.Built) (h : o.run draw fuel b s node = some report)
    (hout : report.result = .ok out) :
    ∃ (e : Expr) (x : String) (lo hi inc : Expr) (r : Range) (p : Nat → Float) (n : Nat),
      node = .operation "plot" [e, .var x, lo, hi, inc] ∧ b.get? x = none ∧
      b.evaluate o.maxDepth lo = .ok r.min ∧ b.evaluate o.maxDepth hi = .ok r.max ∧
      b.evaluate o.maxDepth inc = .ok r.step ∧
      r.Positions p o.stepping ∧ (∀ k < n, p k ≤ r.max) ∧ ¬ p n ≤ r.max ∧
      (∀ fuel' > n, o.run draw fuel' b s node = some report) ∧
      out.xs = ((List.range n).map p).toArray ∧ out.ys.size = n ∧
      (∀ k (hk : k < out.ys.size),
        Bindings.evaluate (b.put x (.number (p k))) o.maxDepth e = .ok out.ys[k]) ∧
      out.name = x ∧ b.simplify o.maxDepth e = .ok out.simplified ∧
      draw ⟨"Plot", x, "output", out.xs, out.ys⟩ s = (.ok (), report.renderer) ∧
      report.bindings.entries = b.entries := by
  obtain ⟨-, hcourse⟩ := course_of_run hb.compact h
  rw [hout] at hcourse
  generalize report.bindings.entries = entries, report.renderer = s' at hcourse ⊢
  cases hcourse with
  | @complete plan n ys _ simplified hp hs hpassed hdraw hsimp =>
    obtain ⟨lo, hi, inc, rfl, hbounds⟩ := hp.exists_bounds
    have hx : b.get? plan.name = none := by
      rw [hb.compact.get?_eq, hp.lookup_eq_none hb.compact]
    exact ⟨plan.expr, plan.name, lo, hi, inc, plan.range, plan.position o, n, rfl, hx, hbounds.min,
      hbounds.max, hbounds.step, plan.range.positions_position o.stepping, hs.within, hpassed,
      fun _ hlt => hp.run_of_passed hpassed h hlt, rfl, hs.size_eq, hs.values, rfl, hsimp, hdraw, rfl⟩

/-- `plot(x * a, x, 0, a, 1)` with `a` bound to 2: three samples, one chart, and `a` stays the only
entry. -/
theorem run_ok_exact_three_samples :
    let b : Bindings := (Store.withCapacity 1).put "a" (.number 2.0)
    let product : Expr := .operation "*" [.var "x", .var "a"]
    let node : Expr := .operation "plot" [product, .var "x", .number 0.0, .var "a", .number 1.0]
    let o : PlotOptions := ⟨.accumulate, false, 4, some 3⟩
    let out : Outcome := ⟨.operation "*" [.var "x", .number 2.0], "x", #[0.0, 1.0, 2.0],
      #[0.0, 2.0, 4.0]⟩
    ∃ report, o.run Renderer.recording 4 b .empty node = some report ∧ report.result = .ok out ∧
      report.renderer = ⟨1, some ⟨"Plot", "x", "output", out.xs, out.ys⟩⟩ ∧
      report.bindings.entries = b.entries := by
  intro b product node o out
  have hbuilt : b.Built := .put (.withCapacity 1) _ _
  have hresult : (o.run Renderer.recording 4 b .empty node).map Report.result = some (.ok out) := by
    subst b product node o out
    rfl
  obtain ⟨report, hrun, hout⟩ := Option.map_eq_some_iff.1 hresult
  obtain ⟨_, x, _, _, _, _, _, _, _, _, _, _, _, _, _, _, _, _, _, _, hx, _, hdraw, hentries⟩ :=
    run_ok_exact hbuilt hrun hout
  cases hx
  exact ⟨report, hrun, hout, (Prod.mk.inj hdraw).2.symm, hentries⟩

/-! ## Failing runs -/

/-- A way of a run that unbinds after a failure keeps the entries. -/
theorem PlotOptions.Course.entries_eq {result : Except EvalError Outcome}
    {entries : List (String × Expr)} {s' : σ} (ho : o.unbindOnFailure = true)
    (h : o.Course draw b s node result entries s') : entries = b.entries := by
  cases h with
  | refused | undrawn | unsimplified | complete => rfl
  | broken => rw [if_pos ho]

/-- By induction on the runs: each of them brings the entries back. -/
theorem Session.entries_eq {b' : Bindings} (hb : b.Compact) (h : Session b b') :
    b'.entries = b.entries := by
  induction h with
  | done => rfl
  | run ho hrun _ ih =>
    obtain ⟨hc, hcourse⟩ := course_of_run hb hrun
    rw [ih hc, hcourse.entries_eq ho]

/-- A run that fails leaves a known state. The first check that a request does not pass names the
error, and neither the bindings nor the renderer are touched. A sweep that breaks off leaves the
renderer alone, and the entries as well if it unbinds the variable; otherwise the variable follows
them with the last position bound, if there is one. A refusal of the renderer and a failure of the
simplification leave the entries alone. So no session of runs that unbind changes the entries. -/
theorem run_error_state :
    (∀ {σ : Type} {o : PlotOptions} {draw : Renderer σ} {fuel : Nat} {b : Bindings} {s : σ}
      {node : Expr} {err : EvalError}, Plan.Refused o b node err →
      o.run draw fuel b s node = some ⟨.error err, b, s, []⟩) ∧
    (∀ {σ : Type} {o : PlotOptions} {draw : Renderer σ} {fuel : Nat} {b : Bindings} {s : σ}
      {node : Expr} {report : Report σ} {err : EvalError}, b.Built →
      o.run draw fuel b s node = some report → report.result = .error err →
      (Plan.Refused o b node err ∧ report.bindings.entries = b.entries ∧ report.renderer = s) ∨
      ∃ plan n ys, Plan.Admitted o b node plan ∧ plan.Sampled o b n ys ∧
        ((∃ m, plan.Breaks o b n err m ∧ report.renderer = s ∧
            report.bindings.entries =
              if o.unbindOnFailure then b.entries else plan.entriesAfter o b m) ∨
          (¬ plan.position o n ≤ plan.range.max ∧ report.bindings.entries = b.entries ∧
            ((∃ message, err = .renderFailed message ∧
                draw (plan.chartOf o n ys) s = (.error message, report.renderer)) ∨
              (b.simplify o.maxDepth plan.expr = .error err ∧
                draw (plan.chartOf o n ys) s = (.ok (), report.renderer)))))) ∧
    ∀ {b b' : Bindings}, b.Built → Session b b' → b'.entries = b.entries := by
  refine ⟨fun hr => ?_, fun {σ o draw fuel b s node report err} hb h herr => ?_,
    fun hb h => h.entries_eq hb.compact⟩
  · rw [PlotOptions.run, hr.ofExpr_eq]
  · obtain ⟨-, hcourse⟩ := course_of_run hb.compact h
    rw [herr] at hcourse
    generalize report.bindings.entries = entries, report.renderer = s' at hcourse ⊢
    cases hcourse with
    | refused hr => exact .inl ⟨hr, rfl, rfl⟩
    | broken hp hs hbreaks => exact .inr ⟨_, _, _, hp, hs, .inl ⟨_, hbreaks, rfl, rfl⟩⟩
    | undrawn hp hs hpassed hdraw =>
      exact .inr ⟨_, _, _, hp, hs, .inr ⟨hpassed, rfl, .inl ⟨_, rfl, hdraw⟩⟩⟩
    | unsimplified hp hs hpassed hdraw hsimp =>
      exact .inr ⟨_, _, _, hp, hs, .inr ⟨hpassed, rfl, .inr ⟨hsimp, hdraw⟩⟩⟩

/-- `plot(y, x, 0, a, 1)` with `a` bound to 2 and `y` unbound. For `a` in place of `x` it is refused;
otherwise its first sample fails, and `x` stays bound to 0 unless the run unbinds it. -/
theorem run_error_state_undefined_variable :
    let b : Bindings := (Store.withCapacity 1).put "a" (.number 2.0)
    let node : String → Expr := fun x =>
      .operation "plot" [.var "y", .var x, .number 0.0, .var "a", .number 1.0]
    let o : PlotOptions := ⟨.indexed, false, 4, none⟩
    let o' : PlotOptions := { o with unbindOnFailure := true }
    let err : EvalError := .undefinedVariable "y"
    o.run Renderer.recording 4 b .empty (node "a") =
      some ⟨.error (.alreadyDefined "a"), b, .empty, []⟩ ∧
    (∃ report, o.run Renderer.recording 4 b .empty (node "x") = some report ∧
      report.result = .error err ∧ report.bindings.entries = b.entries ++ [("x", .number 0.0)] ∧
      report.renderer = .empty ∧ ∃ plan n, Plan.Breaks plan o b n err (n + 1)) ∧
    ∃ report, o'.run Renderer.recording 4 b .empty (node "x") = some report ∧
      report.result = .error err ∧ report.bindings.entries = b.entries := by
  intro b node o o' err
  have hbuilt : b.Built := .put (.withCapacity 1) _ _
  have hbound : b.contains "a" = true := by rfl
  have hkept : (o.run Renderer.recording 4 b .empty (node "x")).map
      (fun report => (report.result, report.bindings.entries)) =
        some (.error err, b.entries ++ [("x", .number 0.0)]) := by
    subst b node o' o err
    rfl
  have hunbound : (o'.run Renderer.recording 4 b .empty (node "x")).map Report.result =
      some (.error err) := by
    subst b node o' o err
    rfl
  have ⟨hrefused, hfailed, hsession⟩ := run_error_state
  refine ⟨hrefused (.bound hbound), ?_, ?_⟩
  · obtain ⟨report, hrun, heq⟩ := Option.map_eq_some_iff.1 hkept
    obtain ⟨herr, hleft⟩ := Prod.mk.inj heq
    refine ⟨report, hrun, herr, hleft, ?_⟩
    rcases hfailed hbuilt hrun herr with
      ⟨-, hentries, -⟩ | ⟨plan, n, _, -, -, ⟨m, hbreaks, hs, -⟩ | ⟨-, hentries, -⟩⟩
    · simp [hentries] at hleft
    · refine ⟨hs, plan, n, ?_⟩
      subst err
      cases hbreaks with
      | failed hwithin hallowed herr => exact .failed hwithin hallowed herr
    · simp [hentries] at hleft
  · obtain ⟨report, hrun, herr⟩ := Option.map_eq_some_iff.1 hunbound
    exact ⟨report, hrun, herr, hsession hbuilt (.run rfl hrun .done)⟩

end GraphCalc
