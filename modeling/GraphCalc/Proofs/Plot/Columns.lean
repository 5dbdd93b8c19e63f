import GraphCalc.Plot.Run
import GraphCalc.Proofs.Sequence.Contents

/-!
# Columns in sequences

The columns of a sweep are sequences to which the samples are pushed, and whose size the cap is compared
with. A sweep asks nothing else of them, so arrays do in their place. `Stored` is the progress of a sweep
over sequences, and `Stands` says that these hold the arrays of a `Progress`. One sample keeps this
(`Stands.sample`), and so does a sweep (`Stands.sweep`), which meets no broken arena and has the same
result. `stored_of_run` is the consequence for the columns that a run answers.
-/

namespace GraphCalc

namespace Sweep

/-- How far a sweep has got that keeps its columns in sequences. -/
structure Stored where
  bindings : Bindings
  xs : Sequence Float
  ys : Sequence Float

/-- The bindings are the same, and the sequences hold the columns. -/
structure Stands (t : Stored) (st : Progress) : Prop where
  bindings_eq : t.bindings = st.bindings
  xs_holds : t.xs.Holds st.xs.toList
  ys_holds : t.ys.Holds st.ys.toList

/-- `sample` with its columns in sequences. -/
def Stored.sample (o : PlotOptions) (e : Expr) (x : String) (p : Float) (t : Stored) :
    Except Sequence.Error (Except EvalError Unit × Stored) :=
  match exceeded? o t.xs.size with
  | some limit => .ok (.error (.tooManySamples limit), t)
  | none => do
    let b : Bindings := t.bindings.put x (.number p)
    let xs ← t.xs.push p
    match b.evaluate o.maxDepth e with
    | .error err => return (.error err, ⟨b, xs, t.ys⟩)
    | .ok y => return (.ok (), ⟨b, xs, ← t.ys.push y⟩)

/-- `sweep` with its columns in sequences. -/
def Stored.sweep (o : PlotOptions) (e : Expr) (x : String) (r : Range) :
    Nat → Nat → Float → Stored → Except Sequence.Error (Option (Except EvalError Unit × Stored))
  | 0, _, _, _ => .ok none
  | fuel + 1, k, p, t =>
    if p ≤ r.max then do
      match ← t.sample o e x p with
      | (.error err, t) => return some (.error err, t)
      | (.ok (), t) => Stored.sweep o e x r fuel (k + 1) (r.next k p o.stepping) t
    else .ok (some (.ok (), t))

variable {o : PlotOptions} {t : Stored} {st : Progress}

/-- A column has as many items as the sequence that holds it. -/
theorem size_of_holds {s : Sequence Float} {xs : Array Float} (h : s.Holds xs.toList) :
    s.size = xs.size := by
  rw [h.size_eq, Array.length_toList]

/-- A push to the sequence is a push to the column. -/
theorem push_of_holds {s : Sequence Float} {xs : Array Float} (h : s.Holds xs.toList) (v : Float) :
    ∃ s', s.push v = .ok s' ∧ s'.Holds (xs.push v).toList := by
  rw [Array.toList_push]
  exact h.push v

/-- A sample does the same to the sequences as to the columns. -/
theorem Stands.sample (h : Stands t st) (e : Expr) (x : String) (p : Float) :
    ∃ t', t.sample o e x p = .ok ((Sweep.sample o e x p st).1, t') ∧
      Stands t' (Sweep.sample o e x p st).2 := by
  rw [Stored.sample, Sweep.sample, size_of_holds h.xs_holds, h.bindings_eq]
  cases exceeded? o st.xs.size with
  | some limit => exact ⟨t, rfl, h⟩
  | none =>
    obtain ⟨xs, hxs, hxs'⟩ := push_of_holds h.xs_holds p
    obtain ⟨b, hb⟩ : ∃ b : Bindings, st.bindings.put x (.number p) = b := ⟨_, rfl⟩
    simp only [hxs, hb]
    cases hvalue : b.evaluate o.maxDepth e with
    | error err => exact ⟨⟨b, xs, t.ys⟩, rfl, rfl, hxs', h.ys_holds⟩
    | ok y =>
      obtain ⟨ys, hys, hys'⟩ := push_of_holds h.ys_holds y
      refine ⟨⟨b, xs, ys⟩, ?_, rfl, hxs', hys'⟩
      change (do return (Except.ok (), Stored.mk b xs (← t.ys.push y))) = _
      rw [hys]
      rfl

/-- Both sweeps end, or neither does, and with the same result. No sequence is found broken. -/
theorem Stands.sweep (h : Stands t st) (e : Expr) (x : String) (r : Range) (fuel k : Nat) (p : Float) :
    ∃ found, t.sweep o e x r fuel k p = .ok found ∧
      Option.Rel (fun a b => a.1 = b.1 ∧ Stands a.2 b.2) found (Sweep.sweep o e x r fuel k p st) := by
  induction fuel generalizing k p t st with
  | zero => exact ⟨none, rfl, .none⟩
  | succ fuel ih =>
    -- Both go by the position, which does not depend on the columns.
    rw [Stored.sweep, Sweep.sweep]
    split
    · obtain ⟨t', hsample, ht'⟩ := h.sample (o := o) e x p
      rw [hsample]
      cases hres : Sweep.sample o e x p st with
      | mk res st' =>
        rw [hres] at ht'
        cases res with
        | error err => exact ⟨_, rfl, .some ⟨rfl, ht'⟩⟩
        | ok => exact ih ht' (k + 1) (r.next k p o.stepping)
    · exact ⟨_, rfl, .some ⟨rfl, h⟩⟩

end Sweep

/-- A complete sweep whose run succeeds answers with its columns. -/
theorem Plan.columns_of_complete {plan : Plan} {o : PlotOptions} {draw : Renderer σ} {s : σ}
    {st : Sweep.Progress} {out : Outcome} (h : (plan.complete o draw s st).result = .ok out) :
    out.xs = st.xs ∧ out.ys = st.ys := by
  unfold complete at h
  cases hdraw : draw (plan.chart st) s with
  | mk accepted s' =>
    cases accepted with
    | error message =>
      simp only [hdraw] at h
      cases h
    | ok =>
      simp only [hdraw] at h
      cases hsimplify : (plan.afterSuccess st).1.simplify o.maxDepth plan.expr with
      | error err =>
        rw [hsimplify] at h
        cases h
      | ok e =>
        rw [hsimplify] at h
        cases h
        exact ⟨rfl, rfl⟩

/-- The columns that a run answers are the items of sequences that the same sweep pushes its samples to,
starting from empty ones. -/
theorem stored_of_run {o : PlotOptions} {draw : Renderer σ} {fuel : Nat} {b : Bindings} {s : σ}
    {node : Expr} {report : Report σ} {out : Outcome}
    (h : o.run draw fuel b s node = some report) (hout : report.result = .ok out) :
    ∃ plan t, Plan.ofExpr o b node = .ok plan ∧
      Sweep.Stored.sweep o plan.expr plan.name plan.range fuel 0 (plan.range.start o.stepping)
        ⟨b, .empty, .empty⟩ = .ok (some (.ok (), t)) ∧
      t.xs.items .front = .ok out.xs.toList ∧ t.ys.items .front = .ok out.ys.toList ∧
      t.xs.size = out.xs.size ∧ t.ys.size = out.ys.size := by
  unfold PlotOptions.run at h
  cases hplan : Plan.ofExpr o b node with
  | error err =>
    rw [hplan] at h
    cases h
    cases hout
  | ok plan =>
    rw [hplan] at h
    obtain ⟨⟨res, st⟩, hsweep, rfl⟩ := Option.map_eq_some_iff.1 h
    have hempty : Sweep.Stands ⟨b, .empty, .empty⟩ ⟨b, #[], #[]⟩ :=
      ⟨rfl, Sequence.holds_empty, Sequence.holds_empty⟩
    obtain ⟨found, hstored, hrel⟩ :=
      hempty.sweep (o := o) plan.expr plan.name plan.range fuel 0 (plan.range.start o.stepping)
    rw [Plan.sweep] at hsweep
    rw [hsweep] at hrel
    cases hrel with
    | @some a _ hrel =>
      obtain ⟨res', t⟩ := a
      obtain ⟨rfl, ht⟩ := hrel
      cases res' with
      | error err => cases hout
      | ok =>
        obtain ⟨hxs, hys⟩ := Plan.columns_of_complete hout
        rw [hxs, hys]
        exact ⟨plan, t, rfl, hstored, ht.xs_holds.items_eq .front, ht.ys_holds.items_eq .front,
          Sweep.size_of_holds ht.xs_holds, Sweep.size_of_holds ht.ys_holds⟩

end GraphCalc
