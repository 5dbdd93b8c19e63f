import GraphCalc.Plot.Run

/-!
# Which plots are refused

A request for a plot is checked in an order, and the first check it fails names the error.
`Plan.Refused` lists the checks, each under the condition that the ones before it are passed, and
`Plan.Admitted` says what a request that passes all of them looks like. Every request is one or the
other (`refused_or_admitted`), and `Plan.ofExpr` decides between the two.
-/

namespace GraphCalc

/-- An expression has operands under a name and a number if it is an operation of that name with that
many of them. -/
theorem Expr.operandsOf?_eq_some_iff {name : String} {arity : Nat} {node : Expr} {es : List Expr} :
    node.operandsOf? name arity = some es ↔ node = .operation name es ∧ es.length = arity := by
  cases node with
  | number | var => simp [operandsOf?]
  | operation f fs =>
    simp only [operandsOf?, Option.ite_none_right_eq_some, Option.some.injEq, Expr.operation.injEq]
    constructor
    · rintro ⟨⟨rfl, hlen⟩, rfl⟩
      exact ⟨⟨rfl, rfl⟩, hlen⟩
    · rintro ⟨⟨rfl, rfl⟩, hlen⟩
      exact ⟨⟨rfl, hlen⟩, rfl⟩

namespace Plan

/-- The request to plot `e` for `x` from `lo` to `hi` in steps of `inc`. -/
def request (e : Expr) (x : String) (lo hi inc : Expr) : Expr :=
  .operation "plot" [e, .var x, lo, hi, inc]

/-- The values of the bounds and the step. -/
structure Bounds (o : PlotOptions) (b : Bindings) (lo hi inc : Expr) (r : Range) : Prop where
  min : b.evaluate o.maxDepth lo = .ok r.min
  max : b.evaluate o.maxDepth hi = .ok r.max
  step : b.evaluate o.maxDepth inc = .ok r.step

/-- Why a request is refused. Each check is made if those before it are passed. -/
inductive Refused (o : PlotOptions) (b : Bindings) : Expr → EvalError → Prop
  | form : (∀ e x lo hi inc, node ≠ request e x lo hi inc) →
      Refused o b node (.malformed "plot" 5)
  | bound : b.contains x = true → Refused o b (request e x lo hi inc) (.alreadyDefined x)
  | min : b.contains x = false → b.evaluate o.maxDepth lo = .error err →
      Refused o b (request e x lo hi inc) err
  | max : b.contains x = false → b.evaluate o.maxDepth lo = .ok v →
      b.evaluate o.maxDepth hi = .error err → Refused o b (request e x lo hi inc) err
  | step : b.contains x = false → b.evaluate o.maxDepth lo = .ok v →
      b.evaluate o.maxDepth hi = .ok w → b.evaluate o.maxDepth inc = .error err →
      Refused o b (request e x lo hi inc) err
  | emptyRange : b.contains x = false → Bounds o b lo hi inc r → r.max < r.min →
      Refused o b (request e x lo hi inc) (.emptyRange r.min r.max)
  | nonPositiveStep : b.contains x = false → Bounds o b lo hi inc r → ¬ r.max < r.min →
      r.step ≤ 0.0 → Refused o b (request e x lo hi inc) (.nonPositiveStep r.step)

/-- A request that passes every check, and what it asks for. -/
structure Admitted (o : PlotOptions) (b : Bindings) (node : Expr) (plan : Plan) : Prop where
  exists_bounds : ∃ lo hi inc, node = request plan.expr plan.name lo hi inc ∧
    Bounds o b lo hi inc plan.range
  unbound : b.contains plan.name = false
  nonempty : ¬ plan.range.max < plan.range.min
  positive : ¬ plan.range.step ≤ 0.0

variable {o : PlotOptions} {b : Bindings} {node : Expr}

/-- What is not a request is malformed. -/
theorem ofExpr_of_ne_request (h : ∀ e x lo hi inc, node ≠ request e x lo hi inc) :
    ofExpr o b node = .error (.malformed "plot" 5) := by
  unfold ofExpr
  split
  · next e x lo hi inc hes => exact absurd (Expr.operandsOf?_eq_some_iff.1 hes).1 (h e x lo hi inc)
  · rfl

/-- The checks on a request, in their order. -/
theorem ofExpr_request (e : Expr) (x : String) (lo hi inc : Expr) :
    ofExpr o b (request e x lo hi inc) =
      (if b.contains x then .error (.alreadyDefined x)
      else do
        let min ← b.evaluate o.maxDepth lo
        let max ← b.evaluate o.maxDepth hi
        let step ← b.evaluate o.maxDepth inc
        if max < min then .error (.emptyRange min max)
        else if step ≤ 0.0 then .error (.nonPositiveStep step)
        else .ok ⟨e, x, ⟨min, max, step⟩⟩) := by
  have hes : (request e x lo hi inc).operandsOf? "plot" 5 = some [e, .var x, lo, hi, inc] :=
    Expr.operandsOf?_eq_some_iff.2 ⟨rfl, rfl⟩
  rw [ofExpr, hes]

/-- The first check that is not passed names the error. -/
theorem Refused.ofExpr_eq {err : EvalError} (h : Refused o b node err) :
    ofExpr o b node = .error err := by
  cases h with
  | form hne => exact ofExpr_of_ne_request hne
  | bound hx => rw [ofExpr_request, if_pos hx]
  | min hx hlo => simp [ofExpr_request, hx, hlo, bind, Except.bind]
  | max hx hlo hhi => simp [ofExpr_request, hx, hlo, hhi, bind, Except.bind]
  | step hx hlo hhi hinc => simp [ofExpr_request, hx, hlo, hhi, hinc, bind, Except.bind]
  | emptyRange hx hr hempty =>
    simp [ofExpr_request, hx, hr.min, hr.max, hr.step, hempty, bind, Except.bind]
  | nonPositiveStep hx hr hempty hstep =>
    simp [ofExpr_request, hx, hr.min, hr.max, hr.step, hempty, hstep, bind, Except.bind]

/-- A request that passes every check is carried out as asked. -/
theorem Admitted.ofExpr_eq {plan : Plan} (h : Admitted o b node plan) :
    ofExpr o b node = .ok plan := by
  obtain ⟨lo, hi, inc, rfl, hr⟩ := h.exists_bounds
  simp [ofExpr_request, h.unbound, hr.min, hr.max, hr.step, h.nonempty, h.positive, bind,
    Except.bind]

/-- Every request is refused for a reason or admitted. -/
theorem refused_or_admitted (o : PlotOptions) (b : Bindings) (node : Expr) :
    (∃ err, Refused o b node err) ∨ ∃ plan, Admitted o b node plan := by
  by_cases hform : ∃ e x lo hi inc, node = request e x lo hi inc
  · obtain ⟨e, x, lo, hi, inc, rfl⟩ := hform
    cases hx : b.contains x with
    | true => exact .inl ⟨_, .bound hx⟩
    | false =>
      cases hlo : b.evaluate o.maxDepth lo with
      | error err => exact .inl ⟨_, .min hx hlo⟩
      | ok min =>
      cases hhi : b.evaluate o.maxDepth hi with
      | error err => exact .inl ⟨_, .max hx hlo hhi⟩
      | ok max =>
      cases hinc : b.evaluate o.maxDepth inc with
      | error err => exact .inl ⟨_, .step hx hlo hhi hinc⟩
      | ok step =>
      have hr : Bounds o b lo hi inc ⟨min, max, step⟩ := ⟨hlo, hhi, hinc⟩
      by_cases hempty : max < min
      · exact .inl ⟨_, .emptyRange hx hr hempty⟩
      by_cases hstep : step ≤ 0.0
      · exact .inl ⟨_, .nonPositiveStep hx hr hempty hstep⟩
      · exact .inr ⟨⟨e, x, ⟨min, max, step⟩⟩, ⟨lo, hi, inc, rfl, hr⟩, hx, hempty, hstep⟩
  · refine .inl ⟨_, .form ?_⟩
    rintro e x lo hi inc rfl
    exact hform ⟨e, x, lo, hi, inc, rfl⟩

/-- A request that is carried out has passed every check. -/
theorem admitted_of_ofExpr {plan : Plan} (h : ofExpr o b node = .ok plan) :
    Admitted o b node plan := by
  rcases refused_or_admitted o b node with ⟨err, hr⟩ | ⟨plan', hp⟩
  · cases hr.ofExpr_eq.symm.trans h
  · cases hp.ofExpr_eq.symm.trans h
    exact hp

end Plan

end GraphCalc
