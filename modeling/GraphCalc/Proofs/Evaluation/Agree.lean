import GraphCalc.Proofs.Evaluation.Unfolding
import GraphCalc.Proofs.Failures
import GraphCalc.Proofs.Store.Entries
import GraphCalc.Simplification

/-!
# What evaluation and simplification read of bindings

An expression reaches the names that stand in it, and those that stand in the binding of a name that
it reaches (`Bindings.Reaches`). Both only look such names up, so bindings that agree on them cannot be
told apart (`evaluateWithin_of_reaches`, `simplifyWithin_of_reaches`). In particular bindings with the
same entries in slot order cannot, whatever their slots and their history.
-/

namespace GraphCalc.Bindings

/-- The name stands in the expression, or in the binding of a name that is reached. Bindings may lead
back to themselves. -/
inductive Reaches (b : Bindings) (e : Expr) : String → Prop
  | occurs : e.Contains (.var x) → Reaches b e x
  | binding : Reaches b e y → b.get? y = some c → c.Contains (.var x) → Reaches b e x

variable {b b' : Bindings} {c : Expr} {x y : String}

/-! ## What parts reach -/

/-- What an operand reaches, the operation reaches. -/
theorem Reaches.of_operand {es : List Expr} (f : String) (hmem : c ∈ es) (h : b.Reaches c x) :
    b.Reaches (.operation f es) x := by
  induction h with
  | occurs hx => exact .occurs (.operand hmem hx)
  | binding _ hy hx ih => exact .binding ih hy hx

/-- What the binding of a variable reaches, the variable reaches. -/
theorem Reaches.of_binding (hx : b.get? x = some c) (h : b.Reaches c y) : b.Reaches (.var x) y := by
  induction h with
  | occurs hy => exact .binding (.occurs .self) hx hy
  | binding _ hz hy ih => exact .binding ih hz hy

/-! ## Bindings that agree on what is reached -/

/-- Evaluation does not tell bindings apart that agree on what the expression reaches. -/
theorem evaluateWithin_of_reaches (limit : Nat) : ∀ n e,
    (∀ x, b.Reaches e x → b.get? x = b'.get? x) →
      b.evaluateWithin limit n e = b'.evaluateWithin limit n e := by
  intro n
  induction n with
  | zero => intro e _; rfl
  | succ n ih =>
    intro e hagree
    cases e with
    | number v => rfl
    | var x =>
      have hx : b.get? x = b'.get? x := hagree x (.occurs .self)
      cases hc : b.get? x with
      | none => simp only [evaluateWithin, ← hx, hc]
      | some c =>
        simp only [evaluateWithin, ← hx, hc]
        exact ih c fun y hy => hagree y (hy.of_binding hc)
    | operation f es =>
      have hes : es.mapM (b.evaluateWithin limit n) = es.mapM (b'.evaluateWithin limit n) :=
        mapM_congr fun c hmem => ih c fun y hy => hagree y (hy.of_operand f hmem)
      simp only [evaluateWithin, hes]

/-- Nor does simplification. -/
theorem simplifyWithin_of_reaches (limit : Nat) : ∀ n e,
    (∀ x, b.Reaches e x → b.get? x = b'.get? x) →
      b.simplifyWithin limit n e = b'.simplifyWithin limit n e := by
  intro n
  induction n with
  | zero => intro e _; rfl
  | succ n ih =>
    intro e hagree
    cases e with
    | number v => rfl
    | var x =>
      have hx : b.get? x = b'.get? x := hagree x (.occurs .self)
      cases hc : b.get? x with
      | none => simp only [simplifyWithin, ← hx, hc]
      | some c =>
        simp only [simplifyWithin, ← hx, hc]
        rw [ih c fun y hy => hagree y (hy.of_binding hc)]
    | operation f es =>
      have hes : (es.mapM fun c => if c.isNumber then .ok c else b.simplifyWithin limit n c) =
          es.mapM fun c => if c.isNumber then .ok c else b'.simplifyWithin limit n c := by
        refine mapM_congr fun c hmem => ?_
        rw [ih c fun y hy => hagree y (hy.of_operand f hmem)]
      simp only [simplifyWithin, hes]

/-! ## Bindings with the same entries -/

/-- Compact bindings with the same entries give every name the same expression. -/
theorem get?_congr (hb : b.Compact) (hb' : b'.Compact) (h : b.entries = b'.entries) (x : String) :
    b.get? x = b'.get? x := by
  rw [hb.get?_eq, hb'.get?_eq, h]

/-- Bindings with the same entries give every expression the same value. -/
theorem evaluate_congr (hb : b.Compact) (hb' : b'.Compact) (h : b.entries = b'.entries) (d : Nat)
    (e : Expr) : b.evaluate d e = b'.evaluate d e :=
  evaluateWithin_of_reaches d (d + 1) e fun x _ => get?_congr hb hb' h x

/-- Bindings with the same entries simplify every expression alike. -/
theorem simplify_congr (hb : b.Compact) (hb' : b'.Compact) (h : b.entries = b'.entries) (d : Nat)
    (e : Expr) : b.simplify d e = b'.simplify d e :=
  simplifyWithin_of_reaches d (d + 1) e fun x _ => get?_congr hb hb' h x

end GraphCalc.Bindings
