import GraphCalc.Proofs.Simplification.Depth

/-!
# Where simplification evaluates

Simplification to a number is evaluation. An expression with a value whose unfolding mentions foldable
operators only is simplified to that value, and an expression that is simplified to a number has it as
its value, whatever its operators: `simplify_eq_number`.

Evaluation may need one level more than simplification, which does not visit the numbers that are
operands.
-/

namespace GraphCalc

/-- The names of the foldable operators. -/
def foldableNames : List String := ["negate", "+", "-", "*"]

/-- An operator is foldable if its name is listed. -/
theorem Operator.isFoldable_of_mem {f : String} {op : Operator} (hmem : f ∈ foldableNames)
    (hf : Operator.ofName? f = some op) : op.isFoldable = true := by
  rw [← Operator.name_of_ofName? hf] at hmem
  revert hmem
  cases op <;> decide

namespace Expr

/-- Numbers all have a value, their own. -/
theorem mapM_value?_map_number : ∀ vs : List Float, (vs.map number).mapM value? = some vs
  | [] => rfl
  | v :: vs => by
    rw [List.map_cons, List.mapM_cons, mapM_value?_map_number vs]
    rfl

/-- A foldable operator is computed at numbers. -/
theorem fold_map_number {f : String} {op : Operator} {vs : List Float} {v : Float}
    (hf : Operator.ofName? f = some op) (hfold : op.isFoldable = true)
    (hv : op.compute? vs = some v) : fold f (vs.map number) = .number v := by
  simp only [fold, hf, mapM_value?_map_number, hfold, hv]

/-- Only a foldable operator at numbers folds to a number. -/
theorem fold_eq_number {f : String} {es : List Expr} {v : Float} (h : fold f es = .number v) :
    ∃ op vs, Operator.ofName? f = some op ∧ es = vs.map number ∧ op.compute? vs = some v := by
  rcases fold_cases f es with heq | ⟨op, vs, w, hf, -, hes, hw, heq⟩
  · cases heq.symm.trans h
  · cases heq.symm.trans h
    exact ⟨op, vs, hf, hes, hw⟩

end Expr

namespace Bindings

/-- The unfolding mentions foldable operators only. -/
def Foldable (b : Bindings) (e : Expr) : Prop :=
  ∀ k role f es, b.Unfolds e k role (.operation f es) → f ∈ foldableNames

variable {b : Bindings} {limit limit' : Nat}

/-- What can be folded to a number has only such parts. -/
theorem Foldable.of_unfolds {e c : Expr} {k : Nat} {role : Role} (h : b.Foldable e)
    (hc : b.Unfolds e k role c) : b.Foldable c := by
  intro j role' f es hf
  obtain ⟨_, hf'⟩ := hc.trans hf
  exact h _ _ _ _ hf'

/-- An operand with a value that would be simplified to it is so, be it a number or not. -/
theorem simplifyOperand_eq_number {n : Nat} {c : Expr} {v : Float}
    (hc : b.evaluateWithin limit n c = .ok v)
    (h : b.simplifyWithin limit' n c = .ok (.number v)) :
    b.simplifyOperand limit' n c = .ok (.number v) := by
  unfold simplifyOperand
  split
  · next hnum =>
    cases c with
    | number w => cases n <;> cases hc; rfl
    | var | operation => cases hnum
  · exact h

/-- Over foldable operators, what has a value is simplified to it within the same budget. -/
theorem Foldable.simplifyWithin_eq : ∀ {n e v}, b.Foldable e →
    b.evaluateWithin limit n e = .ok v → b.simplifyWithin limit' n e = .ok (.number v) := by
  intro n
  induction n with
  | zero => intro e v _ h; cases h
  | succ n ih =>
    intro e v hfold h
    cases e with
    | number w => cases h; rfl
    | var x =>
      obtain ⟨c, hx, hc⟩ := ok_of_evaluate_var h
      simp only [simplifyWithin, hx, ih (hfold.of_unfolds (.binding .root hx)) hc]
      rfl
    | operation f es =>
      obtain ⟨op, vs, hf, hv, hvs⟩ := ok_of_evaluate_operation h
      have hop : op.isFoldable = true := Operator.isFoldable_of_mem (hfold _ _ _ _ .root) hf
      have hes : ∀ c ∈ es, b.Foldable c := fun c hmem => hfold.of_unfolds (.operand .root hmem)
      have hss : es.mapM (b.simplifyOperand limit' n) = .ok (vs.map .number) := by
        refine mapM_eq_ok_iff.2 (List.forall₂_map_right_iff.2 ?_)
        refine ((List.forall₂_and_left es vs).2 ⟨hes, hvs⟩).imp fun c w h => ?_
        exact simplifyOperand_eq_number h.2 (ih h.1 h.2)
      rw [simplifyWithin_operation, hss]
      exact congrArg Except.ok (Expr.fold_map_number hf hop hv)

/-- What is simplified to a number has it as its value, within one level more. -/
theorem evaluateWithin_of_simplify_number : ∀ {n e v},
    b.simplifyWithin limit n e = .ok (.number v) →
      b.evaluateWithin limit' (n + 1) e = .ok v := by
  intro n
  induction n with
  | zero => intro e v h; cases h
  | succ n ih =>
    intro e v h
    cases e with
    | number w => cases h; rfl
    | var x =>
      rcases ok_of_simplify_var h with ⟨-, heq⟩ | ⟨c, t, hx, ht, heq⟩
      · cases heq
      · have ht' : t = .number v := by
          split at heq
          · exact heq.symm
          · -- A binding that is a number itself is simplified to itself.
            subst heq
            cases n <;> cases ht
            rfl
        rw [ht'] at ht
        simp only [evaluateWithin, hx]
        exact ih ht
    | operation f es =>
      obtain ⟨ss, hss, heq⟩ := ok_of_simplify_operation h
      obtain ⟨op, vs, hf, rfl, hv⟩ := Expr.fold_eq_number heq.symm
      have hvs : es.mapM (b.evaluateWithin limit' (n + 1)) = .ok vs := by
        refine mapM_eq_ok_iff.2 ((List.forall₂_map_right_iff.1 hss).imp fun c w hc => ?_)
        rcases simplifyOperand_eq_ok_iff.1 hc with ⟨-, rfl⟩ | ⟨-, hc⟩
        · rfl
        · exact ih hc
      have hlen : es.length = op.arity := by
        rw [hss.length_eq, List.length_map, Operator.length_of_compute? hv]
      rw [evaluateWithin]
      simp only [hf, if_pos hlen, hvs, bind, Except.bind, hv]
      rfl

/-! ## Values of simplified expressions -/

/-- An expression with a value over foldable operators only is simplified to the number, within the
same limit. Conversely, what is simplified to a number has it as its value, within every larger limit
and whatever the operators. The floats are the same, not only equal. -/
theorem simplify_eq_number (b : Bindings) (e : Expr) (d : Nat) (v : Float) :
    (b.evaluate d e = .ok v → b.Foldable e → b.simplify d e = .ok (.number v)) ∧
    (b.simplify d e = .ok (.number v) → ∀ m ≥ d + 1, b.evaluate m e = .ok v) := by
  refine ⟨fun he hfold => hfold.simplifyWithin_eq he, fun hs m hm => ?_⟩
  have he : b.evaluate (d + 1) e = .ok v := evaluateWithin_of_simplify_number hs
  have hne : b.evaluate (d + 1) e ≠ .error (.tooDeep (d + 1)) := by simp [he]
  obtain ⟨h, hle, hy⟩ := yields_of_evaluate_ne hne
  rw [he] at hy
  rw [hy.evaluate_eq m, if_pos (Nat.le_trans hle hm)]

/-- `negate(x)` with `x` bound to `y` and `y` to zero is simplified to the negative zero. The sum of two
numbers is simplified at the limit 0, and evaluated one level later. -/
theorem simplify_eq_number_chain :
    let b : Bindings := ((Store.withCapacity 2).put "x" (.var "y")).put "y" (.number 0.0)
    let e : Expr := .operation "negate" [.var "x"]
    let sum : Expr := .operation "+" [.number 2.0, .number 3.0]
    (b.evaluate 3 e = .ok (-0.0) ∧ b.Foldable e ∧ b.simplify 3 e = .ok (.number (-0.0))) ∧
      b.simplify 0 sum = .ok (.number 5.0) ∧ b.evaluate 1 sum = .ok 5.0 := by
  intro b e sum
  have hx : b.get? "x" = some (.var "y") := by rfl
  have hy : b.get? "y" = some (.number 0.0) := by rfl
  have hplaces : ∀ k role c, b.Unfolds e k role c →
      c = .operation "negate" [.var "x"] ∨ c = .var "x" ∨ c = .var "y" ∨ c = .number 0.0 := by
    intro k role c h
    induction h with
    | root => exact .inl rfl
    | operand _ hmem ih =>
      rcases ih with h | h | h | h <;> cases h
      exact .inr (.inl (List.mem_singleton.1 hmem))
    | binding _ hbound ih =>
      rcases ih with h | h | h | h <;> cases h
      · exact .inr (.inr (.inl (Option.some.inj (hbound.symm.trans hx))))
      · exact .inr (.inr (.inr (Option.some.inj (hbound.symm.trans hy))))
  have hfold : b.Foldable e := by
    intro k role f es h
    rcases hplaces k role _ h with h | h | h | h <;> cases h
    decide
  have hvalue : b.evaluate 3 e = .ok (-0.0) := by rfl
  have hsum : b.simplify 0 sum = .ok (.number 5.0) := by rfl
  exact ⟨⟨hvalue, hfold, (simplify_eq_number b e 3 _).1 hvalue hfold⟩, hsum,
    (simplify_eq_number b sum 0 _).2 hsum 1 (Nat.le_refl 1)⟩

end Bindings

end GraphCalc
