import GraphCalc.Proofs.Simplification.Folding

/-!
# Repeated simplification

One simplification may leave work behind: a binding that is no number is taken as it stands, with the
bound variables and the computable operations in it. But what is left behind is one binding nearer to
the surface. `Bindings.Pending` counts the bindings that stand between an expression and something to
be done. The count goes down with every simplification (`Pending.of_simplify`), and it never exceeds
the levels that simplification goes through (`Pending.nests`), which the limit bounds. So once there
have been as many simplifications as levels, nothing is left to be done and another one changes nothing:
`simplify_converges`.
-/

namespace GraphCalc

/-! ## Operations that are computed -/

/-- A foldable operator at as many operands as it takes, all of them numbers. -/
structure Expr.Computable (f : String) (es : List Expr) : Prop where
  foldable : f ∈ foldableNames
  arity : ∃ op, Operator.ofName? f = some op ∧ es.length = op.arity
  numbers : ∀ c ∈ es, c.isNumber = true

/-- The name of a foldable operator is listed. -/
theorem Operator.mem_foldableNames {op : Operator} (h : op.isFoldable = true) :
    op.name ∈ foldableNames := by
  revert h
  cases op <;> decide

namespace Expr

variable {f : String} {es : List Expr}

/-- Expressions that are all numbers are a list of values. -/
theorem exists_map_number : ∀ {es : List Expr}, (∀ c ∈ es, c.isNumber = true) →
    ∃ vs : List Float, es = vs.map number
  | [], _ => ⟨[], rfl⟩
  | .number v :: es, h => by
    obtain ⟨vs, rfl⟩ := exists_map_number fun c hc => h c (List.mem_cons_of_mem _ hc)
    exact ⟨v :: vs, rfl⟩
  | .var _ :: _, h | .operation .. :: _, h => by cases h _ List.mem_cons_self

/-- Folding leaves an operation just where it is not computable. -/
theorem fold_eq_operation_iff : fold f es = .operation f es ↔ ¬ Computable f es := by
  constructor
  · rintro h ⟨hfoldable, ⟨op, hf, hlen⟩, hnumbers⟩
    obtain ⟨vs, rfl⟩ := exists_map_number hnumbers
    have hsome := op.isSome_compute? vs
    rw [← hlen, List.length_map, beq_self_eq_true] at hsome
    obtain ⟨v, hv⟩ := Option.isSome_iff_exists.1 hsome
    rw [fold_map_number hf (Operator.isFoldable_of_mem hfoldable hf) hv] at h
    cases h
  · intro h
    rcases fold_cases f es with heq | ⟨op, vs, v, hf, hfold, rfl, hv, -⟩
    · exact heq
    · refine absurd ⟨?_, ⟨op, hf, ?_⟩, by simp [isNumber]⟩ h
      · rw [← Operator.name_of_ofName? hf]
        exact Operator.mem_foldableNames hfold
      · rw [List.length_map, Operator.length_of_compute? hv]

end Expr

namespace Bindings

/-- So many bindings stand between an expression and something to be done there: a bound variable to
be replaced, or an operation to be computed. -/
inductive Pending (b : Bindings) : Expr → Nat → Prop
  | bound : b.get? x = some c → Pending b (.var x) 0
  | computable : Expr.Computable f es → Pending b (.operation f es) 0
  | operand : c ∈ es → Pending b c n → Pending b (.operation f es) n
  | binding : b.get? x = some c → Pending b c n → Pending b (.var x) (n + 1)

variable {b : Bindings} {limit limit' n m d k : Nat} {e s t : Expr}

/-! ## What is to be done -/

/-- With a number nothing is to be done. -/
theorem Pending.isNumber_eq_false (h : b.Pending e n) : e.isNumber = false := by
  cases h <;> rfl

/-- Simplification goes through a level for each binding. -/
theorem Pending.nests (h : b.Pending e n) : b.Nests e n := by
  induction h with
  | bound | computable => exact .here
  | operand hmem hc ih => exact (Nests.operand hmem hc.isNumber_eq_false ih).of_le (Nat.le_succ _)
  | binding hx _ ih => exact .binding hx ih

/-- What is to be done in a part is to be done in the whole. -/
theorem Pending.of_contains (h : e.Contains t) (hp : b.Pending t n) : b.Pending e n := by
  induction h with
  | self => exact hp
  | operand hmem _ ih => exact .operand hmem (ih hp)

/-! ## One simplification -/

/-- What an expression is simplified to does not depend on the budget. -/
theorem simplifyWithin_det (h : b.simplifyWithin limit n e = .ok s)
    (h' : b.simplifyWithin limit' m e = .ok t) : s = t := by
  have hs : b.simplifyWithin limit (max n m) e = .ok s :=
    simplifyWithin_of_le h (Nat.le_max_left n m)
  have ht : b.simplifyWithin limit (max n m) e = .ok t :=
    simplifyWithin_of_le h' (Nat.le_max_right n m)
  exact Except.ok.inj (hs.symm.trans ht)

/-- What is simplified to something other than a number is an unbound variable, which stays; a bound one,
which gives way to its binding; or an operation that is not computable once its operands are simplified.
Those of them that are no numbers come from operands that are none. -/
theorem simplify_cases (h : b.simplifyWithin limit (m + 1) e = .ok s) (hs : s.isNumber = false) :
    (∃ x, e = .var x ∧ s = .var x ∧ b.get? x = none) ∨ (∃ x, e = .var x ∧ b.get? x = some s) ∨
      ∃ f es ss, e = .operation f es ∧ s = .operation f ss ∧ ¬ Expr.Computable f ss ∧
        ∀ t ∈ ss, t.isNumber = false →
          ∃ c ∈ es, c.isNumber = false ∧ b.simplifyWithin limit m c = .ok t := by
  cases e with
  | number v =>
    cases h
    cases hs
  | var x =>
    rcases ok_of_simplify_var h with ⟨hx, rfl⟩ | ⟨c, t, hx, -, rfl⟩
    · exact .inl ⟨x, rfl, rfl, hx⟩
    · split at hs
      · next hnum => cases hnum.symm.trans hs
      · next hnum =>
        rw [if_neg hnum]
        exact .inr (.inl ⟨x, rfl, hx⟩)
  | operation f es =>
    obtain ⟨ss, hss, rfl⟩ := ok_of_simplify_operation h
    rcases Expr.fold_cases f ss with heq | ⟨_, _, _, -, -, -, -, heq⟩
    · refine .inr (.inr ⟨f, es, ss, rfl, heq, Expr.fold_eq_operation_iff.1 heq, ?_⟩)
      intro t hmem ht
      obtain ⟨c, hc, hct⟩ := exists_mem_of_forall₂ hss hmem
      rcases simplifyOperand_eq_ok_iff.1 hct with ⟨hnum, rfl⟩ | hct
      · cases hnum.symm.trans ht
      · exact ⟨c, hc, hct⟩
    · rw [heq] at hs
      cases hs

/-- Simplification does not make an expression deeper, although bindings are larger than the variables
that they replace: they were levels before. -/
theorem Nests.of_simplify : ∀ {m e s n}, b.simplifyWithin limit m e = .ok s → b.Nests s n →
    b.Nests e n := by
  intro m
  induction m with
  | zero => intro e s n h; cases h
  | succ m ih =>
    intro e s n h hn
    cases hs : s.isNumber with
    | true =>
      cases hn with
      | here => exact .here
      | operand | binding => cases hs
    | false =>
      rcases simplify_cases h hs with ⟨x, rfl, rfl, -⟩ | ⟨x, rfl, hx⟩ | ⟨f, es, ss, rfl, rfl, -, hes⟩
      · exact hn
      · exact (Nests.binding hx hn).of_le (Nat.le_succ n)
      · cases hn with
        | here => exact .here
        | operand hmem hnum hn =>
          obtain ⟨c, hc, hcnum, hct⟩ := hes _ hmem hnum
          exact .operand hc hcnum (ih hct hn)

/-- What is to be done after a simplification comes from a bound variable of the expression itself, whose
binding was taken as it stands. -/
theorem Pending.exists_var : ∀ {m e s n}, b.simplifyWithin limit m e = .ok s → b.Pending s n →
    ∃ x c, e.Contains (.var x) ∧ b.get? x = some c ∧ b.Pending c n ∧
      ∃ j, b.simplifyWithin limit j (.var x) = .ok c := by
  intro m
  induction m with
  | zero => intro e s n h; cases h
  | succ m ih =>
    intro e s n h hp
    rcases simplify_cases h hp.isNumber_eq_false with
      ⟨x, rfl, rfl, hx⟩ | ⟨x, rfl, hx⟩ | ⟨f, es, ss, rfl, rfl, hnot, hes⟩
    · cases hp with
      | bound hx' | binding hx' => cases hx.symm.trans hx'
    · exact ⟨x, s, .self, hx, hp, m + 1, h⟩
    · cases hp with
      | computable hc => exact absurd hc hnot
      | operand hmem hp =>
        obtain ⟨c, hc, -, hct⟩ := hes _ hmem hp.isNumber_eq_false
        obtain ⟨x, t, hx, hrest⟩ := ih hct hp
        exact ⟨x, t, .operand hc hx, hrest⟩

/-- So it was one binding further away before. -/
theorem Pending.of_simplify (h : b.simplifyWithin limit m e = .ok s) (hp : b.Pending s n) :
    b.Pending e (n + 1) := by
  obtain ⟨x, c, hx, hbound, hc, -⟩ := hp.exists_var h
  exact (Pending.binding hbound hc).of_contains hx

/-- Where nothing is to be done nothing changes. -/
theorem simplifyWithin_of_not_pending : ∀ {m e s}, b.simplifyWithin limit m e = .ok s →
    ¬ b.Pending e 0 → s = e := by
  intro m
  induction m with
  | zero => intro e s h; cases h
  | succ m ih =>
    intro e s h hp
    cases e with
    | number v =>
      cases h
      rfl
    | var x =>
      rcases ok_of_simplify_var h with ⟨-, rfl⟩ | ⟨c, t, hx, -, -⟩
      · rfl
      · exact absurd (.bound hx) hp
    | operation f es =>
      obtain ⟨ss, hss, rfl⟩ := ok_of_simplify_operation h
      have hsame : List.Forall₂ (fun c s => s = c) es ss := by
        have hoperands : ∀ c ∈ es, ¬ b.Pending c 0 := fun c hmem hc => hp (.operand hmem hc)
        refine ((List.forall₂_and_left es ss).2 ⟨hoperands, hss⟩).imp fun c s ⟨hc, hs⟩ => ?_
        rcases simplifyOperand_eq_ok_iff.1 hs with ⟨-, rfl⟩ | ⟨-, hs⟩
        · rfl
        · exact ih hs hc
      obtain rfl : ss = es := List.forall₂_eq_eq_eq ▸ hsame.flip
      exact Expr.fold_eq_operation_iff.2 fun hc => hp (.computable hc)

/-! ## Many simplifications -/

/-- The expression after so many simplifications, all within the same limit. -/
def simplifyTimes (b : Bindings) (d : Nat) (e : Expr) : Nat → Except EvalError Expr
  | 0 => .ok e
  | k + 1 => b.simplifyTimes d e k >>= b.simplify d

/-- None of the simplifications fails if the first does not, and after each of them what is to be done
is one binding nearer. -/
theorem simplifyTimes_ok (h : b.simplify d e = .ok s) : ∀ k, ∃ t, b.simplifyTimes d e k = .ok t ∧
    (∀ n, b.Nests t n → b.Nests e n) ∧ ∀ n, b.Pending t n → b.Pending e (n + k) := by
  intro k
  induction k with
  | zero => exact ⟨e, rfl, fun _ hn => hn, fun _ hp => hp⟩
  | succ k ih =>
    obtain ⟨t, ht, hnests, hpending⟩ := ih
    rw [simplifyTimes, ht]
    cases hu : b.simplify d t with
    | error err =>
      have hdeep : b.Nests e (d + 1) := hnests _ (nests_of_simplifyWithin_error hu).2
      exact absurd h hdeep.simplifyWithin_ne
    | ok u =>
      refine ⟨u, hu, fun n hn => hnests n (hn.of_simplify hu), fun n hp => ?_⟩
      rw [← Nat.add_assoc, Nat.add_right_comm]
      exact hpending (n + 1) (hp.of_simplify hu)

/-- Where nothing is to be done a further simplification changes nothing. -/
theorem simplifyTimes_succ (h : b.simplify d e = .ok s) (ht : b.simplifyTimes d e k = .ok t)
    (hp : ¬ b.Pending t 0) : b.simplifyTimes d e (k + 1) = .ok t := by
  obtain ⟨u, hu, -⟩ := simplifyTimes_ok h (k + 1)
  have hstep : b.simplify d t = .ok u := by rwa [simplifyTimes, ht] at hu
  rw [hu, simplifyWithin_of_not_pending hstep hp]

/-- Simplification is not idempotent, but repeating it comes to an end. If it does not fail at first, it
does not fail later; from one time more than the limit on the expression stays the same, and then it
contains neither a bound variable nor a computable operation. If each variable of the expression itself
is unbound or becomes a number, once is enough. -/
theorem simplify_converges (h : b.simplify d e = .ok s) :
    (∀ k, ∃ t, b.simplifyTimes d e k = .ok t) ∧
    (∀ k ≥ d + 1, b.simplifyTimes d e k = b.simplifyTimes d e (d + 1)) ∧
    (∀ t, b.simplifyTimes d e (d + 1) = .ok t →
      (∀ x, t.Contains (.var x) → b.get? x = none) ∧
      ∀ f es, t.Contains (.operation f es) → ¬ Expr.Computable f es) ∧
    ((∀ x, e.Contains (.var x) →
        b.get? x = none ∨ ∃ v, b.simplify d (.var x) = .ok (.number v)) →
      b.simplifyTimes d e 2 = b.simplifyTimes d e 1) := by
  obtain ⟨t, ht, -, hpending⟩ := simplifyTimes_ok h (d + 1)
  have hdone : ¬ b.Pending t 0 := by
    intro hp
    have hdeep : b.Nests e (d + 1) := (Nat.zero_add (d + 1) ▸ hpending 0 hp).nests
    exact hdeep.simplifyWithin_ne h
  refine ⟨fun k => ?_, fun k hk => ?_, fun t' ht' => ?_, fun hvars => ?_⟩
  · obtain ⟨t, ht, -⟩ := simplifyTimes_ok h k
    exact ⟨t, ht⟩
  · rw [ht]
    induction hk with
    | refl => exact ht
    | step _ ih => exact simplifyTimes_succ h ih hdone
  · cases ht.symm.trans ht'
    refine ⟨fun x hx => ?_, fun f es hf hc => hdone ((Pending.computable hc).of_contains hf)⟩
    rw [← Option.not_isSome_iff_eq_none, Option.isSome_iff_exists]
    rintro ⟨c, hc⟩
    exact hdone ((Pending.bound hc).of_contains hx)
  · have hfirst : b.simplifyTimes d e 1 = .ok s := h
    rw [hfirst]
    refine simplifyTimes_succ h hfirst fun hp => ?_
    obtain ⟨x, c, hx, hbound, hp, j, hc⟩ := hp.exists_var h
    rcases hvars x hx with hnone | ⟨v, hv⟩
    · cases hnone.symm.trans hbound
    · rw [simplifyWithin_det hc hv] at hp
      cases hp

/-- `x` is bound to `y`, `y` to `f(z, 1 + 2)`, and `z` is unbound. The first two simplifications replace
the variables, the third computes the sum, and later ones find nothing to be done. In `z * w` with `w`
bound to a number there is nothing left after one. -/
theorem simplify_converges_through_bindings :
    let sum : Expr := .operation "+" [.number 1.0, .number 2.0]
    let b : Bindings := (((Store.withCapacity 3).put "x" (.var "y")).put "y"
      (.operation "f" [.var "z", sum])).put "w" sum
    let last : Expr := .operation "f" [.var "z", .number 3.0]
    let product : Expr := .operation "*" [.var "z", .var "w"]
    (b.simplifyTimes 3 (.var "x") 2 = .ok (.operation "f" [.var "z", sum]) ∧
      b.simplifyTimes 3 (.var "x") 4 = .ok last ∧ b.simplifyTimes 3 (.var "x") 1000 = .ok last) ∧
    b.simplifyTimes 3 product 2 = .ok (.operation "*" [.var "z", .number 3.0]) := by
  intro sum b last product
  have hx : b.simplify 3 (.var "x") = .ok (.var "y") := by rfl
  have hproduct : b.simplify 3 product = .ok (.operation "*" [.var "z", .number 3.0]) := by rfl
  have hlast : b.simplifyTimes 3 (.var "x") 4 = .ok last := by rfl
  have ⟨_, hstays, _⟩ := simplify_converges hx
  have ⟨_, _, _, honce⟩ := simplify_converges hproduct
  refine ⟨⟨by rfl, hlast, by rw [hstays 1000 (by decide), hlast]⟩, ?_⟩
  rw [honce]
  · exact hproduct
  · intro x hin
    obtain rfl | rfl : x = "z" ∨ x = "w" := by simpa [product] using hin
    · exact .inl (by rfl)
    · exact .inr ⟨3.0, by rfl⟩

end Bindings

end GraphCalc
