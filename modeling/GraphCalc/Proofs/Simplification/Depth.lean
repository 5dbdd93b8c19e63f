import GraphCalc.Proofs.Evaluation.Unfolding
import GraphCalc.Proofs.Simplification.Refines

/-!
# How deep simplification goes

Simplification visits the whole unfolding of an expression, except for the numbers that are operands.
So it fails just where the unfolding is deeper than the limit, numbers as operands not counted:
`simplifyWithin_eq_error_iff`. `Bindings.Nests` is that depth as simplification meets it, from the
top, and `deeperThan_iff_nests` finds it in the unfolding.

Evaluation visits less, and visits numbers. An expression with a value is therefore simplified within
the same limit (`exists_simplify_of_evaluate`), and one that is simplified is evaluated within one
level more (`evaluateWithin_ne_of_simplifyWithin`).
-/

namespace GraphCalc.Bindings

/-- A position of the unfolding is deeper than `d`, other than that of a number as an operand. -/
def DeeperThan (b : Bindings) (d : Nat) (e : Expr) : Prop :=
  ∃ k role c, b.Unfolds e k role c ∧ d < k ∧ ¬ (role = .operand ∧ c.isNumber = true)

/-- So many levels lie below an expression, numbers as operands not counted. -/
inductive Nests (b : Bindings) : Expr → Nat → Prop
  | here : Nests b e 0
  | operand : c ∈ es → c.isNumber = false → Nests b c n → Nests b (.operation f es) (n + 1)
  | binding : b.get? x = some c → Nests b c n → Nests b (.var x) (n + 1)

variable {b b' : Bindings} {limit limit' n m : Nat} {e s c : Expr} {role : Role} {k : Nat}

/-! ## Levels of the unfolding -/

/-- What nests so deep nests less deep too. -/
theorem Nests.of_le (h : b.Nests e n) (hle : m ≤ n) : b.Nests e m := by
  induction h generalizing m with
  | here =>
    rw [Nat.le_zero.1 hle]
    exact .here
  | operand hmem hc _ ih =>
    cases m with
    | zero => exact .here
    | succ m => exact .operand hmem hc (ih (Nat.le_of_succ_le_succ hle))
  | binding hx _ ih =>
    cases m with
    | zero => exact .here
    | succ m => exact .binding hx (ih (Nat.le_of_succ_le_succ hle))

/-- Levels below a position are levels below the root. What stands above a position is no number. -/
theorem Unfolds.nests (h : b.Unfolds e k role c) (hc : ¬ (role = .operand ∧ c.isNumber = true))
    (hn : b.Nests c n) : b.Nests e (k + n) := by
  induction h generalizing n with
  | root => rwa [Nat.zero_add]
  | operand _ hmem ih =>
    rw [Nat.add_assoc, Nat.add_comm 1 n]
    exact ih (by simp [Expr.isNumber]) (.operand hmem (by simpa using hc) hn)
  | binding _ hx ih =>
    rw [Nat.add_assoc, Nat.add_comm 1 n]
    exact ih (by simp [Expr.isNumber]) (.binding hx hn)

/-- Levels below a position lead to positions that are so much deeper. -/
theorem Nests.exists_unfolds (hn : b.Nests c n) (h : b.Unfolds e k role c)
    (hc : ¬ (role = .operand ∧ c.isNumber = true)) :
    ∃ role' c', b.Unfolds e (k + n) role' c' ∧ ¬ (role' = .operand ∧ c'.isNumber = true) := by
  induction hn generalizing k role with
  | here => exact ⟨role, _, h, hc⟩
  | operand hmem hnum _ ih =>
    rw [Nat.add_comm _ 1, ← Nat.add_assoc]
    exact ih (.operand h hmem) (by simp [hnum])
  | binding hx _ ih =>
    rw [Nat.add_comm _ 1, ← Nat.add_assoc]
    exact ih (.binding h hx) (by simp)

/-- To be deeper than a limit is to nest one level further. -/
theorem deeperThan_iff_nests {d : Nat} : b.DeeperThan d e ↔ b.Nests e (d + 1) := by
  constructor
  · rintro ⟨k, role, c, h, hlt, hc⟩
    exact (h.nests hc .here).of_le hlt
  · intro hn
    obtain ⟨role, c, h, hc⟩ := hn.exists_unfolds .root (by simp)
    exact ⟨_, role, c, h, by omega, hc⟩

/-! ## The budget of simplification -/

/-- Simplification fails if there are as many levels as its budget has, its own being the first. -/
theorem Nests.simplifyWithin_ne (h : b.Nests e n) : b.simplifyWithin limit n e ≠ .ok s := by
  induction h generalizing s with
  | here => nofun
  | operand hmem hc _ ih =>
    intro hs
    obtain ⟨ss, hss, -⟩ := ok_of_simplify_operation hs
    obtain ⟨t, ht⟩ := exists_of_forall₂ hss hmem
    rcases simplifyOperand_eq_ok_iff.1 ht with ⟨hnum, -⟩ | ⟨-, ht⟩
    · rw [hc] at hnum
      cases hnum
    · exact ih ht
  | binding hx _ ih =>
    intro hs
    rcases ok_of_simplify_var hs with ⟨hx', -⟩ | ⟨c, t, hx', ht, -⟩
    · cases hx.symm.trans hx'
    · cases hx.symm.trans hx'
      exact ih ht

/-- Nothing else makes it fail. -/
theorem nests_of_simplifyWithin_error : ∀ {n e err}, b.simplifyWithin limit n e = .error err →
    err = .tooDeep limit ∧ b.Nests e n := by
  intro n
  induction n with
  | zero =>
    intro e err h
    cases h
    exact ⟨rfl, .here⟩
  | succ n ih =>
    intro e err h
    cases e with
    | number v => cases h
    | var x =>
      simp only [simplifyWithin] at h
      split at h
      · cases h
      · next c hx =>
        rcases error_of_bind h with hc | ⟨_, -, h⟩
        · obtain ⟨herr, hn⟩ := ih hc
          exact ⟨herr, .binding hx hn⟩
        · cases h
    | operation f es =>
      rw [simplifyWithin_operation] at h
      rcases error_of_bind h with hes | ⟨_, -, h⟩
      · obtain ⟨c, hmem, hc⟩ := error_of_mapM hes
        obtain ⟨hnum, hc⟩ := error_of_simplifyOperand hc
        obtain ⟨herr, hn⟩ := ih hc
        exact ⟨herr, .operand hmem hnum hn⟩
      · cases h

/-- Simplifying fails just if the nesting uses up the levels, and says only that. -/
theorem simplifyWithin_eq_error_iff {err : EvalError} :
    b.simplifyWithin limit n e = .error err ↔ err = .tooDeep limit ∧ b.Nests e n := by
  refine ⟨nests_of_simplifyWithin_error, ?_⟩
  rintro ⟨rfl, hn⟩
  cases h : b.simplifyWithin limit n e with
  | ok s => exact absurd h hn.simplifyWithin_ne
  | error err => rw [(nests_of_simplifyWithin_error h).1]

/-- With a larger budget the simplified expression is the same. -/
theorem simplifyWithin_of_le : ∀ {n m e s}, b.simplifyWithin limit n e = .ok s → n ≤ m →
    b.simplifyWithin limit' m e = .ok s := by
  intro n
  induction n with
  | zero => intro m e s h; cases h
  | succ n ih =>
    intro m e s h hle
    obtain ⟨m, rfl⟩ := Nat.exists_eq_succ_of_ne_zero (Nat.ne_zero_of_lt hle)
    have hle := Nat.le_of_succ_le_succ hle
    cases e with
    | number v => exact h
    | var x =>
      rcases ok_of_simplify_var h with ⟨hx, rfl⟩ | ⟨c, t, hx, ht, rfl⟩
      · simp only [simplifyWithin, hx]
      · simp only [simplifyWithin, hx, ih ht hle]
        rfl
    | operation f es =>
      obtain ⟨ss, hss, rfl⟩ := ok_of_simplify_operation h
      have hss' : es.mapM (b.simplifyOperand limit' m) = .ok ss := by
        refine mapM_eq_ok_iff.2 (hss.imp fun c s hs => ?_)
        rcases simplifyOperand_eq_ok_iff.1 hs with hnum | ⟨hnum, hs⟩
        · exact simplifyOperand_eq_ok_iff.2 (.inl hnum)
        · exact simplifyOperand_eq_ok_iff.2 (.inr ⟨hnum, ih hs hle⟩)
      rw [simplifyWithin_operation, hss']
      rfl

/-! ## The budget of evaluation -/

/-- A variable has the value of its binding. -/
theorem ok_of_evaluate_var {v : Float} (h : b.evaluateWithin limit (n + 1) (.var x) = .ok v) :
    ∃ e, b.get? x = some e ∧ b.evaluateWithin limit n e = .ok v := by
  simp only [evaluateWithin] at h
  split at h
  · cases h
  · next e hx => exact ⟨e, hx, h⟩

/-- An operation with a value is computed from the values of its operands. -/
theorem ok_of_evaluate_operation {es : List Expr} {v : Float}
    (h : b.evaluateWithin limit (n + 1) (.operation f es) = .ok v) :
    ∃ op vs, Operator.ofName? f = some op ∧ op.compute? vs = some v ∧
      List.Forall₂ (fun e v => b.evaluateWithin limit n e = .ok v) es vs := by
  simp only [evaluateWithin] at h
  split at h
  · cases h
  · next op hf =>
    split at h
    · obtain ⟨vs, hvs, h⟩ := ok_of_bind h
      split at h
      · next w hw =>
        cases h
        exact ⟨op, vs, hf, hw, mapM_eq_ok_iff.1 hvs⟩
      · cases h
    · cases h

/-- What has a value is simplified within the same budget, also under fewer bindings. -/
theorem exists_simplify_of_evaluate (hb : b.Extends b') : ∀ {n e v},
    b'.evaluateWithin limit n e = .ok v → ∃ s, b.simplifyWithin limit' n e = .ok s := by
  intro n
  induction n with
  | zero => intro e v h; cases h
  | succ n ih =>
    intro e v h
    cases e with
    | number w => exact ⟨_, rfl⟩
    | var x =>
      obtain ⟨c, hx', hc⟩ := ok_of_evaluate_var h
      cases hx : b.get? x with
      | none => exact ⟨.var x, by simp only [simplifyWithin, hx]⟩
      | some c' =>
        cases (hb x c' hx).symm.trans hx'
        obtain ⟨s, hs⟩ := ih hc
        simp only [simplifyWithin, hx, hs]
        exact ⟨_, rfl⟩
    | operation f es =>
      obtain ⟨op, vs, -, -, hvs⟩ := ok_of_evaluate_operation h
      have hss : ∃ ss, es.mapM (b.simplifyOperand limit' n) = .ok ss := by
        refine exists_mapM_ok fun c hmem => ?_
        obtain ⟨w, hw⟩ := exists_of_forall₂ hvs hmem
        unfold simplifyOperand
        split
        · exact ⟨c, rfl⟩
        · exact ih hw
      obtain ⟨ss, hss⟩ := hss
      exact ⟨Expr.fold f ss, by rw [simplifyWithin_operation, hss]; rfl⟩

/-- What is simplified within a budget does not use up a larger one when it is evaluated. -/
theorem evaluateWithin_ne_of_simplifyWithin : ∀ {n e s}, b.simplifyWithin limit n e = .ok s →
    b.evaluateWithin limit' (n + 1) e ≠ .error (.tooDeep limit') := by
  intro n
  induction n with
  | zero => intro e s h; cases h
  | succ n ih =>
    intro e s h
    cases e with
    | number v => simp [evaluateWithin]
    | var x =>
      rcases ok_of_simplify_var h with ⟨hx, -⟩ | ⟨c, t, hx, ht, -⟩
      · simp [evaluateWithin, hx]
      · simp only [evaluateWithin, hx]
        exact ih ht
    | operation f es =>
      obtain ⟨ss, hss, -⟩ := ok_of_simplify_operation h
      intro herr
      rw [evaluateWithin] at herr
      split at herr
      · cases herr
      · split at herr
        · rcases error_of_bind herr with hes | ⟨vs, -, herr⟩
          · obtain ⟨c, hmem, hc⟩ := error_of_mapM hes
            obtain ⟨t, ht⟩ := exists_of_forall₂ hss hmem
            rcases simplifyOperand_eq_ok_iff.1 ht with ⟨hnum, -⟩ | ⟨-, ht⟩
            · cases c with
              | number => cases hc
              | var | operation => cases hnum
            · exact ih ht hc
          · split at herr <;> cases herr
        · cases herr

/-! ## The limit -/

/-- The limit of simplification is exact: it is exceeded just where the unfolding is deeper, numbers as
operands not counted, and there is no other failure. So a variable that leads back to itself fails
wherever it stands. A larger limit does not change what an expression is simplified to. What has a
value within the limit is simplified within it, and what is simplified within it does not exceed the
limit above when it is evaluated. -/
theorem simplify_limit_exact (b : Bindings) (e : Expr) (d : Nat) :
    ((∃ err, b.simplify d e = .error err) ↔ b.DeeperThan d e) ∧
    (∀ err, b.simplify d e = .error err → err = .tooDeep d) ∧
    (∀ x k role j role', b.Unfolds e k role (.var x) →
      b.Unfolds (.var x) (j + 1) role' (.var x) → b.simplify d e = .error (.tooDeep d)) ∧
    (∀ s, b.simplify d e = .ok s → ∀ d' ≥ d, b.simplify d' e = .ok s) ∧
    (∀ v, b.evaluate d e = .ok v → ∃ s, b.simplify d e = .ok s) ∧
    (∀ s, b.simplify d e = .ok s →
      ∀ limit, b.evaluate (d + 1) e ≠ .error (.tooDeep limit)) := by
  have herror : ∀ err, b.simplify d e = .error err ↔ err = .tooDeep d ∧ b.DeeperThan d e := by
    intro err
    rw [deeperThan_iff_nests]
    exact simplifyWithin_eq_error_iff
  refine ⟨⟨fun ⟨err, h⟩ => ((herror err).1 h).2, fun h => ⟨_, (herror _).2 ⟨rfl, h⟩⟩⟩,
    fun err h => ((herror err).1 h).1, fun x k role j role' hx hloop => ?_,
    fun s h d' hle => simplifyWithin_of_le h (Nat.succ_le_succ hle),
    fun v h => exists_simplify_of_evaluate (fun _ _ hx => hx) h, fun s h limit => ?_⟩
  · obtain ⟨m, role, hle, hm⟩ := hx.exists_deeper hloop (d + 1)
    exact (herror _).2 ⟨rfl, m, role, .var x, hm, hle, by simp [Expr.isNumber]⟩
  · obtain ⟨height, -, hy⟩ := yields_of_evaluate_ne (evaluateWithin_ne_of_simplifyWithin h)
    exact hy.ne_tooDeep

/-- `f(x + 1)` with `x` bound to a number: at depth 3 the number that `x` is bound to counts, at depth 2
the operand 1 does not. Below `f`, which is no operator, a variable bound to its own successor is too
deep for any limit. -/
theorem simplify_limit_exact_unknown_operator :
    let sum : String → Expr := fun x => .operation "+" [.var x, .number 1.0]
    let b : Bindings := ((Store.withCapacity 2).put "x" (.number 2.0)).put "y" (sum "y")
    let e : Expr := .operation "f" [sum "x"]
    let s : Expr := .operation "f" [.number 3.0]
    (b.DeeperThan 2 e ∧ b.simplify 2 e = .error (.tooDeep 2)) ∧
      (b.simplify 3 e = .ok s ∧ ¬ b.DeeperThan 3 e ∧ b.simplify 1000 e = .ok s ∧
        b.evaluate 4 e ≠ .error (.tooDeep 4)) ∧
      (b.evaluate 2 (sum "x") = .ok 3.0 ∧ ∃ s, b.simplify 2 (sum "x") = .ok s) ∧
      b.simplify 1000 (.operation "f" [.var "y"]) = .error (.tooDeep 1000) := by
  intro sum b e s
  have hfail : b.simplify 2 e = .error (.tooDeep 2) := by rfl
  have hok : b.simplify 3 e = .ok s := by rfl
  have hvalue : b.evaluate 2 (sum "x") = .ok 3.0 := by rfl
  have hy : b.get? "y" = some (sum "y") := by rfl
  have ⟨hiff₂, _⟩ := simplify_limit_exact b e 2
  have ⟨hiff₃, _, _, hlarger, _, hlimit⟩ := simplify_limit_exact b e 3
  have ⟨_, _, _, _, hsimp, _⟩ := simplify_limit_exact b (sum "x") 2
  have ⟨_, _, hcycle, _⟩ := simplify_limit_exact b (.operation "f" [.var "y"]) 1000
  refine ⟨⟨hiff₂.1 ⟨_, hfail⟩, hfail⟩, ⟨hok, fun hdeep => ?_, hlarger s hok 1000 (by decide),
    hlimit s hok 4⟩, ⟨hvalue, hsimp 3.0 hvalue⟩, ?_⟩
  · obtain ⟨err, herr⟩ := hiff₃.2 hdeep
    cases hok.symm.trans herr
  · exact hcycle "y" 1 .operand 1 .operand (.operand .root (List.mem_singleton.2 rfl))
      (.operand (.binding .root hy) List.mem_cons_self)

end GraphCalc.Bindings
