import GraphCalc.Evaluation

/-!
# Results and heights

`Bindings.Yields b e r h` says what an expression comes to when no limit cuts its evaluation off:
`e` has the result `r` under `b`, and finding it out goes `h` levels below `e`. Under bindings that
lead back to themselves an expression may have no result at all.

`Bindings.evaluate` is this relation cut at a depth: a limit at or above the height gives the result
and a limit below it gives `tooDeep` (`Yields.evaluate_eq`), and so does every limit where there is
no result (`evaluate_of_not_yields`). Result and height are therefore unique (`Yields.det`).
-/

namespace GraphCalc

/-- No operator can be computed without an operand. -/
theorem Operator.arity_pos (op : Operator) : 0 < op.arity := by
  cases op <;> decide

namespace Bindings

mutual

/-- The result of an expression and the height of its evaluation. An operation whose name or whose
number of operands is wrong fails without a look at its operands. -/
inductive Yields (b : Bindings) : Expr → Except EvalError Float → Nat → Prop
  | number : Yields b (.number v) (.ok v) 0
  | unbound : b.get? x = none → Yields b (.var x) (.error (.undefinedVariable x)) 0
  | bound : b.get? x = some e → Yields b e r h → Yields b (.var x) r (h + 1)
  | unknown : Operator.ofName? f = none →
      Yields b (.operation f es) (.error (.unknownOperator f)) 0
  | miscounted : Operator.ofName? f = some op → es.length ≠ op.arity →
      Yields b (.operation f es) (.error (.malformed f op.arity)) 0
  | failed : Operator.ofName? f = some op → es.length = op.arity →
      YieldsAll b es (.error err) h → Yields b (.operation f es) (.error err) (h + 1)
  | computed : Operator.ofName? f = some op → es.length = op.arity →
      YieldsAll b es (.ok vs) h → op.compute? vs = some v →
      Yields b (.operation f es) (.ok v) (h + 1)

/-- The values of the operands of an operation, or the first failure from the left, and the maximum
of the heights of those that are looked at. What follows the first failure is not. -/
inductive YieldsAll (b : Bindings) : List Expr → Except EvalError (List Float) → Nat → Prop
  | nil : YieldsAll b [] (.ok []) 0
  | first : Yields b e (.error err) h → YieldsAll b (e :: es) (.error err) h
  | later : Yields b e (.ok v) h → YieldsAll b es (.error err) h' →
      YieldsAll b (e :: es) (.error err) (max h h')
  | cons : Yields b e (.ok v) h → YieldsAll b es (.ok vs) h' →
      YieldsAll b (e :: es) (.ok (v :: vs)) (max h h')

end

/-! ## Values of operands -/

/-- As many values as operands. -/
theorem YieldsAll.length_eq {b : Bindings} :
    ∀ {es vs h}, b.YieldsAll es (.ok vs) h → vs.length = es.length
  | _, _, _, .nil => rfl
  | _, _, _, .cons _ htail => by simp [htail.length_eq]

/-- Operands of the right number with values have a value under the operator. -/
theorem YieldsAll.exists_compute {b : Bindings} {op : Operator}
    (hes : b.YieldsAll es (.ok vs) h) (hlen : es.length = op.arity) :
    ∃ v, op.compute? vs = some v := by
  have hsome := op.isSome_compute? vs
  rw [hes.length_eq, hlen, beq_self_eq_true] at hsome
  exact Option.isSome_iff_exists.1 hsome

/-! ## A limit above the height -/

mutual

/-- A budget of more levels than the height gives the result. -/
theorem Yields.evaluateWithin_of_lt {b : Bindings} {limit n : Nat} :
    ∀ {e r h}, b.Yields e r h → h < n → b.evaluateWithin limit n e = r := by
  intro e r h hy hn
  obtain ⟨n, rfl⟩ := Nat.exists_eq_succ_of_ne_zero (Nat.ne_zero_of_lt hn)
  cases hy with
  | number => rfl
  | unbound hx => simp only [evaluateWithin, hx]
  | bound hx he =>
    simp only [evaluateWithin, hx]
    exact he.evaluateWithin_of_lt (Nat.lt_of_succ_lt_succ hn)
  | unknown hf => simp only [evaluateWithin, hf]
  | miscounted hf hlen => simp only [evaluateWithin, hf, if_neg hlen]
  | failed hf hlen hes =>
    simp only [evaluateWithin, hf, if_pos hlen, hes.mapM_of_lt (Nat.lt_of_succ_lt_succ hn)]
    rfl
  | computed hf hlen hes hv =>
    simp only [evaluateWithin, hf, if_pos hlen, hes.mapM_of_lt (Nat.lt_of_succ_lt_succ hn)]
    simp only [bind, Except.bind, hv]
    rfl

/-- A budget of more levels than the greatest height of the operands gives their values or the first
failure. -/
theorem YieldsAll.mapM_of_lt {b : Bindings} {limit n : Nat} :
    ∀ {es r h}, b.YieldsAll es r h → h < n → es.mapM (b.evaluateWithin limit n) = r := by
  intro es r h hes hn
  cases hes with
  | nil => rfl
  | first he =>
    rw [List.mapM_cons, he.evaluateWithin_of_lt hn]
    rfl
  | later he htail =>
    rw [Nat.max_lt] at hn
    rw [List.mapM_cons, he.evaluateWithin_of_lt hn.1, htail.mapM_of_lt hn.2]
    rfl
  | cons he htail =>
    rw [Nat.max_lt] at hn
    rw [List.mapM_cons, he.evaluateWithin_of_lt hn.1, htail.mapM_of_lt hn.2]
    rfl

end

/-! ## A limit below the height -/

mutual

/-- A budget of no more levels than the height is used up. -/
theorem Yields.evaluateWithin_of_le {b : Bindings} {limit n : Nat} :
    ∀ {e r h}, b.Yields e r h → n ≤ h → b.evaluateWithin limit n e = .error (.tooDeep limit) := by
  intro e r h hy hn
  cases n with
  | zero => rfl
  | succ n =>
    cases hy with
    | number | unbound | unknown | miscounted => exact absurd hn (Nat.not_succ_le_zero n)
    | bound hx he =>
      simp only [evaluateWithin, hx]
      exact he.evaluateWithin_of_le (Nat.le_of_succ_le_succ hn)
    | failed hf hlen hes | computed hf hlen hes =>
      have hpos := List.length_pos_iff.1 (hlen ▸ Operator.arity_pos _)
      simp only [evaluateWithin, hf, if_pos hlen,
        hes.mapM_of_le (.inl hpos) (Nat.le_of_succ_le_succ hn)]
      rfl

/-- A budget of no more levels than the greatest height of the operands is used up on the way. -/
theorem YieldsAll.mapM_of_le {b : Bindings} {limit n : Nat} :
    ∀ {es r h}, b.YieldsAll es r h → es ≠ [] ∨ 0 < n → n ≤ h →
      es.mapM (b.evaluateWithin limit n) = .error (.tooDeep limit) := by
  intro es r h hes hpos hn
  cases hes with
  | nil => exact absurd (Nat.le_zero.1 hn) (Nat.ne_of_gt (hpos.resolve_left (· rfl)))
  | first he =>
    rw [List.mapM_cons, he.evaluateWithin_of_le hn]
    rfl
  | @later e v h₁ es err h₂ he htail | @cons e v h₁ es vs h₂ he htail =>
    rcases Nat.lt_or_ge h₁ n with hlt | hge
    · have hn₂ : n ≤ h₂ := by omega
      rw [List.mapM_cons, he.evaluateWithin_of_lt hlt,
        htail.mapM_of_le (.inr (Nat.zero_lt_of_lt hlt)) hn₂]
      rfl
    · rw [List.mapM_cons, he.evaluateWithin_of_le hge]
      rfl

end

/-! ## A result or none -/

/-- If each operand has a result within the budget or uses it up, so do all together. -/
theorem yieldsAll_or_tooDeep {b : Bindings} {limit n : Nat} (hn : 0 < n)
    (ih : ∀ e, (∃ r h, h < n ∧ b.Yields e r h) ∨
      b.evaluateWithin limit n e = .error (.tooDeep limit)) (es : List Expr) :
    (∃ r h, h < n ∧ b.YieldsAll es r h) ∨
      es.mapM (b.evaluateWithin limit n) = .error (.tooDeep limit) := by
  induction es with
  | nil => exact .inl ⟨_, 0, hn, .nil⟩
  | cons e es iht =>
    rw [List.mapM_cons]
    rcases ih e with ⟨_ | v, h, hlt, he⟩ | he
    · exact .inl ⟨_, h, hlt, .first he⟩
    · rcases iht with ⟨_ | vs, h', hlt', htail⟩ | htail
      · exact .inl ⟨_, _, Nat.max_lt.2 ⟨hlt, hlt'⟩, .later he htail⟩
      · exact .inl ⟨_, _, Nat.max_lt.2 ⟨hlt, hlt'⟩, .cons he htail⟩
      · rw [he.evaluateWithin_of_lt hlt, htail]
        exact .inr rfl
    · rw [he]
      exact .inr rfl

/-- An expression has a result within a budget or uses the budget up. -/
theorem yields_or_tooDeep (b : Bindings) (limit : Nat) : ∀ n e,
    (∃ r h, h < n ∧ b.Yields e r h) ∨ b.evaluateWithin limit n e = .error (.tooDeep limit) := by
  intro n
  induction n with
  | zero => exact fun _ => .inr rfl
  | succ n ih =>
    intro e
    cases e with
    | number v => exact .inl ⟨_, 0, Nat.succ_pos n, .number⟩
    | var x =>
      cases hx : b.get? x with
      | none => exact .inl ⟨_, 0, Nat.succ_pos n, .unbound hx⟩
      | some e =>
        rcases ih e with ⟨r, h, hlt, he⟩ | he
        · exact .inl ⟨r, h + 1, Nat.succ_lt_succ hlt, .bound hx he⟩
        · simp only [evaluateWithin, hx]
          exact .inr he
    | operation f es =>
      cases hf : Operator.ofName? f with
      | none => exact .inl ⟨_, 0, Nat.succ_pos n, .unknown hf⟩
      | some op =>
        by_cases hlen : es.length = op.arity
        · have hes : (∃ r h, h < n ∧ b.YieldsAll es r h) ∨
              es.mapM (b.evaluateWithin limit n) = .error (.tooDeep limit) := by
            -- Without a level for the operands the first of them fails. Every operator has one.
            rcases Nat.eq_zero_or_pos n with rfl | hpos
            · obtain ⟨e, es, rfl⟩ := List.exists_cons_of_length_pos (hlen ▸ op.arity_pos)
              rw [List.mapM_cons]
              exact .inr rfl
            · exact yieldsAll_or_tooDeep hpos ih es
          rcases hes with ⟨_ | vs, h, hlt, hes⟩ | hes
          · exact .inl ⟨_, h + 1, Nat.succ_lt_succ hlt, .failed hf hlen hes⟩
          · obtain ⟨v, hv⟩ := hes.exists_compute hlen
            exact .inl ⟨_, h + 1, Nat.succ_lt_succ hlt, .computed hf hlen hes hv⟩
          · simp only [evaluateWithin, hf, if_pos hlen, hes]
            exact .inr rfl
        · exact .inl ⟨_, 0, Nat.succ_pos n, .miscounted hf hlen⟩

/-! ## The cut -/

mutual

/-- Running out of levels is never a result. -/
theorem Yields.ne_tooDeep {b : Bindings} {limit : Nat} :
    ∀ {e r h}, b.Yields e r h → r ≠ .error (.tooDeep limit)
  | _, _, _, .number | _, _, _, .computed .. => nofun
  | _, _, _, .unbound _ | _, _, _, .unknown _ | _, _, _, .miscounted .. => nofun
  | _, _, _, .bound _ he => he.ne_tooDeep
  | _, _, _, .failed _ _ hes => fun h => hes.ne_tooDeep (congrArg _ (Except.error.inj h))

/-- Nor is it one of operands. -/
theorem YieldsAll.ne_tooDeep {b : Bindings} {limit : Nat} :
    ∀ {es r h}, b.YieldsAll es r h → r ≠ .error (.tooDeep limit)
  | _, _, _, .nil | _, _, _, .cons .. => nofun
  | _, _, _, .first he => fun h => he.ne_tooDeep (congrArg _ (Except.error.inj h))
  | _, _, _, .later _ htail => htail.ne_tooDeep

end

/-- The result of an expression is what evaluation gives unless the height is beyond the limit. -/
theorem Yields.evaluate_eq {b : Bindings} (hy : b.Yields e r h) (d : Nat) :
    b.evaluate d e = if h ≤ d then r else .error (.tooDeep d) := by
  unfold evaluate
  split
  · next hd => exact hy.evaluateWithin_of_lt (Nat.lt_succ_of_le hd)
  · next hd => exact hy.evaluateWithin_of_le (Nat.succ_le_of_lt (Nat.lt_of_not_le hd))

/-- Where evaluation is not cut off there is a result, within the limit. -/
theorem yields_of_evaluate_ne {b : Bindings} (h : b.evaluate d e ≠ .error (.tooDeep d)) :
    ∃ height ≤ d, b.Yields e (b.evaluate d e) height := by
  obtain ⟨r, height, hlt, hy⟩ := (yields_or_tooDeep b d (d + 1) e).resolve_right h
  have hle := Nat.le_of_lt_succ hlt
  rw [hy.evaluate_eq d, if_pos hle]
  exact ⟨height, hle, hy⟩

/-- An expression without a result is too deep for every limit. -/
theorem evaluate_of_not_yields {b : Bindings} (hn : ∀ r h, ¬ b.Yields e r h) (d : Nat) :
    b.evaluate d e = .error (.tooDeep d) :=
  (yields_or_tooDeep b d (d + 1) e).resolve_left fun ⟨_, _, _, hy⟩ => hn _ _ hy

/-- An expression has one result and one height. -/
theorem Yields.det {b : Bindings} (hy : b.Yields e r h) (hy' : b.Yields e r' h') :
    r = r' ∧ h = h' := by
  -- A limit at one of the heights gives a result there, so it cannot be below the other height.
  have hle : ∀ {r h r' h'}, b.Yields e r h → b.Yields e r' h' → h' ≤ h := by
    intro r h r' h' hy hy'
    refine Nat.le_of_not_lt fun hlt => hy.ne_tooDeep (?_ : r = .error (.tooDeep h))
    have heq := (hy.evaluate_eq h).symm.trans (hy'.evaluate_eq h)
    rwa [if_pos (Nat.le_refl h), if_neg (Nat.not_le_of_lt hlt)] at heq
  obtain rfl : h = h' := Nat.le_antisymm (hle hy' hy) (hle hy hy')
  have heq := (hy.evaluate_eq h).symm.trans (hy'.evaluate_eq h)
  rw [if_pos (Nat.le_refl h), if_pos (Nat.le_refl h)] at heq
  exact ⟨heq, rfl⟩

end Bindings

end GraphCalc
