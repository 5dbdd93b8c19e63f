import GraphCalc.Proofs.Evaluation.Yields
import GraphCalc.Proofs.Failures
import GraphCalc.Proofs.Store.Entries
import GraphCalc.Simplification

/-!
# Simplification keeps results

An expression refines another under bindings (`Bindings.Refines`) if it has every result that the
other has, at no greater height. Refinement passes through operations, through bound variables and
through the folding of an operation (`Refines.operation`, `Refines.binding`, `Refines.fold`), so a
simplified expression refines the expression it comes from, even under bindings of further names
(`refines_of_simplifyWithin`). Being lower, it can be evaluated within every limit that sufficed
before: `evaluate_simplify`.
-/

namespace GraphCalc

namespace Expr

/-- Expressions that all have a value are numbers. -/
theorem eq_map_number_of_mapM_value? : ∀ {es : List Expr} {vs : List Float},
    es.mapM value? = some vs → es = vs.map number
  | [], vs, h => by cases h; rfl
  | e :: es, vs, h => by
    rw [List.mapM_cons] at h
    simp only [Option.bind_eq_bind, Option.bind_eq_some_iff] at h
    obtain ⟨v, hv, vs', hvs, heq⟩ := h
    cases heq
    cases e with
    | number => cases hv; rw [eq_map_number_of_mapM_value? hvs]; rfl
    | var | operation => cases hv

/-- Folding leaves an operation as it is, or computes a foldable operator at numbers. -/
theorem fold_cases (f : String) (es : List Expr) :
    fold f es = .operation f es ∨
      ∃ op vs v, Operator.ofName? f = some op ∧ op.isFoldable = true ∧ es = vs.map number ∧
        op.compute? vs = some v ∧ fold f es = .number v := by
  unfold fold
  split
  · next op vs hf hvs =>
    split
    · next v hfold hv =>
      exact .inr ⟨op, vs, v, hf, hfold, eq_map_number_of_mapM_value? hvs, hv, rfl⟩
    · exact .inl rfl
  · exact .inl rfl

end Expr

namespace Bindings

/-- Bindings with the same expression for every name that is bound, and perhaps of further names. -/
def Extends (b b' : Bindings) : Prop := ∀ x e, b.get? x = some e → b'.get? x = some e

/-- Binding a name that is not bound extends the bindings. -/
theorem extends_put {b : Bindings} (hb : b.Compact) {x : String} (hx : b.get? x = none) (e : Expr) :
    b.Extends (b.put x e) := by
  intro y t hy
  obtain ⟨hentries, hc⟩ := hb.put x e
  rw [hb.get?_eq] at hx hy
  rw [hc.get?_eq, hentries, Entries.put_of_absent hx]
  exact Entries.lookup_append_of_some hy _

/-- The second expression has every result of the first, at no greater height. -/
def Refines (b : Bindings) (e s : Expr) : Prop :=
  ∀ ⦃r h⦄, b.Yields e r h → ∃ h' ≤ h, b.Yields s r h'

variable {b b' : Bindings}

/-- An expression has its own results. -/
theorem Refines.refl (e : Expr) : b.Refines e e := fun _ h hy => ⟨h, Nat.le_refl h, hy⟩

/-- Refinement goes on from step to step, and the height never rises. -/
theorem Refines.trans {e s t : Expr} (h₁ : b.Refines e s) (h₂ : b.Refines s t) : b.Refines e t := by
  intro r h hy
  obtain ⟨h', hle, hs⟩ := h₁ hy
  obtain ⟨h'', hle', ht⟩ := h₂ hs
  exact ⟨h'', Nat.le_trans hle' hle, ht⟩

/-- A value stays within every limit. -/
theorem Refines.evaluate_eq_ok {e s : Expr} {v : Float} (hs : b.Refines e s)
    (h : b.evaluate m e = .ok v) : b.evaluate m s = .ok v := by
  have hne : b.evaluate m e ≠ .error (.tooDeep m) := by simp [h]
  obtain ⟨height, hle, hy⟩ := yields_of_evaluate_ne hne
  obtain ⟨height', hle', hys⟩ := hs hy
  rw [hys.evaluate_eq m, if_pos (Nat.le_trans hle' hle), h]

/-! ## What refinement passes through -/

/-- Operands that are refined one by one keep their values and their first failure. -/
theorem YieldsAll.refines {es ss : List Expr} {r h} (hss : List.Forall₂ b.Refines es ss)
    (hes : b.YieldsAll es r h) : ∃ h' ≤ h, b.YieldsAll ss r h' := by
  induction hss generalizing r h with
  | nil => exact ⟨h, Nat.le_refl h, hes⟩
  | cons hs _ ih =>
    cases hes with
    | first he =>
      obtain ⟨h', hle, he'⟩ := hs he
      exact ⟨h', hle, .first he'⟩
    | later he htail =>
      obtain ⟨h₁, hle₁, he'⟩ := hs he
      obtain ⟨h₂, hle₂, htail'⟩ := ih htail
      exact ⟨_, by omega, .later he' htail'⟩
    | cons he htail =>
      obtain ⟨h₁, hle₁, he'⟩ := hs he
      obtain ⟨h₂, hle₂, htail'⟩ := ih htail
      exact ⟨_, by omega, .cons he' htail'⟩

/-- Refining the operands refines the operation. Where its name or the number of its operands is
wrong, so it is afterwards. -/
theorem Refines.operation {es ss : List Expr} (f : String) (hss : List.Forall₂ b.Refines es ss) :
    b.Refines (.operation f es) (.operation f ss) := by
  intro r h hy
  have hlen := hss.length_eq
  cases hy with
  | unknown hf => exact ⟨0, Nat.le_refl 0, .unknown hf⟩
  | miscounted hf hne => exact ⟨0, Nat.le_refl 0, .miscounted hf (hlen ▸ hne)⟩
  | failed hf heq hes =>
    obtain ⟨h', hle, hes'⟩ := hes.refines hss
    exact ⟨h' + 1, Nat.succ_le_succ hle, .failed hf (hlen ▸ heq) hes'⟩
  | computed hf heq hes hv =>
    obtain ⟨h', hle, hes'⟩ := hes.refines hss
    exact ⟨h' + 1, Nat.succ_le_succ hle, .computed hf (hlen ▸ heq) hes' hv⟩

/-- A bound variable is refined by its binding. -/
theorem Refines.binding {x : String} {e : Expr} (hx : b.get? x = some e) :
    b.Refines (.var x) e := by
  intro r h hy
  cases hy with
  | unbound hx' => cases hx.symm.trans hx'
  | bound hx' he =>
    cases hx.symm.trans hx'
    exact ⟨_, Nat.le_succ _, he⟩

/-- Numbers as operands have their own values. -/
theorem YieldsAll.of_numbers {vs : List Float} {r h} (hes : b.YieldsAll (vs.map .number) r h) :
    r = .ok vs := by
  induction vs generalizing r h with
  | nil => cases hes; rfl
  | cons v vs ih =>
    cases hes with
    | first he => cases he
    | later _ htail => cases ih htail
    | cons he htail => cases he; cases ih htail; rfl

/-- An operation is refined by what it folds to. -/
theorem Refines.fold (f : String) (es : List Expr) :
    b.Refines (.operation f es) (Expr.fold f es) := by
  rcases Expr.fold_cases f es with heq | ⟨op, vs, v, hf, -, rfl, hv, heq⟩
  · rw [heq]
    exact .refl _
  · rw [heq]
    intro r h hy
    cases hy with
    | unknown hf' => cases hf.symm.trans hf'
    | miscounted hf' hne =>
      cases hf.symm.trans hf'
      exact absurd (by rw [List.length_map, Operator.length_of_compute? hv]) hne
    | failed _ _ hes => cases hes.of_numbers
    | computed hf' _ hes hv' =>
      cases hf.symm.trans hf'
      cases hes.of_numbers
      cases hv.symm.trans hv'
      exact ⟨0, Nat.zero_le _, .number⟩

/-! ## Simplification -/

/-- What becomes of an operand. A number stays as it is, and takes no level. -/
def simplifyOperand (b : Bindings) (limit n : Nat) (e : Expr) : Except EvalError Expr :=
  if e.isNumber then .ok e else b.simplifyWithin limit n e

/-- An operation is folded once its operands have been simplified, from left to right. -/
theorem simplifyWithin_operation (b : Bindings) (limit n : Nat) (f : String) (es : List Expr) :
    b.simplifyWithin limit (n + 1) (.operation f es) =
      (es.mapM (b.simplifyOperand limit n) >>= fun ss => .ok (Expr.fold f ss)) := rfl

/-- An operand that is a number stays, and any other is simplified. -/
theorem simplifyOperand_eq_ok_iff {e s : Expr} :
    b.simplifyOperand limit n e = .ok s ↔
      (e.isNumber = true ∧ s = e) ∨ (e.isNumber = false ∧ b.simplifyWithin limit n e = .ok s) := by
  cases hnum : e.isNumber <;> simp [simplifyOperand, hnum, eq_comm]

/-- An operand that fails is not a number, and its simplification has failed. -/
theorem error_of_simplifyOperand {e : Expr} {err : EvalError}
    (h : b.simplifyOperand limit n e = .error err) :
    e.isNumber = false ∧ b.simplifyWithin limit n e = .error err := by
  unfold simplifyOperand at h
  split at h
  · cases h
  · next hnum => exact ⟨by simpa using hnum, h⟩

/-- A variable becomes a number if its binding does. -/
theorem ok_of_simplify_var {s : Expr} (h : b.simplifyWithin limit (n + 1) (.var x) = .ok s) :
    (b.get? x = none ∧ s = .var x) ∨ ∃ e t, b.get? x = some e ∧
      b.simplifyWithin limit n e = .ok t ∧ s = if t.isNumber then t else e := by
  simp only [simplifyWithin] at h
  split at h
  · next hx =>
    cases h
    exact .inl ⟨hx, rfl⟩
  · next e hx =>
    obtain ⟨t, ht, h⟩ := ok_of_bind h
    cases h
    exact .inr ⟨e, t, hx, ht, rfl⟩

/-- An operation becomes what its simplified operands fold to. -/
theorem ok_of_simplify_operation {es : List Expr} {s : Expr}
    (h : b.simplifyWithin limit (n + 1) (.operation f es) = .ok s) :
    ∃ ss, List.Forall₂ (fun e s => b.simplifyOperand limit n e = .ok s) es ss ∧
      s = Expr.fold f ss := by
  rw [simplifyWithin_operation] at h
  obtain ⟨ss, hss, h⟩ := ok_of_bind h
  cases h
  exact ⟨ss, mapM_eq_ok_iff.1 hss, rfl⟩

/-- A simplified expression refines the expression, under the bindings it was simplified with and
under every extension of them. -/
theorem refines_of_simplifyWithin (hb : b.Extends b') (limit : Nat) : ∀ n e s,
    b.simplifyWithin limit n e = .ok s → b'.Refines e s := by
  intro n
  induction n with
  | zero => intro e s h; cases h
  | succ n ih =>
    intro e s h
    cases e with
    | number v => cases h; exact .refl _
    | var x =>
      rcases ok_of_simplify_var h with ⟨-, rfl⟩ | ⟨e, t, hx, ht, rfl⟩
      · exact .refl _
      · have hbinding := Refines.binding (hb x e hx)
        split
        · exact hbinding.trans (ih e t ht)
        · exact hbinding
    | operation f es =>
      obtain ⟨ss, hss, rfl⟩ := ok_of_simplify_operation h
      have hrefines : List.Forall₂ b'.Refines es ss := by
        refine hss.imp fun e s hs => ?_
        rcases simplifyOperand_eq_ok_iff.1 hs with ⟨-, rfl⟩ | ⟨-, hs⟩
        · exact .refl _
        · exact ih e s hs
      exact (Refines.operation f hrefines).trans (.fold f ss)

/-- Evaluating a simplified expression gives what evaluating the expression gives, be it a value or
a failure, within every limit that is not exceeded by the expression itself. The bindings may have
been extended in between. -/
theorem evaluate_simplify {e s : Expr} {d m : Nat} (hs : b.simplify d e = .ok s)
    (hb : b.Extends b') (hm : b'.evaluate m e ≠ .error (.tooDeep m)) :
    b'.evaluate m s = b'.evaluate m e := by
  obtain ⟨h, hle, hy⟩ := yields_of_evaluate_ne hm
  obtain ⟨h', hle', hys⟩ := refines_of_simplifyWithin hb d (d + 1) e s hs hy
  rw [hys.evaluate_eq m, if_pos (Nat.le_trans hle' hle)]

/-- `z * negate(x + 1)` with `x` bound to a number and `z` to `2 + y`: the binding of `z` is taken as
it stands, and the result is the same once `y` is bound. -/
theorem evaluate_simplify_symbolic_binding :
    let z : Expr := .operation "+" [.number 2.0, .var "y"]
    let b : Bindings := ((Store.withCapacity 1).put "x" (.number 3.0)).put "z" z
    let b' : Bindings := b.put "y" (.number 4.0)
    let e : Expr := .operation "*"
      [.var "z", .operation "negate" [.operation "+" [.var "x", .number 1.0]]]
    let s : Expr := .operation "*" [z, .number (-4.0)]
    b.simplify 4 e = .ok s ∧ b.Extends b' ∧ b'.evaluate 4 e = .ok (-24.0) ∧
      b'.evaluate 4 s = b'.evaluate 4 e := by
  intro z b b' e s
  have hs : b.simplify 4 e = .ok s := by rfl
  have hbuilt : b.Built := .put (.put (.withCapacity 1) _ _) _ _
  have hext : b.Extends b' := extends_put hbuilt.compact (by rfl) _
  have hvalue : b'.evaluate 4 e = .ok (-24.0) := by rfl
  exact ⟨hs, hext, hvalue, evaluate_simplify hs hext (by rw [hvalue]; nofun)⟩

end Bindings

end GraphCalc
