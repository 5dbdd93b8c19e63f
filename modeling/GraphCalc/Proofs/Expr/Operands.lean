import GraphCalc.Proofs.Sequence.Refinement
import GraphCalc.Proofs.Simplification.Refines

/-!
# Operands in sequences

The operands of an operation are kept in a sequence, and an expression shows the list of its items.
Whoever uses the operands asks for their number, goes through them from the front, compares them, or
pushes new ones to an empty sequence. Each of these is done below on the sequence itself
(`evaluateSequence`, `simplifySequence`, `Sequence.equal`) and is what the expression does with the list.
`operation_of_history` says so for the operands that any history of actions has made.
-/

namespace GraphCalc

namespace Expr

/-- The operation whose operands are the items of a sequence. -/
def ofSequence (f : String) (s : Sequence Expr) : Except Sequence.Error Expr :=
  (s.items .front).map (operation f)

variable {s t : Sequence Expr} {es fs : List Expr}

/-- A sequence that holds the operands makes the operation with them. -/
theorem ofSequence_of_holds (h : s.Holds es) (f : String) :
    ofSequence f s = .ok (operation f es) := by
  rw [ofSequence, h.items_eq]
  rfl

/-- An operation has the arity asked for if its sequence has that size. -/
theorem operandsOf?_of_holds (h : s.Holds es) (f name : String) (arity : Nat) :
    (operation f es).operandsOf? name arity =
      if f = name ∧ s.size = arity then some es else none := by
  rw [operandsOf?, h.size_eq]

/-! ## Comparison -/

/-- Operands are equal if there are as many on both sides and they are equal in pairs. -/
theorem equalAll_eq (es fs : List Expr) :
    equalAll es fs = (es.length == fs.length && (es.zip fs).all fun (e, f) => e == f) := by
  induction es generalizing fs with
  | nil => cases fs <;> simp [equalAll]
  | cons e es ih =>
    cases fs with
    | nil => simp [equalAll]
    | cons f fs =>
      have hbeq : (e == f) = equal e f := rfl
      simp [equalAll, ih, hbeq, Bool.and_left_comm]

/-- The operands of two operations are compared as their sequences are. -/
theorem equal_of_holds (h : s.Holds es) (h' : t.Holds fs) : s.equal t = .ok (equalAll es fs) := by
  rw [h.equal_eq h', equalAll_eq]

/-- Operations are equal if their names are and their sequences. -/
theorem beq_of_holds (h : s.Holds es) (h' : t.Holds fs) (f g : String) :
    (s.equal t).map (f == g && ·) = .ok (operation f es == operation g fs) := by
  rw [equal_of_holds h h']
  rfl

/-! ## Collecting operands -/

/-- Goes through the operands and pushes what each of them gives, up to the first that fails. -/
def collect (g : Expr → Except EvalError Expr) :
    List Expr → Sequence Expr → Except Sequence.Error (Except EvalError (Sequence Expr))
  | [], t => .ok (.ok t)
  | e :: es, t =>
    match g e with
    | .error err => .ok (.error err)
    | .ok e' => do collect g es (← t.push e')

/-- What is collected is held behind what was there before. It fails where the list does. -/
theorem collect_of_holds (h : t.Holds fs) (g : Expr → Except EvalError Expr) (es : List Expr) :
    (∃ err, es.mapM g = .error err ∧ collect g es t = .ok (.error err)) ∨
      ∃ es' t', es.mapM g = .ok es' ∧ collect g es t = .ok (.ok t') ∧ t'.Holds (fs ++ es') := by
  induction es generalizing t fs with
  | nil => exact .inr ⟨[], t, rfl, rfl, by rwa [List.append_nil]⟩
  | cons e es ih =>
    rw [List.mapM_cons, collect]
    cases hge : g e with
    | error err => exact .inl ⟨err, rfl, rfl⟩
    | ok e' =>
      -- The rest is collected behind this operand, so that what was there before is general.
      obtain ⟨u, hpush, hu⟩ := h.push e'
      simp only [hpush]
      obtain ⟨err, hmap, hcollect⟩ | ⟨es', t', hmap, hcollect, ht'⟩ := ih hu
      · exact .inl ⟨err, by rw [hmap]; rfl, hcollect⟩
      · refine .inr ⟨e' :: es', t', by rw [hmap]; rfl, hcollect, ?_⟩
        rwa [List.append_cons]

end Expr

/-! ## Evaluation and simplification -/

namespace Bindings

variable (b : Bindings) (limit n : Nat) (f : String) {s : Sequence Expr} {es : List Expr}

/-- The value of an operation whose operands are in a sequence. Their number is its size. -/
def evaluateSequence (s : Sequence Expr) : Except Sequence.Error (Except EvalError Float) :=
  match Operator.ofName? f with
  | none => .ok (.error (.unknownOperator f))
  | some op =>
    if s.size = op.arity then
      (s.items .front).map fun es => do
        match op.compute? (← es.mapM (b.evaluateWithin limit n)) with
        | some v => return v
        | none => throw (.malformed f op.arity)
    else .ok (.error (.malformed f op.arity))

/-- The simplified operation, with the simplified operands pushed to a sequence of their own. -/
def simplifySequence (s : Sequence Expr) : Except Sequence.Error (Except EvalError Expr) := do
  match ← Expr.collect (b.simplifyOperand limit n) (← s.items .front) .empty with
  | .error err => return .error err
  | .ok t => return .ok (Expr.fold f (← t.items .front))

/-- An operation is evaluated through its sequence as through its list of operands. -/
theorem evaluateSequence_of_holds (h : s.Holds es) :
    b.evaluateSequence limit n f s = .ok (b.evaluateWithin limit (n + 1) (.operation f es)) := by
  rw [evaluateSequence, evaluateWithin, h.size_eq, h.items_eq]
  cases Operator.ofName? f with
  | none => rfl
  | some op =>
    dsimp only
    split <;> rfl

/-- An operation is simplified through its sequence as through its list of operands. -/
theorem simplifySequence_of_holds (h : s.Holds es) :
    b.simplifySequence limit n f s = .ok (b.simplifyWithin limit (n + 1) (.operation f es)) := by
  have hitems : s.items .front = .ok es := h.items_eq .front
  obtain ⟨err, hmap, hcollect⟩ | ⟨es', t, hmap, hcollect, ht⟩ :=
    Expr.collect_of_holds Sequence.holds_empty (b.simplifyOperand limit n) es
  · rw [simplifyWithin_operation, hmap]
    simp [simplifySequence, hitems, hcollect, bind, Except.bind, pure, Except.pure]
  · have hitems' : t.items .front = .ok es' := ht.items_eq .front
    rw [simplifyWithin_operation, hmap]
    simp [simplifySequence, hitems, hcollect, hitems', bind, Except.bind, pure, Except.pure]

end Bindings

/-- Operands that any history has made are the list of the same history. The operation with them has
that list of operands and the size of the sequence as its arity; it is evaluated and simplified through
the sequence as through the list; and it is compared with another operation by comparing the names and
the two sequences. -/
theorem operation_of_history (history : List (Sequence.Action Expr)) (f : String) :
    ∃ s es, History.run Sequence.Action.perform history .empty =
        ((History.run Sequence.Action.onList history []).1, s) ∧
      (History.run Sequence.Action.onList history []).2 = es ∧
      Expr.ofSequence f s = .ok (.operation f es) ∧
      (∀ name arity, (Expr.operation f es).operandsOf? name arity =
        if f = name ∧ s.size = arity then some es else none) ∧
      (∀ (b : Bindings) limit n,
        b.evaluateSequence limit n f s = .ok (b.evaluateWithin limit (n + 1) (.operation f es)) ∧
        b.simplifySequence limit n f s = .ok (b.simplifyWithin limit (n + 1) (.operation f es))) ∧
      ∀ (history' : List (Sequence.Action Expr)) g,
        let t := (History.run Sequence.Action.perform history' .empty).2
        let fs := (History.run Sequence.Action.onList history' []).2
        (s.equal t).map (f == g && ·) = .ok (Expr.operation f es == .operation g fs) := by
  obtain ⟨hanswers, h⟩ := Sequence.holds_empty.run history
  exact ⟨_, _, Prod.ext hanswers rfl, rfl, Expr.ofSequence_of_holds h f,
    Expr.operandsOf?_of_holds h f,
    fun b limit n => ⟨b.evaluateSequence_of_holds limit n f h, b.simplifySequence_of_holds limit n f h⟩,
    fun history' g => Expr.beq_of_holds h (Sequence.holds_empty.run history').2 f g⟩

end GraphCalc
