import GraphCalc.Evaluation

/-!
# The unfolding of an expression

Under bindings an expression unfolds to a tree: below an operation stand its operands, and below a
bound variable stands its binding. `Bindings.Unfolds` lists the positions of this tree with their
depths. Where bindings lead back to themselves the tree has no end, and from each position of such a
variable there is one below (`Unfolds.exists_deeper`).

`Expr.Contains` is about the expression alone: what stands in it before any binding is looked at.
-/

namespace GraphCalc

/-- The second expression stands somewhere in the first, which may be the first itself. -/
inductive Expr.Contains : Expr → Expr → Prop
  | self : Contains e e
  | operand : c ∈ es → Contains c t → Contains (.operation f es) t

namespace Expr

/-- A number contains no variable. -/
@[simp]
theorem not_number_contains_var (v : Float) (x : String) : ¬ (number v).Contains (var x) := by
  intro h
  cases h

/-- A variable contains itself only. -/
@[simp]
theorem var_contains_var {x y : String} : (var y).Contains (var x) ↔ x = y := by
  constructor
  · intro h
    cases h
    rfl
  · rintro rfl
    exact .self

/-- A variable stands in an operation if it stands in an operand. -/
@[simp]
theorem operation_contains_var {f : String} {es : List Expr} {x : String} :
    (operation f es).Contains (var x) ↔ ∃ c ∈ es, c.Contains (var x) := by
  constructor
  · intro h
    cases h with
    | operand hmem hc => exact ⟨_, hmem, hc⟩
  · rintro ⟨c, hmem, hc⟩
    exact .operand hmem hc

end Expr

namespace Bindings

/-- As what an expression stands at a position. -/
inductive Role where
  | root
  | operand
  | binding

/-- The positions of the unfolding of an expression: the depth, the role, and the expression there.
All operands are positions, also those of an operation that has no value. -/
inductive Unfolds (b : Bindings) (e : Expr) : Nat → Role → Expr → Prop
  | root : Unfolds b e 0 .root e
  | operand : Unfolds b e k role (.operation f es) → c ∈ es → Unfolds b e (k + 1) .operand c
  | binding : Unfolds b e k role (.var x) → b.get? x = some c → Unfolds b e (k + 1) .binding c

variable {b : Bindings} {e t c : Expr} {role role' : Role} {k j : Nat}

/-- What is below a position is that much deeper. -/
theorem Unfolds.trans (ht : b.Unfolds e k role t) (hc : b.Unfolds t j role' c) :
    ∃ role'', b.Unfolds e (k + j) role'' c := by
  induction hc with
  | root => exact ⟨role, ht⟩
  | operand _ hmem ih =>
    obtain ⟨_, h⟩ := ih
    exact ⟨_, .operand h hmem⟩
  | binding _ hx ih =>
    obtain ⟨_, h⟩ := ih
    exact ⟨_, .binding h hx⟩

/-- A variable that stands below itself stands at any depth, or deeper. -/
theorem Unfolds.exists_deeper {x : String} (hx : b.Unfolds e k role (.var x))
    (hloop : b.Unfolds (.var x) (j + 1) role' (.var x)) (n : Nat) :
    ∃ m role, n ≤ m ∧ b.Unfolds e m role (.var x) := by
  induction n with
  | zero => exact ⟨k, role, Nat.zero_le k, hx⟩
  | succ n ih =>
    obtain ⟨m, _, hle, hm⟩ := ih
    obtain ⟨_, hm'⟩ := hm.trans hloop
    exact ⟨m + (j + 1), _, by omega, hm'⟩

end Bindings

end GraphCalc
