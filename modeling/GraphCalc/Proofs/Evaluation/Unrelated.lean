import GraphCalc.Proofs.Evaluation.Agree
import GraphCalc.Proofs.Store.History

/-!
# Names that do not matter

What an expression comes to depends on the names that it reaches. A store gives a name what the last
action for it has put, so actions for other names may come in anywhere in a session, whatever slots
they move: `results_of_reaches`.
-/

namespace GraphCalc.Bindings

variable {x : String}

/-- Actions for names that are not reached do not change what a reached name gives. -/
theorem get?_of_inserted {history history' : List (Store.Action String Expr)} (c c' : Nat)
    {p : String → Prop} (h : History.Inserted (fun a => ¬ p a.key) history history') (hx : p x) :
    (Store.after c history).get? x = (Store.after c' history').get? x := by
  have hother : History.Inserted (fun a => (a.key == x) = false) history history' := by
    refine h.imp fun a hkey => ?_
    rw [beq_eq_false_iff_ne]
    rintro rfl
    exact hkey hx
  rw [Store.get?_after, Store.get?_after, Store.lastFor?_of_inserted hother]

/-- The result of an expression depends on the names that it reaches and on nothing else. Bindings that
agree on them evaluate and simplify it alike, failures included, whatever else is bound and in which
slots. So a session may put and remove other names at any time. -/
theorem results_of_reaches :
    (∀ (b b' : Bindings) (e : Expr) (d : Nat), (∀ x, b.Reaches e x → b.get? x = b'.get? x) →
      b.evaluate d e = b'.evaluate d e ∧ b.simplify d e = b'.simplify d e) ∧
    ∀ (c c' : Nat) (history history' : List (Store.Action String Expr)) (e : Expr) (d : Nat),
      let b : Bindings := Store.after c history
      let b' : Bindings := Store.after c' history'
      History.Inserted (fun a => ¬ b.Reaches e a.key) history history' →
        b.evaluate d e = b'.evaluate d e ∧ b.simplify d e = b'.simplify d e := by
  have hagree (b b' : Bindings) (e : Expr) (d : Nat)
      (h : ∀ x, b.Reaches e x → b.get? x = b'.get? x) :
      b.evaluate d e = b'.evaluate d e ∧ b.simplify d e = b'.simplify d e :=
    ⟨evaluateWithin_of_reaches d (d + 1) e h, simplifyWithin_of_reaches d (d + 1) e h⟩
  refine ⟨hagree, ?_⟩
  intro c c' history history' e d b b' hinserted
  exact hagree b b' e d fun x hx => get?_of_inserted c c' hinserted hx

/-- `negate(x)` with `x` bound to `y + 1` and `y` to 2. Another name is put before them and removed in
between, which moves `x`, and one that is bound to its own successor is put. That name fares, within
every limit, as if it were the only one. -/
theorem results_of_reaches_moved_entry :
    let sum : String → Expr := fun x => .operation "+" [.var x, .number 1.0]
    let history : List (Store.Action String Expr) := [.put "x" (sum "y"), .put "y" (.number 2.0)]
    let history' : List (Store.Action String Expr) :=
      [.put "z" (.number 0.0), .put "x" (sum "y"), .remove "z", .put "w" (sum "w"),
        .put "y" (.number 2.0)]
    let b : Bindings := Store.after 2 history
    let b' : Bindings := Store.after 1 history'
    let e : Expr := .operation "negate" [.var "x"]
    let alone : Bindings := Store.after 1 [.put "w" (sum "w")]
    (b.evaluate 4 e = .ok (-3.0) ∧ b'.evaluate 4 e = .ok (-3.0)) ∧
      ∀ d, b'.evaluate d (.var "w") = alone.evaluate d (.var "w") := by
  intro sum history history' b b' e alone
  have ⟨hagree, hsession⟩ := results_of_reaches
  have hx : b.get? "x" = some (sum "y") := Store.get?_after ..
  have hy : b.get? "y" = some (.number 2.0) := Store.get?_after ..
  have hw : b'.get? "w" = some (sum "w") := Store.get?_after ..
  have hreach : ∀ n, b.Reaches e n → n = "x" ∨ n = "y" := by
    intro n h
    induction h with
    | occurs h => exact .inl (by simpa [e] using h)
    | binding _ hbound hin ih =>
      rcases ih with rfl | rfl
      · cases hbound.symm.trans hx
        exact .inr (by simpa [sum] using hin)
      · cases hbound.symm.trans hy
        simp at hin
  have hreach' : ∀ n, b'.Reaches (.var "w") n → n = "w" := by
    intro n h
    induction h with
    | occurs h => simpa using h
    | binding _ hbound hin ih =>
      rw [ih] at hbound
      cases hbound.symm.trans hw
      simpa [sum] using hin
  have hz : ¬ b.Reaches e "z" := fun h => absurd (hreach "z" h) (by decide)
  have hw' : ¬ b.Reaches e "w" := fun h => absurd (hreach "w" h) (by decide)
  have hinserted : History.Inserted (fun a => ¬ b.Reaches e a.key) history history' :=
    .insert hz (.keep (.insert hz (.insert hw' (.keep .nil))))
  have hvalue : b.evaluate 4 e = .ok (-3.0) := by rfl
  refine ⟨⟨hvalue, ?_⟩, fun d => (hagree b' alone (.var "w") d ?_).1⟩
  · rw [← (hsession 2 1 history history' e 4 hinserted).1, hvalue]
  · intro n hn
    rw [hreach' n hn, hw]
    rfl

end GraphCalc.Bindings
