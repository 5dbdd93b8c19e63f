import GraphCalc.Proofs.Evaluation.Yields
import GraphCalc.Proofs.Store.Entries
import Mathlib.Data.Finset.Card
import Mathlib.Data.Finset.SDiff
import Mathlib.Logic.Relation

/-!
# Expressions without a result

Evaluating an expression asks for the values of others: a variable for that of its binding, an
operation for those of its operands up to the first that fails (`Bindings.Demands`). An expression
has a result unless this leads to a variable that leads back to itself (`yields_iff_not_circular`):
only finitely many names are bound, so a path that never ends passes one of them twice.

With that, `evaluate_eq_cut` describes `Bindings.evaluate` completely.
-/

namespace GraphCalc.Bindings

open Relation

/-- Evaluating the first expression needs the result of the second. -/
inductive Demands (b : Bindings) : Expr → Expr → Prop
  | binding : b.get? x = some e → Demands b (.var x) e
  | operand : Operator.ofName? f = some op → (es ++ e :: fs).length = op.arity →
      b.YieldsAll es (.ok vs) h → Demands b (.operation f (es ++ e :: fs)) e

/-- Evaluating the expression comes to a variable, and from there to the same variable again. -/
def Circular (b : Bindings) (e : Expr) : Prop :=
  ∃ x, ReflTransGen b.Demands e (.var x) ∧ TransGen b.Demands (.var x) (.var x)

variable {b : Bindings}

/-! ## Results of what is demanded -/

/-- Operands have a result together if each has one that comes after values only. -/
theorem yieldsAll_of_prefixes (es : List Expr)
    (hes : ∀ pre e fs vs h, es = pre ++ e :: fs → b.YieldsAll pre (.ok vs) h →
      ∃ r h, b.Yields e r h) : ∃ r h, b.YieldsAll es r h := by
  induction es with
  | nil => exact ⟨_, _, .nil⟩
  | cons e es ih =>
    obtain ⟨_ | v, h, he⟩ := hes [] e es [] 0 rfl .nil
    · exact ⟨_, h, .first he⟩
    · have htail : ∃ r h, b.YieldsAll es r h := by
        refine ih fun pre e' fs vs h' heq hpre => ?_
        exact hes (e :: pre) e' fs _ _ (congrArg (e :: ·) heq) (.cons he hpre)
      obtain ⟨_ | vs, h', htail⟩ := htail
      · exact ⟨_, _, .later he htail⟩
      · exact ⟨_, _, .cons he htail⟩

/-- An expression has a result if all that it demands have one. -/
theorem yields_of_demands {e : Expr} (h : ∀ e', b.Demands e e' → ∃ r h, b.Yields e' r h) :
    ∃ r h, b.Yields e r h := by
  cases e with
  | number v => exact ⟨_, _, .number⟩
  | var x =>
    cases hx : b.get? x with
    | none => exact ⟨_, _, .unbound hx⟩
    | some e =>
      obtain ⟨r, height, he⟩ := h e (.binding hx)
      exact ⟨r, _, .bound hx he⟩
  | operation f es =>
    cases hf : Operator.ofName? f with
    | none => exact ⟨_, _, .unknown hf⟩
    | some op =>
      by_cases hlen : es.length = op.arity
      · obtain ⟨_ | vs, height, hes⟩ := yieldsAll_of_prefixes es (b := b) (by
          rintro pre e fs vs height rfl hpre
          exact h e (.operand hf hlen hpre))
        · exact ⟨_, _, .failed hf hlen hes⟩
        · obtain ⟨v, hv⟩ := hes.exists_compute hlen
          exact ⟨_, _, .computed hf hlen hes hv⟩
      · exact ⟨_, _, .miscounted hf hlen⟩

/-- Operands with a result together have one each as far as they are looked at, at no greater
height. -/
theorem YieldsAll.yields_of_prefix {e : Expr} {fs : List Expr} : ∀ {pre vs h r h'},
    b.YieldsAll pre (.ok vs) h → b.YieldsAll (pre ++ e :: fs) r h' →
      ∃ r h, h ≤ h' ∧ b.Yields e r h := by
  intro pre
  induction pre with
  | nil =>
    intro _ _ _ _ _ hes
    cases hes with
    | first he => exact ⟨_, _, Nat.le_refl _, he⟩
    | later he | cons he => exact ⟨_, _, Nat.le_max_left .., he⟩
  | cons e₀ pre ih =>
    intro _ _ _ _ hpre hes
    cases hpre with
    | cons he hpre =>
    cases hes with
    | first he' => cases (he.det he').1
    | later _ htail | cons _ htail =>
      obtain ⟨r, h, hle, hy⟩ := ih hpre htail
      exact ⟨r, h, Nat.le_trans hle (Nat.le_max_right ..), hy⟩

/-- What an expression with a result demands has one at a lesser height. -/
theorem Yields.of_demands {e e' : Expr} (hy : b.Yields e r h) (hd : b.Demands e e') :
    ∃ r' h', h' < h ∧ b.Yields e' r' h' := by
  cases hd with
  | binding hx =>
    cases hy with
    | unbound hx' => cases hx.symm.trans hx'
    | bound hx' he =>
      cases hx.symm.trans hx'
      exact ⟨_, _, Nat.lt_succ_self _, he⟩
  | operand hf hlen hpre =>
    cases hy with
    | unknown hf' => cases hf.symm.trans hf'
    | miscounted hf' hlen' =>
      cases hf.symm.trans hf'
      exact absurd hlen hlen'
    | failed _ _ hes | computed _ _ hes _ =>
      obtain ⟨r, h, hle, he⟩ := hpre.yields_of_prefix hes
      exact ⟨r, h, Nat.lt_succ_of_le hle, he⟩

/-- So has all that it comes to. -/
theorem Yields.of_transGen {e e' : Expr} (hy : b.Yields e r h) (hd : TransGen b.Demands e e') :
    ∃ r' h', h' < h ∧ b.Yields e' r' h' := by
  induction hd with
  | single hd => exact hy.of_demands hd
  | tail _ hd ih =>
    obtain ⟨_, _, hlt, hy'⟩ := ih
    obtain ⟨r, h, hlt', hy''⟩ := hy'.of_demands hd
    exact ⟨r, h, hlt'.trans hlt, hy''⟩

/-- An expression with a result is not circular: the variable would have two heights. -/
theorem Yields.not_circular {e : Expr} (hy : b.Yields e r h) : ¬ b.Circular e := by
  rintro ⟨x, hto, hloop⟩
  have ⟨_, h₁, hx⟩ : ∃ r h, b.Yields (.var x) r h := by
    rcases reflTransGen_iff_eq_or_transGen.1 hto with rfl | hto
    · exact ⟨_, _, hy⟩
    · obtain ⟨r, h, -, hx⟩ := hy.of_transGen hto
      exact ⟨r, h, hx⟩
  obtain ⟨_, h₂, hlt, hx'⟩ := hx.of_transGen hloop
  exact Nat.ne_of_lt hlt (hx'.det hx).2

/-! ## A path that never ends -/

/-- The names in the slots. -/
def names (b : Bindings) : Finset String := ((b.slots.toList.filterMap id).map Prod.fst).toFinset

/-- A name that has a binding is among the names. -/
theorem mem_names {x : String} {e : Expr} (hx : b.get? x = some e) : x ∈ b.names := by
  obtain ⟨hit, hfind, -⟩ := Option.map_eq_some_iff.1 hx
  obtain ⟨hmem, hkey⟩ := Store.mem_of_scan hfind
  obtain rfl := beq_iff_eq.1 hkey
  simp only [names, List.mem_toFinset, List.mem_map, List.mem_filterMap]
  exact ⟨_, ⟨_, hmem, rfl⟩, rfl⟩

/-- An expression that is not circular has a result. `seen` are the variables on the way to it. The
way either comes to a variable not seen before, of which there are finitely many, or goes into an
operand. -/
theorem yields_of_not_circular {e₀ : Expr} (hc : ¬ b.Circular e₀) (seen : Finset String) (e : Expr)
    (hseen : ∀ x ∈ seen, ReflTransGen b.Demands e₀ (.var x) ∧ TransGen b.Demands (.var x) e)
    (he : ReflTransGen b.Demands e₀ e) : ∃ r h, b.Yields e r h := by
  refine yields_of_demands fun e' hd => ?_
  have hseen' : ∀ x ∈ seen,
      ReflTransGen b.Demands e₀ (.var x) ∧ TransGen b.Demands (.var x) e' :=
    fun x hx => ⟨(hseen x hx).1, (hseen x hx).2.tail hd⟩
  cases hd with
  | @binding x _ hx =>
    have hfresh : x ∉ seen := fun hmem => hc ⟨x, he, (hseen x hmem).2⟩
    have hname := mem_names hx
    refine yields_of_not_circular hc (insert x seen) e' ?_ (he.tail (.binding hx))
    intro y hy
    rcases Finset.mem_insert.1 hy with rfl | hy
    · exact ⟨he, .single (.binding hx)⟩
    · exact hseen' y hy
  | @operand f op es _ fs vs h hf hlen hpre =>
    have hsize : sizeOf e' < sizeOf (Expr.operation f (es ++ e' :: fs)) := by
      have hmem : e' ∈ es ++ e' :: fs := List.mem_append_right es List.mem_cons_self
      exact (List.sizeOf_lt_of_mem hmem).trans_le (by simp)
    exact yields_of_not_circular hc seen e' hseen' (he.tail (.operand hf hlen hpre))
termination_by ((b.names \ seen).card, sizeOf e)
decreasing_by
  · left
    rw [Finset.sdiff_insert]
    exact Finset.card_erase_lt_of_mem (Finset.mem_sdiff.2 ⟨hname, hfresh⟩)
  · right
    subst_vars
    exact hsize

/-- An expression has a result if and only if it is not circular. -/
theorem yields_iff_not_circular (b : Bindings) (e : Expr) :
    (∃ r h, b.Yields e r h) ↔ ¬ b.Circular e := by
  refine ⟨fun ⟨_, _, hy⟩ => hy.not_circular, fun hc => ?_⟩
  exact yields_of_not_circular hc ∅ e (fun _ hx => absurd hx (Finset.notMem_empty _)) .refl

/-! ## Evaluation within a limit -/

/-- Evaluation within a limit is the unlimited semantics, cut at the limit: a result is seen at the
limits from its height on, and below them, as well as where there is none, the limit is exceeded.
There is none just where the bindings lead back to themselves. -/
theorem evaluate_eq_cut (b : Bindings) (e : Expr) (d : Nat) :
    (∀ r h, b.Yields e r h →
      (h ≤ d → b.evaluate d e = r) ∧ (d < h → b.evaluate d e = .error (.tooDeep d))) ∧
    ((∀ r h, ¬ b.Yields e r h) → b.evaluate d e = .error (.tooDeep d)) ∧
    ((∀ r h, ¬ b.Yields e r h) ↔ b.Circular e) := by
  refine ⟨fun r h hy => ⟨fun hle => ?_, fun hlt => ?_⟩, fun hn => evaluate_of_not_yields hn d, ?_⟩
  · rw [hy.evaluate_eq d, if_pos hle]
  · rw [hy.evaluate_eq d, if_neg (Nat.not_le_of_lt hlt)]
  · rw [← not_iff_not, ← yields_iff_not_circular]
    push Not
    rfl

/-- A variable bound to its own successor is too deep, whatever the limit. -/
theorem evaluate_successor_of_itself :
    let b : Bindings :=
      (Store.withCapacity 1).put "x" (.operation "+" [.var "x", .number 1.0])
    b.Circular (.var "x") ∧ b.evaluate 1000 (.var "x") = .error (.tooDeep 1000) := by
  intro b
  have hx : b.get? "x" = some (.operation "+" ([] ++ .var "x" :: [.number 1.0])) := by rfl
  have hadd : Operator.ofName? "+" = some .add := by decide
  have hc : b.Circular (.var "x") :=
    ⟨"x", .refl, .tail (.single (.binding hx)) (.operand hadd rfl .nil)⟩
  have ⟨_, hcut, hiff⟩ := evaluate_eq_cut b (.var "x") 1000
  exact ⟨hc, hcut (hiff.2 hc)⟩

end GraphCalc.Bindings
