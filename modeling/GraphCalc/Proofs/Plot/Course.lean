import GraphCalc.Plot.Run
import GraphCalc.Proofs.Evaluation.Agree

/-!
# The course of a sweep

A sweep takes samples at the positions of its range, one after the other, until one of three things
happens at some index: the position is not within the maximum, no further sample is allowed, or the
sample has no value. `Plan.Sampled` describes the samples before that index and `Plan.Ended` how the
sweep ends there. `ended_of_sweep` says that every sweep that ends does so in this way.

What a sweep has done by then is described by `Plan.Reached`: the bindings have the entries from
before the sweep, followed by one for the variable with the last position, if there is one.
-/

namespace GraphCalc

/-- The positions of a range: the step is added again and again, or multiplied by the index. -/
def Range.Positions (r : Range) (p : Nat → Float) : Stepping → Prop
  | .accumulate => p 0 = r.min ∧ ∀ k, p (k + 1) = p k + r.step
  | .indexed => ∀ k, p k = r.min + Float.ofNat k * r.step

/-- The positions of a sweep are those of its stepping. -/
theorem Range.positions_position (r : Range) (s : Stepping) : r.Positions (r.position s) s := by
  cases s with
  | accumulate => exact ⟨rfl, fun _ => rfl⟩
  | indexed =>
    intro k
    cases k <;> rfl

/-- Whether a further sample may follow so many. -/
def PlotOptions.Allows (o : PlotOptions) (taken : Nat) : Prop :=
  ∀ limit, o.maxSamples = some limit → taken < limit

namespace Plan

/-- The position of an index. -/
def position (plan : Plan) (o : PlotOptions) (k : Nat) : Float :=
  plan.range.position o.stepping k

/-- The bindings with the variable bound to the position of an index. -/
def bindingsAt (plan : Plan) (o : PlotOptions) (b : Bindings) (k : Nat) : Bindings :=
  b.put plan.name (.number (plan.position o k))

/-- The positions of the first indices. -/
def positions (plan : Plan) (o : PlotOptions) (n : Nat) : Array Float :=
  ((List.range n).map (plan.position o)).toArray

/-- The entries of the bindings once so many positions have been bound: the variable has the last of
them, after everything else. -/
def entriesAfter (plan : Plan) (o : PlotOptions) (b : Bindings) : Nat → List (String × Expr)
  | 0 => b.entries
  | m + 1 => b.entries ++ [(plan.name, .number (plan.position o m))]

/-- The samples of the first indices can be taken, and have these values. -/
structure Sampled (plan : Plan) (o : PlotOptions) (b : Bindings) (n : Nat) (ys : Array Float) :
    Prop where
  within : ∀ k < n, plan.position o k ≤ plan.range.max
  allowed : ∀ k < n, o.Allows k
  size_eq : ys.size = n
  values : ∀ k (hk : k < ys.size),
    (plan.bindingsAt o b k).evaluate o.maxDepth plan.expr = .ok ys[k]

/-- Why a sweep breaks off at an index, and how many positions have been bound by then. The cap is
looked at before the position is bound, the value after that. -/
inductive Breaks (plan : Plan) (o : PlotOptions) (b : Bindings) (n : Nat) : EvalError → Nat → Prop
  | capped : plan.position o n ≤ plan.range.max → o.maxSamples = some limit → limit ≤ n →
      Breaks plan o b n (.tooManySamples limit) n
  | failed : plan.position o n ≤ plan.range.max → o.Allows n →
      (plan.bindingsAt o b n).evaluate o.maxDepth plan.expr = .error err →
      Breaks plan o b n err (n + 1)

/-- What a sweep has done once so many positions have been bound. -/
structure Reached (plan : Plan) (o : PlotOptions) (b : Bindings) (m : Nat) (ys : Array Float)
    (st : Sweep.Progress) : Prop where
  compact : st.bindings.Compact
  entries_eq : st.bindings.entries = plan.entriesAfter o b m
  xs_eq : st.xs = plan.positions o m
  ys_eq : st.ys = ys

/-- How a sweep ends. -/
inductive Ended (plan : Plan) (o : PlotOptions) (b : Bindings) :
    Except EvalError Unit → Sweep.Progress → Prop
  | passed : plan.Sampled o b n ys → ¬ plan.position o n ≤ plan.range.max →
      plan.Reached o b n ys st → Ended plan o b (.ok ()) st
  | broken : plan.Sampled o b n ys → plan.Breaks o b n err m → plan.Reached o b m ys st →
      Ended plan o b (.error err) st

variable {plan : Plan} {o : PlotOptions} {b : Bindings} {n : Nat} {ys : Array Float}
  {st : Sweep.Progress}

/-! ## One sample -/

/-- If no cap is exceeded, a further sample is allowed. -/
theorem exceeded?_eq_none (h : Sweep.exceeded? o n = none) : o.Allows n := by
  intro limit hlimit
  simpa [Sweep.exceeded?, hlimit, Option.filter] using h

/-- An exceeded cap is that of the options, and is reached. -/
theorem exceeded?_eq_some {limit : Nat} (h : Sweep.exceeded? o n = some limit) :
    o.maxSamples = some limit ∧ limit ≤ n := by
  simpa [Sweep.exceeded?, Option.filter_eq_some_iff] using h

/-- There are as many positions as indices. -/
theorem size_positions (plan : Plan) (o : PlotOptions) (n : Nat) :
    (plan.positions o n).size = n := by
  simp [positions]

/-- One index more adds its position at the end. -/
theorem positions_succ (plan : Plan) (o : PlotOptions) (n : Nat) :
    plan.positions o (n + 1) = (plan.positions o n).push (plan.position o n) := by
  simp [positions, List.range_succ]

/-- Binding the next position replaces the entry of the position before, if there is one. -/
theorem put_entriesAfter (hx : Entries.lookup b.entries plan.name = none) (m : Nat) :
    Entries.put (plan.entriesAfter o b m) plan.name (.number (plan.position o m)) =
      plan.entriesAfter o b (m + 1) := by
  cases m with
  | zero => exact Entries.put_of_absent hx _
  | succ m => exact Entries.put_last hx _ _

/-- The bindings in which a sample is evaluated are, for evaluation, those from before the sweep with
the variable bound to its position. -/
theorem Reached.evaluate_put (hb : b.Compact) (hx : Entries.lookup b.entries plan.name = none)
    (hst : plan.Reached o b n ys st) (d : Nat) (e : Expr) :
    Bindings.evaluate (st.bindings.put plan.name (.number (plan.position o n))) d e =
      (plan.bindingsAt o b n).evaluate d e := by
  obtain ⟨hentries, hc⟩ := hst.compact.put plan.name (.number (plan.position o n))
  obtain ⟨hentries', hc'⟩ := hb.put plan.name (.number (plan.position o n))
  refine Bindings.evaluate_congr hc hc' ?_ d e
  rw [hentries, hentries', hst.entries_eq, put_entriesAfter hx, Entries.put_of_absent hx]
  rfl

/-- Binding the next position and noting it. -/
theorem Reached.bind (hx : Entries.lookup b.entries plan.name = none)
    (hst : plan.Reached o b n ys st) :
    plan.Reached o b (n + 1) ys ⟨st.bindings.put plan.name (.number (plan.position o n)),
      st.xs.push (plan.position o n), st.ys⟩ := by
  obtain ⟨hentries, hc⟩ := hst.compact.put plan.name (.number (plan.position o n))
  refine ⟨hc, ?_, ?_, hst.ys_eq⟩
  · rw [hentries, hst.entries_eq, put_entriesAfter hx]
  · rw [hst.xs_eq, positions_succ]

/-- What becomes of a sample: it is not allowed, or its position is bound and it has no value, or it
has one. -/
inductive Taken (plan : Plan) (o : PlotOptions) (b : Bindings) (n : Nat) (ys : Array Float)
    (st : Sweep.Progress) : Except EvalError Unit → Sweep.Progress → Prop
  | capped : o.maxSamples = some limit → limit ≤ n →
      Taken plan o b n ys st (.error (.tooManySamples limit)) st
  | failed : o.Allows n → (plan.bindingsAt o b n).evaluate o.maxDepth plan.expr = .error err →
      plan.Reached o b (n + 1) ys st' → Taken plan o b n ys st (.error err) st'
  | taken : o.Allows n → (plan.bindingsAt o b n).evaluate o.maxDepth plan.expr = .ok y →
      plan.Reached o b (n + 1) (ys.push y) st' → Taken plan o b n ys st (.ok ()) st'

/-- A sample at the next index goes one of these ways. The bindings are compact at each index, so that
the value does not depend on how they came about. -/
theorem Reached.taken (hb : b.Compact) (hx : Entries.lookup b.entries plan.name = none)
    (hst : plan.Reached o b n ys st) {res : Except EvalError Unit} {st' : Sweep.Progress}
    (h : Sweep.sample o plan.expr plan.name (plan.position o n) st = (res, st')) :
    plan.Taken o b n ys st res st' := by
  have hsize : st.xs.size = n := by rw [hst.xs_eq, size_positions]
  have hbind := hst.bind hx
  simp only [Sweep.sample, hsize, hst.evaluate_put hb hx] at h
  split at h
  · next limit hcap =>
    cases h
    obtain ⟨hlimit, hle⟩ := exceeded?_eq_some hcap
    exact .capped hlimit hle
  · next hcap =>
    have hallowed := exceeded?_eq_none hcap
    split at h
    · next err herr =>
      cases h
      exact .failed hallowed herr hbind
    · next y hy =>
      cases h
      exact .taken hallowed hy ⟨hbind.compact, hbind.entries_eq, hbind.xs_eq, by rw [hst.ys_eq]⟩

/-! ## The samples of a sweep -/

/-- Before the first sample nothing is required. -/
theorem Sampled.zero : plan.Sampled o b 0 #[] :=
  ⟨fun _ hk => absurd hk (Nat.not_lt_zero _), fun _ hk => absurd hk (Nat.not_lt_zero _), rfl,
    fun _ hk => absurd hk (Nat.not_lt_zero _)⟩

/-- One more sample. -/
theorem Sampled.push {y : Float} (hs : plan.Sampled o b n ys)
    (hwithin : plan.position o n ≤ plan.range.max) (hallowed : o.Allows n)
    (hy : (plan.bindingsAt o b n).evaluate o.maxDepth plan.expr = .ok y) :
    plan.Sampled o b (n + 1) (ys.push y) := by
  refine ⟨fun k hk => ?_, fun k hk => ?_, by rw [Array.size_push, hs.size_eq], fun k hk => ?_⟩
  · rcases Nat.lt_succ_iff_lt_or_eq.1 hk with hk | rfl
    · exact hs.within k hk
    · exact hwithin
  · rcases Nat.lt_succ_iff_lt_or_eq.1 hk with hk | rfl
    · exact hs.allowed k hk
    · exact hallowed
  · rw [Array.getElem_push]
    split
    · next hk => exact hs.values k hk
    · next hge =>
      have hkn : k = n := by
        rw [Array.size_push] at hk
        have := hs.size_eq
        omega
      rw [hkn, hy]

/-- A sweep that goes on after some samples ends as described. -/
theorem ended_of_sweep_from (hb : b.Compact) (hx : Entries.lookup b.entries plan.name = none) :
    ∀ fuel {n ys st res st'}, plan.Sampled o b n ys → plan.Reached o b n ys st →
      Sweep.sweep o plan.expr plan.name plan.range fuel n (plan.position o n) st = some (res, st') →
      plan.Ended o b res st' := by
  intro fuel
  induction fuel with
  | zero => intro _ _ _ _ _ _ _ h; cases h
  | succ fuel ih =>
    intro n ys st res st' hs hst h
    simp only [Sweep.sweep] at h
    split at h
    · next hwithin =>
      split at h
      · next err st₁ hsample =>
        cases h
        cases hst.taken hb hx hsample with
        | capped hlimit hle => exact .broken hs (.capped hwithin hlimit hle) hst
        | failed hallowed herr hst₁ => exact .broken hs (.failed hwithin hallowed herr) hst₁
      · next st₁ hsample =>
        cases hst.taken hb hx hsample with
        | taken hallowed hy hst₁ => exact ih (hs.push hwithin hallowed hy) hst₁ h
    · next hpassed =>
      cases h
      exact .passed hs hpassed hst

/-- A sweep that ends, ends as described. -/
theorem ended_of_sweep {fuel : Nat} {res : Except EvalError Unit} {st : Sweep.Progress}
    (hb : b.Compact) (hx : Entries.lookup b.entries plan.name = none)
    (h : plan.sweep o fuel b = some (res, st)) : plan.Ended o b res st :=
  ended_of_sweep_from hb hx fuel .zero ⟨hb, rfl, rfl, rfl⟩ h

end Plan

end GraphCalc
