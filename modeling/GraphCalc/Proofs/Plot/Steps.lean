import GraphCalc.Proofs.Plot.Fuel

/-!
# Sweeps, sample by sample

`Plan.Advances` says how far a sweep has got after so many samples, also where it never ends. Fuel runs
out just if the sweep gets as far as it lasts (`sweep_eq_none_iff`), and a sweep gets no further than an
index at which no sample can be taken (`isSome_sweep_of_stops`).

Two sweeps that find the same position and take the same sample at each of the first indices go through
the same states (`advances_congr`), and end alike if they end there (`sweep_congr`). If one of these
indices stops them, they are the same altogether (`sweep_eq_of_stops`).
-/

namespace GraphCalc.Plan

/-- How far a sweep has got after so many samples. -/
inductive Advances (plan : Plan) (o : PlotOptions) (b : Bindings) : Nat → Sweep.Progress → Prop
  | start : Advances plan o b 0 ⟨b, #[], #[]⟩
  | sample : Advances plan o b n st → plan.position o n ≤ plan.range.max →
      Sweep.sample o plan.expr plan.name (plan.position o n) st = (.ok (), st') →
      Advances plan o b (n + 1) st'

/-- No sample is taken at an index: its position is not within the maximum, the cap is reached, or the
expression has no value there. -/
def Stops (plan : Plan) (o : PlotOptions) (b : Bindings) (k : Nat) : Prop :=
  ¬ plan.position o k ≤ plan.range.max ∨ ¬ o.Allows k ∨
    ∃ err, (plan.bindingsAt o b k).evaluate o.maxDepth plan.expr = .error err

variable {plan plan' : Plan} {o o' : PlotOptions} {b : Bindings} {n m k fuel : Nat}
  {st : Sweep.Progress}

/-! ## Samples and fuel -/

/-- With fuel for more positions a sweep goes on from where it has got. -/
theorem Advances.sweep_eq (h : plan.Advances o b n st) (fuel : Nat) :
    plan.sweep o (n + fuel) b =
      Sweep.sweep o plan.expr plan.name plan.range fuel n (plan.position o n) st := by
  induction h generalizing fuel with
  | start =>
    rw [Nat.zero_add]
    rfl
  | sample _ hwithin hsample ih =>
    rw [Nat.add_assoc, Nat.add_comm 1 fuel, ih (fuel + 1)]
    simp only [Sweep.sweep, if_pos hwithin, hsample]
    rfl

/-- With more fuel a sweep that ends gives the same. -/
theorem sweep_of_le {res : Except EvalError Unit × Sweep.Progress}
    (h : plan.sweep o n b = some res) (hle : n ≤ m) : plan.sweep o m b = some res :=
  Sweep.sweep_of_le h hle

/-- The fuel of a sweep runs out just if a sample is taken for each unit of it. -/
theorem sweep_eq_none_iff : plan.sweep o n b = none ↔ ∃ st, plan.Advances o b n st := by
  constructor
  · induction n with
    | zero => exact fun _ => ⟨_, .start⟩
    | succ n ih =>
      intro h
      have hn : plan.sweep o n b = none := by
        rw [Option.eq_none_iff_forall_ne_some]
        intro res hres
        cases h.symm.trans (sweep_of_le hres (Nat.le_succ n))
      obtain ⟨st, hst⟩ := ih hn
      rw [hst.sweep_eq 1, Sweep.sweep] at h
      split at h
      · next hwithin =>
        split at h
        · cases h
        · next st' hsample => exact ⟨st', .sample hst hwithin hsample⟩
      · cases h
  · rintro ⟨st, hst⟩
    exact hst.sweep_eq 0

/-- What a sweep has done after so many samples. -/
theorem Advances.reached (hb : b.Compact) (hx : Entries.lookup b.entries plan.name = none)
    (h : plan.Advances o b n st) : ∃ ys, plan.Sampled o b n ys ∧ plan.Reached o b n ys st := by
  induction h with
  | start => exact ⟨#[], .zero, hb, rfl, rfl, rfl⟩
  | sample _ hwithin hsample ih =>
    obtain ⟨ys, hs, hst⟩ := ih
    cases hst.taken hb hx hsample with
    | taken hallowed hy hst' => exact ⟨_, hs.push hwithin hallowed hy, hst'⟩

/-- A sweep does not stop at an index that it has sampled. -/
theorem Sampled.not_stops {ys : Array Float} (hs : plan.Sampled o b n ys) (hk : k < n) :
    ¬ plan.Stops o b k := by
  rintro (hpassed | hcapped | ⟨err, herr⟩)
  · exact hpassed (hs.within k hk)
  · exact hcapped (hs.allowed k hk)
  · cases herr.symm.trans (hs.values k (by rwa [hs.size_eq]))

/-- A sweep does not get beyond an index where no sample is taken. -/
theorem isSome_sweep_of_stops (hb : b.Compact) (hx : Entries.lookup b.entries plan.name = none)
    (h : plan.Stops o b k) (hlt : k < fuel) : (plan.sweep o fuel b).isSome := by
  rw [Option.isSome_iff_ne_none]
  intro hnone
  obtain ⟨st, hst⟩ := sweep_eq_none_iff.1 hnone
  obtain ⟨ys, hs, -⟩ := hst.reached hb hx
  exact hs.not_stops hlt h

/-! ## Sweeps that do the same -/

/-- At an index the second sweep finds the position that the first one finds, and does with it what the
first one does. -/
structure Matches (plan plan' : Plan) (o o' : PlotOptions) (b : Bindings) (k : Nat) : Prop where
  position_eq : plan'.position o' k = plan.position o k
  max_eq : plan'.range.max = plan.range.max
  sample_eq : ∀ st, plan.Advances o b k st → plan.position o k ≤ plan.range.max →
    Sweep.sample o' plan'.expr plan'.name (plan.position o k) st =
      Sweep.sample o plan.expr plan.name (plan.position o k) st

/-- One more sample in a sweep is one more in a sweep that does the same. -/
theorem Advances.succ_iff (h : plan.Matches plan' o o' b n)
    (ih : ∀ st, plan'.Advances o' b n st ↔ plan.Advances o b n st) (st : Sweep.Progress) :
    plan'.Advances o' b (n + 1) st ↔ plan.Advances o b (n + 1) st := by
  constructor
  · intro hst
    cases hst with
    | sample hst hwithin hsample =>
      rw [h.position_eq] at hwithin hsample
      rw [h.max_eq] at hwithin
      have hst := (ih _).1 hst
      exact .sample hst hwithin (by rwa [← h.sample_eq _ hst hwithin])
  · intro hst
    cases hst with
    | sample hst hwithin hsample =>
      have hsample' := (h.sample_eq _ hst hwithin).trans hsample
      rw [← h.position_eq] at hwithin hsample'
      rw [← h.max_eq] at hwithin
      exact .sample ((ih _).2 hst) hwithin hsample'

/-- Sweeps that do the same at the first indices go through the same states there. -/
theorem advances_congr (h : ∀ k < m, plan.Matches plan' o o' b k) : ∀ n ≤ m, ∀ st,
    plan'.Advances o' b n st ↔ plan.Advances o b n st := by
  intro n
  induction n with
  | zero =>
    intro _ st
    constructor
    all_goals
      intro hst
      cases hst
      exact .start
  | succ n ih => exact fun hle => Advances.succ_iff (h n hle) (ih (Nat.le_of_succ_le hle))

/-- With fuel for no more than these indices they give the same. -/
theorem sweep_congr (h : ∀ k < m, plan.Matches plan' o o' b k) : ∀ fuel ≤ m,
    plan'.sweep o' fuel b = plan.sweep o fuel b := by
  intro fuel
  induction fuel with
  | zero => intro _; rfl
  | succ fuel ih =>
    intro hle
    have hlt : fuel ≤ m := Nat.le_of_succ_le hle
    cases hs : plan.sweep o fuel b with
    | some res =>
      have hs' := (ih hlt).trans hs
      rw [sweep_of_le hs (Nat.le_succ fuel), sweep_of_le hs' (Nat.le_succ fuel)]
    | none =>
      obtain ⟨st, hst⟩ := sweep_eq_none_iff.1 hs
      have hst' := (advances_congr h fuel hlt st).2 hst
      have hmatch := h fuel hle
      rw [hst.sweep_eq 1, hst'.sweep_eq 1]
      simp only [Sweep.sweep, hmatch.position_eq, hmatch.max_eq]
      split
      · next hwithin => rw [hmatch.sample_eq st hst hwithin]
      · rfl

/-- Sweeps that do the same at each index up to the first that stops one of them give the same with any
fuel. -/
theorem sweep_eq_of_matches (hb : b.Compact) (hx : Entries.lookup b.entries plan.name = none)
    (h : ∀ k, (∀ j < k, ¬ plan.Stops o b j) → plan.Matches plan' o o' b k) (fuel : Nat) :
    plan'.sweep o' fuel b = plan.sweep o fuel b := by
  induction fuel with
  | zero => rfl
  | succ fuel ih =>
    cases hs : plan.sweep o fuel b with
    | some res =>
      rw [sweep_of_le hs (Nat.le_succ fuel), sweep_of_le (ih.trans hs) (Nat.le_succ fuel)]
    | none =>
      -- As many samples as there is fuel have been taken, so that nothing has stopped the sweep.
      obtain ⟨st, hst⟩ := sweep_eq_none_iff.1 hs
      obtain ⟨ys, htaken, -⟩ := hst.reached hb hx
      have hmatch : ∀ k < fuel + 1, plan.Matches plan' o o' b k := fun k hk =>
        h k fun j hj => htaken.not_stops (Nat.lt_of_lt_of_le hj (Nat.le_of_lt_succ hk))
      exact sweep_congr hmatch (fuel + 1) (Nat.le_refl _)

/-- It is enough that they do the same up to an index where no sample is taken. -/
theorem sweep_eq_of_stops (hb : b.Compact) (hx : Entries.lookup b.entries plan.name = none)
    (h : ∀ k ≤ n, plan.Matches plan' o o' b k) (hstops : plan.Stops o b n) (fuel : Nat) :
    plan'.sweep o' fuel b = plan.sweep o fuel b :=
  sweep_eq_of_matches hb hx
    (fun k hk => h k (Nat.le_of_not_lt fun hlt => hk n hlt hstops)) fuel

/-! ## What follows a sweep -/

/-- What follows a sweep: it is abandoned or completed. -/
def conclude (plan : Plan) (o : PlotOptions) (draw : Renderer σ) (s : σ) :
    Except EvalError Unit × Sweep.Progress → Report σ
  | (.error err, st) => plan.abandon o s st err
  | (.ok (), st) => plan.complete o draw s st

/-- A run that reaches its sweep depends on the fuel for the sweep only. -/
theorem run_eq {node : Expr} (h : ofExpr o b node = .ok plan) (draw : Renderer σ) (fuel : Nat)
    (s : σ) : o.run draw fuel b s node = (plan.sweep o fuel b).map (plan.conclude o draw s) := by
  rw [PlotOptions.run, h]
  rfl

end GraphCalc.Plan
