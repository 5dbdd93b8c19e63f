import GraphCalc.Proofs.Plot.Outcome
import GraphCalc.Proofs.Plot.Steps

/-!
# What the log says of the variable

Of what a run tells, only what follows the sweep is about the binding of the variable
(`Plan.exists_log_eq`), and that is one event at most, which depends on how the sweep has ended
(`Plan.Told`). `log_of_run` compares it with the bindings.

That the variable was unbound is told only if there was a binding to take out. That it is left bound is
told whenever a sweep breaks off, also if no position has been bound by then. This is so if no sample is
allowed at all (`Plan.Breaks.eq_zero_iff`), and in that case what is told is wrong.
-/

namespace GraphCalc

/-- Whether an event tells what has become of the binding of a variable. -/
def Event.tellsBinding : Event → Bool
  | unboundAfterFailure .. | leftBound .. | unbound .. => true
  | _ => false

namespace Plan

/-- The bindings after a sweep, and what is told of the variable. -/
def settle (plan : Plan) (o : PlotOptions) :
    Except EvalError Unit × Sweep.Progress → Bindings × List Event
  | (.error _, st) => plan.afterFailure o st
  | (.ok (), st) => plan.afterSuccess st

/-- What can be told after a sweep, and the bindings that go with it. -/
inductive Told (plan : Plan) (o : PlotOptions) :
    Except EvalError Unit × Sweep.Progress → Bindings → Event → Prop
  | leftBound : o.unbindOnFailure = false →
      Told plan o (.error err, st) st.bindings (.leftBound st.xs.size plan.name)
  | unboundAfterFailure : o.unbindOnFailure = true →
      st.bindings.remove? plan.name = some (last, b') →
      Told plan o (.error err, st) b' (.unboundAfterFailure plan.name last)
  | unbound : st.bindings.remove? plan.name = some (last, b') →
      Told plan o (.ok (), st) b' (.unbound plan.name last)

variable {plan : Plan} {o : PlotOptions} {b : Bindings} {n m : Nat} {ys : Array Float}
  {st : Sweep.Progress} {res : Except EvalError Unit}

/-! ## What is told -/

/-- Drawing and simplifying leave the bindings as the sweep has settled them. -/
theorem bindings_conclude (plan : Plan) (o : PlotOptions) (draw : Renderer σ) (s : σ)
    (r : Except EvalError Unit × Sweep.Progress) :
    (plan.conclude o draw s r).bindings = (plan.settle o r).1 := by
  obtain ⟨res, st⟩ := r
  cases res with
  | error err => rfl
  | ok _ =>
    simp only [conclude, complete, settle]
    split <;> rfl

/-- Before the sweep is over, nothing is told of what becomes of the binding. -/
theorem tellsBinding_of_mem_sampled {s : Stepping} {ev : Event}
    (h : ev ∈ plan.opening s ++ plan.sampled st) : ev.tellsBinding = false := by
  simp only [opening, sampled, List.mem_append, List.mem_ite_nil_right, List.mem_singleton,
    List.mem_map] at h
  rcases h with (⟨-, rfl⟩ | rfl) | ⟨_, -, rfl⟩ <;> rfl

/-- What a simplification tells is not about the binding. -/
theorem tellsBinding_of_mem_ofSimplification {e : Expr} {r : Except EvalError Expr} {ev : Event}
    (h : ev ∈ Event.ofSimplification e r) : ev.tellsBinding = false := by
  cases r with
  | error err => cases h
  | ok e' =>
    obtain rfl := List.mem_singleton.1 h
    rfl

/-- Of all that is told, only what follows the sweep is about the binding. -/
theorem exists_log_eq (plan : Plan) (o : PlotOptions) (draw : Renderer σ) (s : σ)
    (r : Except EvalError Unit × Sweep.Progress) : ∃ before after : List Event,
      (plan.conclude o draw s r).log = before ++ (plan.settle o r).2 ++ after ∧
      (∀ ev ∈ before, ev.tellsBinding = false) ∧ ∀ ev ∈ after, ev.tellsBinding = false := by
  obtain ⟨res, st⟩ := r
  refine ⟨plan.opening o.stepping ++ plan.sampled st, ?_⟩
  cases res with
  | error err =>
    exact ⟨[], (List.append_nil _).symm, fun _ => tellsBinding_of_mem_sampled, nofun⟩
  | ok _ =>
    simp only [conclude, complete, settle]
    split
    · refine ⟨[.samplesTaken st.xs.size], rfl, fun _ => tellsBinding_of_mem_sampled, ?_⟩
      simp [Event.tellsBinding]
    · refine ⟨.samplesTaken st.xs.size :: _, List.append_assoc ..,
        fun _ => tellsBinding_of_mem_sampled, ?_⟩
      rintro ev (_ | ⟨_, hev⟩)
      · rfl
      · exact tellsBinding_of_mem_ofSimplification hev

/-- Nothing is told, or one of the things that can be told. -/
theorem settle_cases (plan : Plan) (o : PlotOptions) (r : Except EvalError Unit × Sweep.Progress) :
    (plan.settle o r).2 = [] ∨
      ∃ ev, (plan.settle o r).2 = [ev] ∧ plan.Told o r (plan.settle o r).1 ev := by
  obtain ⟨res, st⟩ := r
  cases res with
  | error err =>
    simp only [settle, afterFailure]
    cases hunbind : o.unbindOnFailure with
    | false => exact .inr ⟨_, rfl, .leftBound hunbind⟩
    | true =>
      cases hr : st.bindings.remove? plan.name with
      | none => exact .inl rfl
      | some taken => exact .inr ⟨_, rfl, .unboundAfterFailure hunbind hr⟩
  | ok _ =>
    simp only [settle, afterSuccess]
    cases hr : st.bindings.remove? plan.name with
    | none => exact .inl rfl
    | some taken => exact .inr ⟨_, rfl, .unbound hr⟩

/-- What is told after a sweep is one of the things that can be told. -/
theorem told_of_mem_settle {r : Except EvalError Unit × Sweep.Progress} {ev : Event}
    (h : ev ∈ (plan.settle o r).2) : plan.Told o r (plan.settle o r).1 ev := by
  rcases settle_cases plan o r with heq | ⟨ev', heq, ht⟩
  · rw [heq] at h
    cases h
  · rw [heq] at h
    rwa [List.mem_singleton.1 h]

/-- At most one event is told of the variable. -/
theorem length_settle_le (plan : Plan) (o : PlotOptions)
    (r : Except EvalError Unit × Sweep.Progress) : (plan.settle o r).2.length ≤ 1 := by
  rcases settle_cases plan o r with heq | ⟨ev, heq, -⟩
  · simp [heq]
  · simp [heq]

/-- All that can be told after a sweep is about the binding. -/
theorem Told.tellsBinding {r : Except EvalError Unit × Sweep.Progress} {b' : Bindings} {ev : Event}
    (h : plan.Told o r b' ev) : ev.tellsBinding = true := by
  cases h <;> rfl

/-- The events about the binding are those told when the sweep is settled. -/
theorem filter_log (plan : Plan) (o : PlotOptions) (draw : Renderer σ) (s : σ)
    (r : Except EvalError Unit × Sweep.Progress) :
    (plan.conclude o draw s r).log.filter Event.tellsBinding = (plan.settle o r).2 := by
  obtain ⟨before, after, heq, hbefore, hafter⟩ := exists_log_eq plan o draw s r
  have hnone {l : List Event} (hl : ∀ ev ∈ l, ev.tellsBinding = false) :
      l.filter Event.tellsBinding = [] :=
    List.filter_eq_nil_iff.2 fun ev hev => by simp [hl ev hev]
  have hall : (plan.settle o r).2.filter Event.tellsBinding = (plan.settle o r).2 :=
    List.filter_eq_self.2 fun _ hev => (told_of_mem_settle hev).tellsBinding
  rw [heq, List.filter_append, List.filter_append, hnone hbefore, hnone hafter, hall,
    List.nil_append, List.append_nil]

/-- An event about the binding is in the log just if it is told when the sweep is settled. -/
theorem mem_log_iff {draw : Renderer σ} {s : σ} {r : Except EvalError Unit × Sweep.Progress}
    {ev : Event} (hev : ev.tellsBinding = true) :
    ev ∈ (plan.conclude o draw s r).log ↔ ev ∈ (plan.settle o r).2 := by
  rw [← filter_log plan o draw s r, List.mem_filter, and_iff_left hev]

/-! ## What is the case -/

/-- Before a position has been bound, the variable is unbound. -/
theorem Reached.get?_zero (hx : Entries.lookup b.entries plan.name = none)
    (hst : plan.Reached o b 0 ys st) : st.bindings.get? plan.name = none := by
  rw [hst.compact.get?_eq, hst.entries_eq]
  exact hx

/-- From then on it is bound to the last position. -/
theorem Reached.get?_succ (hx : Entries.lookup b.entries plan.name = none)
    (hst : plan.Reached o b (n + 1) ys st) :
    st.xs.back? = some (plan.position o n) ∧
      st.bindings.get? plan.name = some (.number (plan.position o n)) := by
  constructor
  · rw [hst.xs_eq, positions_succ, Array.back?_push]
  · rw [hst.compact.get?_eq, hst.entries_eq, entriesAfter, Entries.lookup, List.find?_append,
      Option.map_eq_none_iff.1 hx]
    simp

/-- What is taken out is the last position, and the variable is unbound again. -/
theorem Reached.get?_of_remove? (hx : Entries.lookup b.entries plan.name = none)
    (hst : plan.Reached o b m ys st) {last : Expr} {b' : Bindings}
    (h : st.bindings.remove? plan.name = some (last, b')) :
    (∃ p, last = .number p ∧ st.xs.back? = some p) ∧ st.bindings.get? plan.name = some last ∧
      b'.get? plan.name = none := by
  rcases hst.remove?_cases hx with ⟨-, hr⟩ | ⟨k, b₁, rfl, hc, hentries, hr⟩
  · cases h.symm.trans hr
  · cases h.symm.trans hr
    obtain ⟨hback, hget⟩ := hst.get?_succ hx
    exact ⟨⟨_, rfl, hback⟩, hget, by rw [hc.get?_eq, hentries, hx]⟩

/-- A sweep breaks off before the first position is bound if no sample at all is allowed. -/
theorem Breaks.eq_zero_iff {err : EvalError} (hs : plan.Sampled o b n ys)
    (h : plan.Breaks o b n err m) : m = 0 ↔ o.maxSamples = some 0 := by
  cases h with
  | capped _ hlimit hle =>
    constructor
    · rintro rfl
      rw [hlimit, Nat.le_zero.1 hle]
    · intro hzero
      exact Nat.eq_zero_of_not_pos fun hpos => Nat.not_lt_zero 0 (hs.allowed 0 hpos 0 hzero)
  | failed _ hallowed _ =>
    exact ⟨nofun, fun hzero => absurd (hallowed 0 hzero) (Nat.not_lt_zero n)⟩

/-- However a sweep ends, what it has done by then is described. -/
theorem Ended.exists_reached (h : plan.Ended o b res st) : ∃ ys m, plan.Reached o b m ys st := by
  cases h with
  | passed _ _ hst | broken _ _ hst => exact ⟨_, _, hst⟩

/-- After a sweep that broke off the variable is bound to the last position, if there is one. -/
theorem Ended.get?_of_error {err : EvalError} (hx : Entries.lookup b.entries plan.name = none)
    (h : plan.Ended o b (.error err) st) :
    if o.maxSamples = some 0 then st.xs.size = 0 ∧ st.bindings.get? plan.name = none
    else ∃ p, st.xs.back? = some p ∧ st.bindings.get? plan.name = some (.number p) := by
  cases h with
  | broken hs hbreaks hst =>
    have hzero := hbreaks.eq_zero_iff hs
    split
    · next hcap =>
      obtain rfl := hzero.2 hcap
      exact ⟨by rw [hst.xs_eq, size_positions], hst.get?_zero hx⟩
    · next hcap =>
      obtain ⟨k, rfl⟩ := Nat.exists_eq_succ_of_ne_zero (mt hzero.1 hcap)
      exact ⟨_, hst.get?_succ hx⟩

end Plan

/-! ## Runs -/

variable {o : PlotOptions} {draw : Renderer σ} {fuel : Nat} {b : Bindings} {s : σ} {node : Expr}
  {report : Report σ}

/-- The log of a run says at most one thing of the binding of its variable. If it says that the variable
was unbound, then the variable was bound to the last position before, as said, and is unbound after the
run. If it says that the variable is left bound, then the sweep broke off and the variable is bound to
the last position, with one exception: if no sample is allowed, no position has been bound, and the
variable is unbound. -/
theorem log_of_run (hb : b.Built) (h : o.run draw fuel b s node = some report) :
    (report.log.filter Event.tellsBinding).length ≤ 1 ∧
    (∀ count x, .leftBound count x ∈ report.log → ∃ plan err st,
      Plan.ofExpr o b node = .ok plan ∧ plan.sweep o fuel b = some (.error err, st) ∧
      plan.name = x ∧ st.xs.size = count ∧ o.unbindOnFailure = false ∧
      if o.maxSamples = some 0 then count = 0 ∧ report.bindings.get? x = none
      else ∃ p, st.xs.back? = some p ∧ report.bindings.get? x = some (.number p)) ∧
    ∀ x last, .unboundAfterFailure x last ∈ report.log ∨ .unbound x last ∈ report.log →
      ∃ plan res st, Plan.ofExpr o b node = .ok plan ∧ plan.sweep o fuel b = some (res, st) ∧
        plan.name = x ∧ (∃ p, last = .number p ∧ st.xs.back? = some p) ∧
        st.bindings.get? x = some last ∧ report.bindings.get? x = none := by
  rcases Plan.refused_or_admitted o b node with ⟨err, hr⟩ | ⟨plan, hp⟩
  · rw [PlotOptions.run, hr.ofExpr_eq] at h
    cases h
    refine ⟨Nat.zero_le 1, fun _ _ hev => ?_, fun _ _ hev => ?_⟩
    · cases hev
    · rcases hev with hev | hev <;> cases hev
  have hplan := hp.ofExpr_eq
  rw [Plan.run_eq hplan, Option.map_eq_some_iff] at h
  obtain ⟨⟨res, st⟩, hsweep, rfl⟩ := h
  have hx := hp.lookup_eq_none hb.compact
  have hended := Plan.ended_of_sweep hb.compact hx hsweep
  -- What is told of the binding is told once the sweep is settled, and the bindings stay as they are.
  have htold {ev : Event} (hev : ev ∈ (plan.conclude o draw s (res, st)).log)
      (htells : ev.tellsBinding = true) :
      plan.Told o (res, st) (plan.conclude o draw s (res, st)).bindings ev := by
    rw [Plan.bindings_conclude]
    exact Plan.told_of_mem_settle ((Plan.mem_log_iff htells).1 hev)
  refine ⟨?_, fun count x hev => ?_, fun x last hev => ?_⟩
  · rw [Plan.filter_log]
    exact Plan.length_settle_le plan o (res, st)
  · have ht := htold hev rfl
    generalize (plan.conclude o draw s (res, st)).bindings = b' at ht ⊢
    cases ht with
    | leftBound hleave => exact ⟨plan, _, st, hplan, hsweep, rfl, rfl, hleave, hended.get?_of_error hx⟩
  · obtain ⟨ev, ht, hev⟩ : ∃ ev,
        plan.Told o (res, st) (plan.conclude o draw s (res, st)).bindings ev ∧
          (ev = .unboundAfterFailure x last ∨ ev = .unbound x last) := by
      rcases hev with hev | hev
      · exact ⟨_, htold hev rfl, .inl rfl⟩
      · exact ⟨_, htold hev rfl, .inr rfl⟩
    obtain ⟨ys, m, hst⟩ := hended.exists_reached
    generalize (plan.conclude o draw s (res, st)).bindings = b' at ht ⊢
    cases ht with
    | leftBound => simp at hev
    | unboundAfterFailure _ hr | unbound hr =>
      simp only [reduceCtorEq, Event.unboundAfterFailure.injEq, Event.unbound.injEq, or_false,
        false_or] at hev
      obtain ⟨rfl, rfl⟩ := hev
      exact ⟨plan, _, st, hplan, hsweep, rfl, hst.get?_of_remove? hx hr⟩

/-- `plot(x, x, 0, 5, 1)` with a cap of two samples leaves `x` bound to 1 and says so, or says that 1 was
the value which it has taken out. -/
theorem log_of_run_two_samples :
    let b : Bindings := Store.withCapacity 1
    let node : Expr := .operation "plot" [.var "x", .var "x", .number 0.0, .number 5.0, .number 1.0]
    let o : PlotOptions := ⟨.accumulate, false, 4, some 2⟩
    let o' : PlotOptions := { o with unbindOnFailure := true }
    (∃ report, o.run Renderer.recording 4 b .empty node = some report ∧
      .leftBound 2 "x" ∈ report.log ∧ report.bindings.get? "x" = some (.number 1.0)) ∧
    ∃ report, o'.run Renderer.recording 4 b .empty node = some report ∧
      .unboundAfterFailure "x" (.number 1.0) ∈ report.log ∧ report.bindings.get? "x" = none := by
  intro b node o o'
  let plan : Plan := ⟨.var "x", "x", ⟨0.0, 5.0, 1.0⟩⟩
  have hbuilt : b.Built := .withCapacity 1
  have hplan : Plan.ofExpr o b node = .ok plan := by rfl
  have hplan' : Plan.ofExpr o' b node = .ok plan := by rfl
  have hends : (plan.sweep o 4 b).map (fun r => (r.1, r.2.xs)) =
      some (.error (.tooManySamples 2), #[0.0, 1.0]) := by
    subst b o plan
    rfl
  obtain ⟨⟨_, st⟩, hsweep, heq⟩ := Option.map_eq_some_iff.1 hends
  obtain ⟨rfl, hxs⟩ := Prod.mk.inj heq
  have hsweep' : plan.sweep o' 4 b = _ := hsweep
  have hsize : st.xs.size = 2 := by
    rw [hxs]
    rfl
  have hback : st.xs.back? = some 1.0 := by
    rw [hxs]
    rfl
  have hx : Entries.lookup b.entries "x" = none := by rfl
  constructor
  · let report := plan.conclude o Renderer.recording .empty (.error (.tooManySamples 2), st)
    have hrun : o.run Renderer.recording 4 b .empty node = some report := by
      rw [Plan.run_eq hplan, hsweep]
      rfl
    have hmem : .leftBound 2 "x" ∈ report.log := by
      rw [Plan.mem_log_iff rfl, ← hsize]
      exact List.mem_singleton_self _
    obtain ⟨-, hleft, -⟩ := log_of_run hbuilt hrun
    obtain ⟨_, _, _, hp, hs, -, -, -, p, hp', hget⟩ := hleft 2 "x" hmem
    cases hplan.symm.trans hp
    cases hsweep.symm.trans hs
    cases hback.symm.trans hp'
    exact ⟨report, hrun, hmem, hget⟩
  · let report := plan.conclude o' Renderer.recording .empty (.error (.tooManySamples 2), st)
    have hrun : o'.run Renderer.recording 4 b .empty node = some report := by
      rw [Plan.run_eq hplan', hsweep']
      rfl
    have hmem : .unboundAfterFailure "x" (.number 1.0) ∈ report.log := by
      obtain ⟨ys, m, hst⟩ := (Plan.ended_of_sweep hbuilt.compact hx hsweep').exists_reached
      rcases hst.remove?_cases hx with ⟨rfl, -⟩ | ⟨k, b', rfl, -, -, hr⟩
      · rw [hst.xs_eq, Plan.size_positions] at hsize
        cases hsize
      · have hlast := Option.some.inj (hback.symm.trans (hst.get?_succ hx).1)
        rw [Plan.mem_log_iff rfl, Plan.settle, Plan.afterFailure, if_pos rfl, hr, ← hlast]
        exact List.mem_singleton_self _
    obtain ⟨-, -, htaken⟩ := log_of_run hbuilt hrun
    obtain ⟨_, _, _, -, -, -, -, -, hget⟩ := htaken _ _ (.inl hmem)
    exact ⟨report, hrun, hmem, hget⟩

/-- With a cap of no samples the same plot says that `x` is left bound, but `x` is unbound. -/
theorem log_of_run_no_samples :
    let b : Bindings := Store.withCapacity 1
    let node : Expr := .operation "plot" [.var "x", .var "x", .number 0.0, .number 5.0, .number 1.0]
    let o : PlotOptions := ⟨.accumulate, false, 4, some 0⟩
    ∃ report, o.run Renderer.recording 1 b .empty node = some report ∧
      .leftBound 0 "x" ∈ report.log ∧ report.bindings.get? "x" = none := by
  intro b node o
  let plan : Plan := ⟨.var "x", "x", ⟨0.0, 5.0, 1.0⟩⟩
  have hplan : Plan.ofExpr o b node = .ok plan := by rfl
  have hsweep : plan.sweep o 1 b = some (.error (.tooManySamples 0), ⟨b, #[], #[]⟩) := by
    subst b o plan
    rfl
  refine ⟨_, by rw [Plan.run_eq hplan, hsweep, Option.map_some], ?_, rfl⟩
  rw [Plan.mem_log_iff rfl]
  exact List.mem_singleton_self _

end GraphCalc
