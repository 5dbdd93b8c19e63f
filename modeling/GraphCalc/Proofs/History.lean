/-!
# Histories

What a structure is after a history of operations, some of which fail: a failed operation gives its
error and leaves the state as it was. Two structures whose operations agree one by one agree after
every history (`run_related`).
-/

namespace GraphCalc.History

variable {ι β ε σ τ : Type}

/-- Performs operations in turn, and gives their answers and the last state. -/
def run (step : ι → σ → Except ε (β × σ)) : List ι → σ → List (Except ε β) × σ
  | [], s => ([], s)
  | i :: is, s =>
    match step i s with
    | .ok (b, t) => let (answers, u) := run step is t; (.ok b :: answers, u)
    | .error e => let (answers, u) := run step is s; (.error e :: answers, u)

/-- The second history is the first with further operations in between, all of which satisfy `p`. -/
inductive Inserted (p : ι → Prop) : List ι → List ι → Prop
  | nil : Inserted p [] []
  | keep : Inserted p is js → Inserted p (i :: is) (i :: js)
  | insert : p i → Inserted p is js → Inserted p is (i :: js)

/-- What is inserted may be described by a weaker condition. -/
theorem Inserted.imp {p q : ι → Prop} (hpq : ∀ i, p i → q i) {is js : List ι}
    (h : Inserted p is js) : Inserted q is js := by
  induction h with
  | nil => exact .nil
  | keep _ ih => exact .keep ih
  | insert hp _ ih => exact .insert (hpq _ hp) ih

/-- The state after one operation. -/
def next (step : ι → σ → Except ε (β × σ)) (i : ι) (s : σ) : σ :=
  match step i s with
  | .ok (_, t) => t
  | .error _ => s

/-- A history goes on from the state after its first operation. -/
theorem run_snd_cons (step : ι → σ → Except ε (β × σ)) (i : ι) (is : List ι) (s : σ) :
    (run step (i :: is) s).2 = (run step is (next step i s)).2 := by
  rw [run, next]
  split <;> rfl

/-- A history goes on from the state that an earlier one leaves. -/
theorem run_snd_append (step : ι → σ → Except ε (β × σ)) (is js : List ι) (s : σ) :
    (run step (is ++ js) s).2 = (run step js (run step is s).2).2 := by
  induction is generalizing s with
  | nil => rfl
  | cons i is ih => rw [List.cons_append, run_snd_cons, run_snd_cons, ih]

/-- The last operation of a history is performed on the state that the others leave. -/
theorem run_snd_concat (step : ι → σ → Except ε (β × σ)) (is : List ι) (i : ι) (s : σ) :
    (run step (is ++ [i]) s).2 = next step i (run step is s).2 := by
  rw [run_snd_append, run_snd_cons]
  rfl

/-- One operation gives the same answer on both sides, and related states go over into related
states. -/
inductive Agree (R : σ → τ → Prop) : Except ε (β × σ) → Except ε (β × τ) → Prop
  | ok {s : σ} {t : τ} (b : β) (h : R s t) : Agree R (.ok (b, s)) (.ok (b, t))
  | error (e : ε) : Agree R (.error e) (.error e)

/-- Operations that agree one by one agree over every history. -/
theorem run_related {R : σ → τ → Prop} {step : ι → σ → Except ε (β × σ)}
    {step' : ι → τ → Except ε (β × τ)} (hstep : ∀ i s t, R s t → Agree R (step i s) (step' i t))
    (history : List ι) {s : σ} {t : τ} (h : R s t) :
    (run step history s).1 = (run step' history t).1 ∧
      R (run step history s).2 (run step' history t).2 := by
  induction history generalizing s t with
  | nil => exact ⟨rfl, h⟩
  | cons i is ih =>
    have hi := hstep i s t h
    unfold run
    generalize step i s = x, step' i t = y at hi
    cases hi with
    | ok b h =>
      obtain ⟨hanswers, hstate⟩ := ih h
      exact ⟨congrArg _ hanswers, hstate⟩
    | error e =>
      obtain ⟨hanswers, hstate⟩ := ih h
      exact ⟨congrArg _ hanswers, hstate⟩

end GraphCalc.History
