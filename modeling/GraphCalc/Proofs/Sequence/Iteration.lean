import GraphCalc.Proofs.Sequence.Refinement

/-!
# Iterators from both ends

What an iterator answers next depends on what it has answered before: on how many items it has given
from each end. `due` is the answer that is due after a dialogue, and an iterator that gives the due
answer to each call cannot be told from any other that does. The cursor over a sequence and the iterator
that takes the items out of it have little else in common: one is two links and a counter in a sequence
that stays as it is (`Arranged.respond_eq`), the other unlinks nodes and recycles slots
(`Holds.respond_eq`). Both give the answers that are due, to any word of calls (`run_iterators`).
-/

namespace GraphCalc.Sequence

variable {α : Type}

/-! ## The answers that are due -/

/-- The item of an answer. A hint has none. -/
def Answer.item? : Answer α → Option α
  | item a => a
  | hint .. => none

/-- How many items have been given from an end. -/
def given (e : End) (d : List (Call × Answer α)) : Nat :=
  d.countP fun (c, a) => c == .next e && a.item?.isSome

/-- The answer that is due after a dialogue. As long as fewer items have been given than there are, it is
the next one from the end that is asked, and nothing after that. A hint is exact. -/
def due (l : List α) (d : List (Call × Answer α)) : Call → Answer α
  | .next .front =>
    .item (if h : given .front d + given .back d < l.length then some l[given .front d] else none)
  | .next .back =>
    .item (if h : given .front d + given .back d < l.length then some l[l.length - 1 - given .back d]
      else none)
  | .sizeHint =>
    .hint (l.length - (given .front d + given .back d))
      (some (l.length - (given .front d + given .back d)))

/-- The items between those given from the front and those given from the back. -/
def between (l : List α) (d : List (Call × Answer α)) : List α :=
  (l.drop (given .front d)).take (l.length - (given .front d + given .back d))

/-- The dialogue of these calls, each with the answer due, after an earlier one. -/
def dialogue (l : List α) (d : List (Call × Answer α)) : List Call → List (Call × Answer α)
  | [] => []
  | c :: w => (c, due l d c) :: dialogue l (d ++ [(c, due l d c)]) w

section
variable {l : List α} {d : List (Call × Answer α)}

/-- The calls of a dialogue are those that it was made for. -/
theorem map_fst_dialogue (w : List Call) : (dialogue l d w).map Prod.fst = w := by
  induction w generalizing d with
  | nil => rfl
  | cons c w ih => rw [dialogue, List.map_cons, ih]

/-- Each answer of the dialogue is due after those before. -/
theorem eq_due_of_dialogue {w : List Call} {before after : List (Call × Answer α)} {c : Call}
    {a : Answer α} (h : dialogue l d w = before ++ (c, a) :: after) : a = due l (d ++ before) c := by
  induction w generalizing d before with
  | nil => simp [dialogue] at h
  | cons c' w ih =>
    rw [dialogue] at h
    cases before with
    | nil =>
      obtain ⟨hfirst, -⟩ := List.cons.inj h
      cases hfirst
      rw [List.append_nil]
    | cons x before =>
      obtain ⟨rfl, hrest⟩ := List.cons.inj h
      rw [ih hrest, List.append_assoc, List.singleton_append]

/-! ## Iterators that give them -/

/-- An iterator that gives the answer due in each state gives those due to a word of calls. -/
theorem run_dialogue {σ : Type} {R : List (Call × Answer α) → σ → Prop}
    {step : Call → σ → Except Error (Answer α × σ)}
    (hstep : ∀ d c s, R d s → ∃ t, step c s = .ok (due l d c, t) ∧ R (d ++ [(c, due l d c)]) t)
    (w : List Call) {s : σ} (h : R d s) :
    ∃ t, History.run step w s = ((dialogue l d w).map fun x => .ok x.2, t) ∧
      R (d ++ dialogue l d w) t := by
  induction w generalizing d s with
  | nil => exact ⟨s, rfl, by rwa [dialogue, List.append_nil]⟩
  | cons c w ih =>
    obtain ⟨t, hc, ht⟩ := hstep d c s h
    obtain ⟨u, hrun, hu⟩ := ih ht
    refine ⟨u, ?_, by rwa [List.append_assoc, List.singleton_append] at hu⟩
    simp only [History.run, hc, hrun]
    rfl

/-! ## One answer -/

/-- A call counts for its own end, and if it was answered by an item. -/
theorem given_concat_item (e e' : End) (a : Option α) :
    given e (d ++ [(.next e', .item a)]) = given e d + if e' = e ∧ a.isSome then 1 else 0 := by
  simp [given, Answer.item?, List.countP_cons]

/-- A hint does not count. -/
theorem given_concat_hint (e : End) (low : Nat) (high : Option Nat) :
    given e (d ++ [(.sizeHint, .hint low high)]) = given e d := by
  simp [given]

/-- While there are items left, the one that is due is the next from its end. -/
theorem due_of_lt (h : given .front d + given .back d < l.length) (e : End)
    (he : given e d < (e.order l).length) :
    due l d (.next e) = .item (some (e.order l)[given e d]) := by
  cases e <;> simp [due, h, End.order]

/-- When all items have been given, none is due. -/
theorem due_of_le (h : l.length ≤ given .front d + given .back d) (e : End) :
    due l d (.next e) = .item none := by
  cases e <;> simp [due, Nat.not_lt.2 h]

/-- While there are items left, fewer than all have been given from each end. -/
theorem given_lt_length {β : Type} {xs : List β} (h : given .front d + given .back d < xs.length)
    (e : End) : given e d < (e.order xs).length := by
  rw [End.length_order]
  cases e <;> omega

end

/-! ## The cursor -/

/-- Where a cursor stands after a dialogue: on each side at the first cell that has not been given. -/
structure Cursor.After (cells : List (Cell α)) (d : List (Call × Answer α)) (cur : Cursor) : Prop where
  given_le : given .front d + given .back d ≤ cells.length
  remaining_eq : cur.remaining = cells.length - (given .front d + given .back d)
  position_eq : ∀ e, cur.position e = firstSlot ((e.order cells).drop (given e d))

/-- Moving on at one end does not move the other. -/
theorem Cursor.position_advance_of_ne (cur : Cursor) (link : Option Nat) {e e' : End} (h : e ≠ e') :
    (cur.advance link e).position e' = cur.position e' := by
  cases e <;> cases e'
  · exact absurd rfl h
  · rfl
  · rfl
  · exact absurd rfl h

section
variable {s : Sequence α} {cells : List (Cell α)} {d : List (Call × Answer α)} {cur : Cursor}

/-- A new cursor stands before the first item at each end. -/
theorem Arranged.after_cursor (h : s.Arranged cells) : s.cursor.After cells [] :=
  ⟨Nat.zero_le _, h.size_eq, fun e => by
    rw [given, List.countP_nil, List.drop_zero, ← h.first_eq]
    cases e <;> rfl⟩

/-- A cursor gives the answer that is due. -/
theorem Arranged.respond_eq (h : s.Arranged cells) (hcur : cur.After cells d) (c : Call) :
    ∃ cur', cur.respond s c = .ok (due (cells.map Cell.value) d c, cur') ∧
      cur'.After cells (d ++ [(c, due (cells.map Cell.value) d c)]) := by
  have hlen : (cells.map Cell.value).length = cells.length := List.length_map _
  obtain ⟨hle, hrem, hpos⟩ := hcur
  cases c with
  | sizeHint =>
    refine ⟨cur, ?_, ?_⟩
    · simp only [Cursor.respond, due, hrem, hlen]
    · rw [due]
      exact ⟨by simpa only [given_concat_hint] using hle,
        by simpa only [given_concat_hint] using hrem, by simpa only [given_concat_hint] using hpos⟩
  | next e =>
    rcases Nat.lt_or_ge (given .front d + given .back d) cells.length with hlt | hge
    · -- The two ends have not met, so the cursor stands on the cell that is due.
      have hk := given_lt_length hlt e
      have hsplit : e.order cells = (e.order cells).take (given e d) ++
          (e.order cells)[given e d] :: (e.order cells).drop (given e d + 1) := by
        rw [← List.drop_eq_getElem_cons hk, List.take_append_drop]
      have hcell : cur.position e = some ((e.order cells)[given e d]).slot := by
        rw [hpos, List.drop_eq_getElem_cons hk, firstSlot_cons]
      have hnext := h.next_eq hsplit hcell (by omega)
      have hdue := due_of_lt (l := cells.map Cell.value) (d := d) (by omega) e
        (given_lt_length (by omega) e)
      simp only [← End.map_order, List.getElem_map] at hdue
      rw [hdue]
      refine ⟨_, by rw [Cursor.respond, hnext]; rfl, ?_, ?_, fun e' => ?_⟩
      · simp only [given_concat_item]
        cases e <;> simp <;> omega
      · rw [Cursor.remaining_advance, hrem]
        simp only [given_concat_item]
        cases e <;> simp <;> omega
      · rw [given_concat_item]
        by_cases he : e = e'
        · subst he
          simp [Cursor.position_advance]
        · rw [Cursor.position_advance_of_ne _ _ he, hpos]
          simp [he]
    · rw [due_of_le (by omega) e]
      refine ⟨cur, ?_, ?_⟩
      · have hzero : cur.remaining = 0 := by omega
        simp [Cursor.respond, Cursor.next, hzero, Except.map]
      · exact ⟨by simpa [given_concat_item] using hle, by simpa [given_concat_item] using hrem,
          by simpa [given_concat_item] using hpos⟩

end

/-! ## The iterator that owns its sequence -/

section
variable {t : Sequence α} {l : List α} {d : List (Call × Answer α)}

/-- When all items have been given, none is left. -/
theorem between_of_le (h : l.length ≤ given .front d + given .back d) : between l d = [] := by
  rw [between, Nat.sub_eq_zero_of_le h, List.take_zero]

/-- What is left begins with the item that is due at the front. -/
theorem between_eq_cons (h : given .front d + given .back d < l.length) :
    between l d = l[given .front d] ::
      between l (d ++ [(.next .front, .item (some l[given .front d]))]) := by
  obtain ⟨m, hm⟩ := Nat.exists_eq_add_of_lt h
  have hleft : l.length - (given .front d + given .back d) = m + 1 := by omega
  have hleft' : l.length - (given .front d + 1 + given .back d) = m := by omega
  simp only [between, given_concat_item]
  simp [hleft, hleft', List.drop_eq_getElem_cons (show given .front d < l.length by omega),
    -List.getElem_cons_drop]

/-- It ends with the item that is due at the back. -/
theorem between_eq_concat (h : given .front d + given .back d < l.length) :
    between l d =
      between l (d ++ [(.next .back, .item (some l[l.length - 1 - given .back d]))]) ++
        [l[l.length - 1 - given .back d]] := by
  obtain ⟨m, hm⟩ := Nat.exists_eq_add_of_lt h
  have hleft : l.length - (given .front d + given .back d) = m + 1 := by omega
  have hleft' : l.length - (given .front d + (given .back d + 1)) = m := by omega
  have hlast : l.length - 1 - given .back d = given .front d + m := by omega
  have hm : m < (l.drop (given .front d)).length := by
    rw [List.length_drop]
    omega
  simp only [between, given_concat_item]
  simp [hleft, hleft', hlast, List.take_succ_eq_append_getElem hm]

/-- The iterator that owns a sequence gives the answer that is due, and keeps the items that have not
been given. -/
theorem Holds.respond_eq (hle : given .front d + given .back d ≤ l.length)
    (h : t.Holds (between l d)) (c : Call) :
    ∃ t', respond c t = .ok (due l d c, t') ∧
      given .front (d ++ [(c, due l d c)]) + given .back (d ++ [(c, due l d c)]) ≤ l.length ∧
      t'.Holds (between l (d ++ [(c, due l d c)])) := by
  cases c with
  | sizeHint =>
    have hsize : t.size = l.length - (given .front d + given .back d) := by
      rw [h.size_eq, between, List.length_take, List.length_drop]
      omega
    refine ⟨t, by rw [respond, hsize, due], ?_⟩
    rw [due, between]
    simpa only [given_concat_hint] using ⟨hle, h⟩
  | next e =>
    rcases Nat.lt_or_ge (given .front d + given .back d) l.length with hlt | hge
    · cases e with
      | front =>
        obtain ⟨t', hpop, ht'⟩ := h.pop_front
        rw [between_eq_cons hlt] at hpop ht'
        refine ⟨t', ?_, ?_, ?_⟩
        · simp [respond, hpop, due, hlt, Except.map]
        · simp only [due, given_concat_item]
          simp [hlt]
          omega
        · simpa [due, hlt] using ht'
      | back =>
        obtain ⟨t', hpop, ht'⟩ := h.pop_back
        rw [between_eq_concat hlt] at hpop ht'
        refine ⟨t', ?_, ?_, ?_⟩
        · simp [respond, hpop, due, hlt, Except.map]
        · simp only [due, given_concat_item]
          simp [hlt]
          omega
        · simpa [due, hlt] using ht'
    · rw [due_of_le hge e]
      rw [between_of_le hge] at h
      have hpop : t.pop e = .ok (none, t) := by simp [pop, h.size_eq]
      refine ⟨t, by rw [respond, hpop]; rfl, ?_⟩
      rw [between_of_le]
      · simpa [given_concat_item] using ⟨hle, h⟩
      · simpa [given_concat_item] using hge

end

/-- Whatever the history of a sequence and the word of calls, the iterator that looks at it and the one
that owns it answer alike. Each answer is the one that is due: of the calls that give an item, the `i`-th
from the front gives item `i` and the `j`-th from the back item `size - 1 - j`; a call gives one just if
fewer have been given before than there are; and a hint is the exact number of those left. What the
owning iterator still has is what lies between. -/
theorem run_iterators (history : List (Action α)) (word : List Call) :
    let s := (History.run Action.perform history empty).2
    let l := (History.run Action.onList history []).2
    s.items .front = .ok l ∧
    ∃ d cur t, d.map Prod.fst = word ∧
      (∀ before c a after, d = before ++ (c, a) :: after → a = due l before c) ∧
      History.run (Cursor.respond s) word s.cursor = (d.map fun x => .ok x.2, cur) ∧
      History.run respond word s = (d.map fun x => .ok x.2, t) ∧
      given .front d + given .back d ≤ l.length ∧ t.items .front = .ok (between l d) := by
  intro s l
  have h : s.Holds l := (holds_empty.run history).2
  obtain ⟨cells, harr, hl⟩ := h
  obtain ⟨cur, hcur, -⟩ := run_dialogue (R := fun d (cur : Cursor) => cur.After cells d)
    (fun d c cur hcur => harr.respond_eq hcur c) word harr.after_cursor
  have hwhole : s.Holds (between l []) := by
    simpa [between, given] using ⟨cells, harr, hl⟩
  obtain ⟨t, hown, hle, ht⟩ := run_dialogue (d := [])
    (R := fun d (t : Sequence α) => given .front d + given .back d ≤ l.length ∧ t.Holds (between l d))
    (fun d c t ht => ht.2.respond_eq ht.1 c) word ⟨Nat.zero_le _, hwhole⟩
  refine ⟨Holds.items_eq ⟨cells, harr, hl⟩ .front, dialogue l [] word, cur, t, map_fst_dialogue word,
    fun before c a after hd => eq_due_of_dialogue hd, ?_, hown, hle, ht.items_eq .front⟩
  rw [hcur, hl]

/-- The two ends meet in the middle, and then both are exhausted. -/
example :
    (dialogue [1, 2, 3] [] [.next .back, .next .front, .sizeHint, .next .back, .next .front]).map
      Prod.snd = [.item (some 3), .item (some 1), .hint 1 (some 1), .item (some 2), .item none] := by
  decide

end GraphCalc.Sequence
