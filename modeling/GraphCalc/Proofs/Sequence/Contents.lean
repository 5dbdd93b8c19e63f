import GraphCalc.Proofs.Sequence.Splice

/-!
# Sequences as lists of items

A sequence `Holds` the items of its chain. Each operation on it is the operation on the list: it
succeeds where the list has the index, gives the same item, and leaves a sequence that holds the
changed list. Where the list has no such index it is refused before anything is changed.
-/

namespace GraphCalc.Sequence

variable {α : Type}

/-- The sequence holds these items, from front to back. -/
def Holds (s : Sequence α) (l : List α) : Prop :=
  ∃ cells, s.Arranged cells ∧ cells.map Cell.value = l

/-- The empty sequence holds no items. -/
theorem holds_empty : (empty : Sequence α).Holds [] := ⟨[], arranged_empty, rfl⟩

section
variable {s : Sequence α} {l : List α} {i : Nat}

/-- The size that a sequence keeps is the number of its items. -/
theorem Holds.size_eq (h : s.Holds l) : s.size = l.length := by
  obtain ⟨cells, h, rfl⟩ := h
  rw [h.size_eq, List.length_map]

/-- A sequence is empty if it holds no items. -/
theorem Holds.isEmpty_eq (h : s.Holds l) : s.isEmpty = l.isEmpty := by
  rw [isEmpty, h.size_eq]
  cases l <;> rfl

/-- The content from an end is the list as it is seen from there. -/
theorem Holds.items_eq (h : s.Holds l) (e : End) : s.items e = .ok (e.order l) := by
  obtain ⟨cells, h, rfl⟩ := h
  exact h.items_eq e

/-- The cell of an index, with the cells on both sides of it. -/
theorem Holds.exists_split (h : s.Holds l) (hi : i < l.length) :
    ∃ left c right, s.Arranged (left ++ c :: right) ∧ left.length = i ∧
      l = left.map Cell.value ++ c.value :: right.map Cell.value := by
  obtain ⟨cells, h, rfl⟩ := h
  rw [List.length_map] at hi
  have hsplit : cells = cells.take i ++ cells[i] :: cells.drop (i + 1) := by
    rw [← List.drop_eq_getElem_cons hi, List.take_append_drop]
  refine ⟨cells.take i, cells[i], cells.drop (i + 1), by rwa [← hsplit], ?_, ?_⟩
  · rw [List.length_take]
    omega
  · rw [← List.map_cons, ← List.map_append, ← hsplit]

/-! ## Indices -/

/-- An index of the list is admitted. -/
theorem Holds.checkIndex_of_lt (h : s.Holds l) (hi : i < l.length) : s.checkIndex i = .ok () := by
  rw [checkIndex, h.size_eq, if_pos hi]

/-- Any other index is refused, with the size. -/
theorem Holds.checkIndex_of_le (h : s.Holds l) (hi : l.length ≤ i) :
    s.checkIndex i = .error (.outOfRange i l.length) := by
  rw [checkIndex, h.size_eq, if_neg (Nat.not_lt.2 hi)]

/-- At an index of the list its item is found. -/
theorem Holds.get_of_lt (h : s.Holds l) (hi : i < l.length) : s.get i = .ok l[i] := by
  obtain ⟨left, c, right, harr, rfl, rfl⟩ := h.exists_split hi
  obtain ⟨passed, hfind⟩ := harr.findSlot_length
  simp [get, h.checkIndex_of_lt hi, hfind, harr.node_eq, bind, Except.bind, pure, Except.pure]

/-- At any other index no item is. -/
theorem Holds.get_of_le (h : s.Holds l) (hi : l.length ≤ i) :
    s.get i = .error (.outOfRange i l.length) := by
  rw [get, h.checkIndex_of_le hi]
  rfl

/-- The item at an end is the first one from there. -/
theorem Holds.peek_eq (h : s.Holds l) (e : End) : s.peek e = .ok (e.order l).head? := by
  obtain ⟨cells, h, rfl⟩ := h
  rw [peek, h.first_eq, ← End.map_order]
  cases hcells : e.order cells with
  | nil => rfl
  | cons c r =>
    obtain ⟨n, hn, hvalue, -⟩ := h.linked.onward_eq (l := []) hcells
    simp [Sequence.node_eq hn, Except.map, hvalue]

/-! ## Adding items -/

/-- Inserting behind the first of two lists is inserting between them. -/
theorem insertIdx_length (l r : List α) (a : α) : (l ++ r).insertIdx l.length a = l ++ a :: r := by
  induction l with
  | nil => rfl
  | cons b l ih => simp [ih]

/-- An item is appended. This never fails. -/
theorem Holds.push (h : s.Holds l) (a : α) : ∃ t, s.push a = .ok t ∧ t.Holds (l ++ [a]) := by
  obtain ⟨cells, h, rfl⟩ := h
  obtain ⟨slot, t, hpush, ht⟩ := h.push a
  exact ⟨t, hpush, _, ht, by simp⟩

/-- An item is inserted at an index of the list, or behind its last item. -/
theorem Holds.insert_of_le (h : s.Holds l) (hi : i ≤ l.length) (a : α) :
    ∃ t, s.insert i a = .ok t ∧ t.Holds (l.insertIdx i a) := by
  have hsize := h.size_eq
  rw [Sequence.insert, hsize, if_neg (Nat.not_lt.2 hi)]
  rcases Nat.eq_or_lt_of_le hi with rfl | hlt
  · rw [if_pos rfl, List.insertIdx_length_self]
    exact h.push a
  · obtain ⟨left, c, right, harr, rfl, rfl⟩ := h.exists_split hlt
    obtain ⟨slot, t, hinsert, ht⟩ := harr.insertBefore a
    obtain ⟨passed, hfind⟩ := harr.findSlot_length
    refine ⟨t, ?_, _, ht, ?_⟩
    · rw [if_neg (Nat.ne_of_lt hlt), hfind]
      exact hinsert
    · rw [← left.length_map (f := Cell.value), insertIdx_length]
      simp

/-- Further behind nothing is inserted. -/
theorem Holds.insert_of_lt (h : s.Holds l) (hi : l.length < i) (a : α) :
    s.insert i a = .error (.outOfRange i l.length) := by
  rw [Sequence.insert, h.size_eq, if_pos hi]

/-- Items are appended in order. -/
theorem Holds.extend (h : s.Holds l) (items : List α) :
    ∃ t, s.extend items = .ok t ∧ t.Holds (l ++ items) := by
  induction items generalizing s l with
  | nil => exact ⟨s, rfl, by simpa using h⟩
  | cons a items ih =>
    obtain ⟨s', hpush, hs'⟩ := h.push a
    obtain ⟨t, hextend, ht⟩ := ih hs'
    refine ⟨t, ?_, by simpa using ht⟩
    rw [Sequence.extend, List.foldlM_cons, hpush]
    exact hextend

/-! ## Taking items out -/

/-- The item of an index is taken out. If it is the only one, the sequence that is left is a new one. -/
theorem Holds.delete_of_lt (h : s.Holds l) (hi : i < l.length) :
    ∃ t, s.delete i = .ok (l[i], t) ∧ t.Holds (l.eraseIdx i) := by
  have hcheck := h.checkIndex_of_lt hi
  have hsize := h.size_eq
  obtain ⟨left, c, right, harr, rfl, rfl⟩ := h.exists_split hi
  by_cases hone : s.size = 1
  · obtain ⟨rfl, rfl⟩ : left = [] ∧ right = [] := by
      rw [hsize] at hone
      simp at hone
      constructor <;> apply List.length_eq_zero_iff.1 <;> omega
    obtain ⟨_, hrelease, -⟩ := Tidy.release (p := []) harr.tidy harr.linked.node_eq
    obtain ⟨passed, hfind⟩ := harr.findSlot_length (l := [])
    rw [List.length_nil] at hfind
    rw [List.length_nil] at hcheck
    refine ⟨empty, ?_, holds_empty⟩
    simp [delete, hcheck, hfind, hone, hrelease, bind, Except.bind, Except.map]
  · obtain ⟨t, hunlink, ht⟩ := harr.unlink
    obtain ⟨passed, hfind⟩ := harr.findSlot_length
    refine ⟨t, ?_, _, ht, ?_⟩
    · simp [delete, hcheck, hfind, hone, hunlink, bind, Except.bind]
    · simp [List.eraseIdx_append]

/-- At any other index nothing is taken out. -/
theorem Holds.delete_of_le (h : s.Holds l) (hi : l.length ≤ i) :
    s.delete i = .error (.outOfRange i l.length) := by
  rw [delete, h.checkIndex_of_le hi]
  rfl

/-- Taking out the last item. -/
theorem Holds.remove {a : α} (h : s.Holds (l ++ [a])) :
    ∃ t, s.remove = .ok (a, t) ∧ t.Holds l := by
  have hsize := h.size_eq
  obtain ⟨t, hdelete, ht⟩ := h.delete_of_lt (i := l.length) (by simp)
  refine ⟨t, ?_, by simpa [List.eraseIdx_append] using ht⟩
  rw [List.length_append, List.length_singleton] at hsize
  simpa [Sequence.remove, hsize] using hdelete

/-- There is no last item to take out of an empty sequence. -/
theorem Holds.remove_of_nil (h : s.Holds []) : s.remove = .error .empty := by
  simp [Sequence.remove, h.size_eq]

/-! ## Exchanging items -/

/-- The item of an index is exchanged, and the old one given back. -/
theorem Holds.set_of_lt (h : s.Holds l) (hi : i < l.length) (a : α) :
    ∃ t, s.set i a = .ok (l[i], t) ∧ t.Holds (l.set i a) := by
  have hcheck := h.checkIndex_of_lt hi
  obtain ⟨left, c, right, harr, rfl, rfl⟩ := h.exists_split hi
  obtain ⟨slot, t, hreplace, ht⟩ := harr.replace a
  obtain ⟨passed, hfind⟩ := harr.findSlot_length
  refine ⟨t, ?_, _, ht, ?_⟩
  · simp [Sequence.set, hcheck, hfind, hreplace, bind, Except.bind]
  · simp

/-- At any other index nothing is exchanged. -/
theorem Holds.set_of_le (h : s.Holds l) (hi : l.length ≤ i) (a : α) :
    s.set i a = .error (.outOfRange i l.length) := by
  rw [Sequence.set, h.checkIndex_of_le hi]
  rfl

end

end GraphCalc.Sequence
