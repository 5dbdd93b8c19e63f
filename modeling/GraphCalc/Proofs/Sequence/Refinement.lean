import GraphCalc.Proofs.History
import GraphCalc.Proofs.Sequence.Contents

/-!
# Histories of sequences

`Action` lists what can be done to a sequence, `Action.perform` does it, and `Action.onList` is the
same on a plain list. `run_refines_list` says that after any history of actions a sequence cannot be
told from the list: it has given the same answers, and gives the same ones to all that can be asked
about its content.
-/

namespace GraphCalc.Sequence

variable {α : Type}

/-- What can be done to a sequence. What is taken out of it by an iterator that owns it is popped from
an end. -/
inductive Action (α : Type) where
  | clear
  | ofList (items : List α)
  | copy
  | push (a : α)
  | extend (items : List α)
  | insert (index : Nat) (a : α)
  | delete (index : Nat)
  | remove
  | set (index : Nat) (a : α)
  | pop (e : End)

/-- Does it: the item that is displaced, if any, and the sequence from then on. -/
def Action.perform : Action α → Sequence α → Except Error (Option α × Sequence α)
  | clear, _ => .ok (none, empty)
  | ofList items, _ => (Sequence.ofList items).map fun t => (none, t)
  | copy, s => .ok (none, s)
  | push a, s => (s.push a).map fun t => (none, t)
  | extend items, s => (s.extend items).map fun t => (none, t)
  | insert i a, s => (s.insert i a).map fun t => (none, t)
  | delete i, s => (s.delete i).map fun (a, t) => (some a, t)
  | remove, s => s.remove.map fun (a, t) => (some a, t)
  | set i a, s => (s.set i a).map fun (a, t) => (some a, t)
  | pop e, s => s.pop e

/-- The same on a list. -/
def Action.onList : Action α → List α → Except Error (Option α × List α)
  | clear, _ => .ok (none, [])
  | ofList items, _ => .ok (none, items)
  | copy, l => .ok (none, l)
  | push a, l => .ok (none, l ++ [a])
  | extend items, l => .ok (none, l ++ items)
  | insert i a, l =>
    if i ≤ l.length then .ok (none, l.insertIdx i a) else .error (.outOfRange i l.length)
  | delete i, l =>
    if h : i < l.length then .ok (some l[i], l.eraseIdx i) else .error (.outOfRange i l.length)
  | remove, l =>
    match l.getLast? with
    | some a => .ok (some a, l.dropLast)
    | none => .error .empty
  | set i a, l =>
    if h : i < l.length then .ok (some l[i], l.set i a) else .error (.outOfRange i l.length)
  | pop .front, l => .ok (l.head?, l.tail)
  | pop .back, l => .ok (l.getLast?, l.dropLast)

section
variable {s t : Sequence α} {l l' : List α}

/-- Popping takes the first item from an end, if there is one. -/
theorem Holds.pop_front (h : s.Holds l) :
    ∃ t, s.pop .front = .ok (l.head?, t) ∧ t.Holds l.tail := by
  unfold pop
  cases l with
  | nil => exact ⟨s, by simp [h.size_eq], h⟩
  | cons a l =>
    obtain ⟨t, hdelete, ht⟩ := h.delete_of_lt (i := 0) (by simp)
    exact ⟨t, by simp [h.size_eq, hdelete, Except.map], ht⟩

/-- At the back this is the last item. -/
theorem Holds.pop_back (h : s.Holds l) :
    ∃ t, s.pop .back = .ok (l.getLast?, t) ∧ t.Holds l.dropLast := by
  unfold pop
  rcases List.eq_nil_or_concat l with rfl | ⟨l, a, rfl⟩
  · exact ⟨s, by simp [h.size_eq], h⟩
  · rw [List.concat_eq_append] at h ⊢
    obtain ⟨t, hremove, ht⟩ := h.remove
    exact ⟨t, by simp [h.size_eq, hremove, Except.map], by simpa using ht⟩

/-- Each action on a sequence is the action on the list of its items. -/
theorem Holds.perform (h : s.Holds l) (action : Action α) :
    History.Agree Holds (action.perform s) (action.onList l) := by
  cases action with
  | clear => exact .ok _ holds_empty
  | copy => exact .ok _ h
  | ofList items =>
    obtain ⟨t, hextend, ht⟩ := holds_empty.extend items
    rw [Action.perform, ofList, hextend]
    exact .ok _ ht
  | push a =>
    obtain ⟨t, hpush, ht⟩ := h.push a
    rw [Action.perform, hpush]
    exact .ok _ ht
  | extend items =>
    obtain ⟨t, hextend, ht⟩ := h.extend items
    rw [Action.perform, hextend]
    exact .ok _ ht
  | insert i a =>
    -- From here on the list decides by the index, and the sequence has been shown to follow it.
    rw [Action.perform, Action.onList]
    split
    · next hi =>
      obtain ⟨t, hinsert, ht⟩ := h.insert_of_le hi a
      rw [hinsert]
      exact .ok _ ht
    · next hi =>
      rw [h.insert_of_lt (Nat.lt_of_not_le hi) a]
      exact .error _
  | delete i =>
    rw [Action.perform, Action.onList]
    split
    · next hi =>
      obtain ⟨t, hdelete, ht⟩ := h.delete_of_lt hi
      rw [hdelete]
      exact .ok _ ht
    · next hi =>
      rw [h.delete_of_le (Nat.le_of_not_lt hi)]
      exact .error _
  | remove =>
    rw [Action.perform, Action.onList]
    rcases List.eq_nil_or_concat l with rfl | ⟨l, a, rfl⟩
    · rw [h.remove_of_nil]
      exact .error _
    · rw [List.concat_eq_append] at h ⊢
      obtain ⟨t, hremove, ht⟩ := h.remove
      simp only [hremove, List.getLast?_concat, List.dropLast_concat]
      exact .ok _ ht
  | set i a =>
    rw [Action.perform, Action.onList]
    split
    · next hi =>
      obtain ⟨t, hset, ht⟩ := h.set_of_lt hi a
      rw [hset]
      exact .ok _ ht
    · next hi =>
      rw [h.set_of_le (Nat.le_of_not_lt hi) a]
      exact .error _
  | pop e =>
    cases e with
    | front =>
      obtain ⟨t, hpop, ht⟩ := h.pop_front
      rw [Action.perform, hpop]
      exact .ok _ ht
    | back =>
      obtain ⟨t, hpop, ht⟩ := h.pop_back
      rw [Action.perform, hpop]
      exact .ok _ ht

/-- After any history the answers are those of the list, and the sequence holds its items. -/
theorem Holds.run (h : s.Holds l) (history : List (Action α)) :
    (History.run Action.perform history s).1 = (History.run Action.onList history l).1 ∧
      (History.run Action.perform history s).2.Holds (History.run Action.onList history l).2 :=
  History.run_related (fun action _ _ h => Holds.perform h action) history h

/-- The item of any index, or the refusal. -/
theorem Holds.get_eq (h : s.Holds l) (i : Nat) :
    s.get i = if hi : i < l.length then .ok l[i] else .error (.outOfRange i l.length) := by
  split
  · next hi => exact h.get_of_lt hi
  · next hi => exact h.get_of_le (Nat.le_of_not_lt hi)

/-! ## Comparing items -/

variable [BEq α]

/-- An item is looked up from the front, so the first index is found. -/
theorem Holds.indexOf?_eq (h : s.Holds l) (a : α) :
    s.indexOf? a = .ok (l.findIdx? (· == a)) := by
  rw [indexOf?, h.items_eq]
  rfl

/-- An item is contained if one equal to it is. -/
theorem Holds.contains_eq (h : s.Holds l) (a : α) : s.contains a = .ok (l.any (· == a)) := by
  rw [contains, h.indexOf?_eq, Except.map, List.findIdx?_isSome]

/-- Lists of one length are equal if they are item by item. -/
theorem beq_eq_all_zip (hlen : l.length = l'.length) :
    (l == l') = (l.zip l').all fun (a, b) => a == b := by
  induction l generalizing l' with
  | nil =>
    cases l' with
    | nil => rfl
    | cons => cases hlen
  | cons a l ih =>
    cases l' with
    | nil => cases hlen
    | cons b l' => simp [ih (Nat.succ.inj hlen)]

/-- Sequences are compared item by item, if there are as many on both sides. -/
theorem Holds.equal_eq (h : s.Holds l) (h' : t.Holds l') :
    s.equal t = .ok (l.length == l'.length && (l.zip l').all fun (a, b) => a == b) := by
  rw [equal, h.size_eq, h'.size_eq, h.items_eq, h'.items_eq]
  by_cases hlen : l.length = l'.length
  · simp [hlen, End.order, bind, Except.bind, pure, Except.pure, beq_eq_all_zip hlen]
  · simp [hlen, pure, Except.pure]

end

/-- After any history a sequence is the plain list of the same history. It has answered every action
as the list does, refusing what the list refuses. Its items are those of the list, from either end;
size, ends, items by index and the look-up of items are those of the list; and it equals a sequence of
another history if the lists have one length and equal items. -/
theorem run_refines_list [BEq α] (history : List (Action α)) :
    ∃ s l, History.run Action.perform history empty =
        ((History.run Action.onList history []).1, s) ∧
      (History.run Action.onList history []).2 = l ∧
      s.items .front = .ok l ∧ s.items .back = .ok l.reverse ∧
      s.size = l.length ∧ s.isEmpty = l.isEmpty ∧
      s.peek .front = .ok l.head? ∧ s.peek .back = .ok l.getLast? ∧
      (∀ i, s.get i = if h : i < l.length then .ok l[i] else .error (.outOfRange i l.length)) ∧
      (∀ a, s.indexOf? a = .ok (l.findIdx? (· == a)) ∧ s.contains a = .ok (l.any (· == a))) ∧
      ∀ history' : List (Action α),
        let t := (History.run Action.perform history' empty).2
        let l' := (History.run Action.onList history' []).2
        s.equal t = .ok (l.length == l'.length && (l.zip l').all fun (a, b) => a == b) := by
  obtain ⟨hanswers, h⟩ := holds_empty.run history
  refine ⟨_, _, Prod.ext hanswers rfl, rfl, h.items_eq .front, h.items_eq .back, h.size_eq,
    h.isEmpty_eq, h.peek_eq .front, ?_, h.get_eq, fun a => ⟨h.indexOf?_eq a, h.contains_eq a⟩,
    fun history' => h.equal_eq (holds_empty.run history').2⟩
  rw [h.peek_eq .back, End.order, List.head?_reverse]

end GraphCalc.Sequence
