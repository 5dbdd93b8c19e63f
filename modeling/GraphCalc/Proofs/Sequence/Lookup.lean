import GraphCalc.Proofs.Sequence.Refinement

/-!
# Finding an index

An index is found by a walk over the links of the chain, and the walk says which slots it has left
behind, one for each link. A chain is visited alike from both ends (`Arranged.visits`), so a walk from
either end leads to the slot of the index, and the one that the operations make follows no more than half
as many links as there are items (`findSlot_of_history`).
-/

namespace GraphCalc.Sequence

variable {α : Type}

/-! ## Slots along the links -/

/-- The links away from an end lead from this one through these slots in turn, and no further. -/
inductive Visits (s : Sequence α) (e : End) : Option Nat → List Nat → Prop
  | nil : Visits s e none []
  | cons {slot : Nat} {n : Node α} {slots : List Nat} : s.node? slot = some n →
      Visits s e (onward n e) slots → Visits s e (some slot) (slot :: slots)

section
variable {s : Sequence α} {cells : List (Cell α)}

/-- From each end, the links visit the slots of the chain in the order that the end sees. -/
theorem Linked.visits (h : Linked s.node? none cells none) (e : End) {l r : List (Cell α)}
    (hcells : e.order cells = l ++ r) : s.Visits e (firstSlot r) (r.map Cell.slot) := by
  induction r generalizing l with
  | nil => exact .nil
  | cons c r ih =>
    obtain ⟨n, hn, -, honward⟩ := h.onward_eq hcells
    refine .cons hn ?_
    rw [honward]
    exact ih (l := l ++ [c]) (by simpa using hcells)

/-- The links from an end visit all slots of the chain. -/
theorem Arranged.visits (h : s.Arranged cells) (e : End) :
    s.Visits e (s.first e) (e.order (cells.map Cell.slot)) := by
  rw [h.first_eq, ← End.map_order]
  exact h.linked.visits e (l := []) rfl

end

/-! ## The walk to an index -/

/-- How many links the route to an index has: as many as there are items beyond it on the nearer side.
In the middle of an even number of items the route takes the front, which is one further away. -/
theorem route_links {size i : Nat} (hi : i < size) :
    (route size i).2 = min i (size - 1 - i) + if size % 2 = 0 ∧ i = size / 2 then 1 else 0 := by
  unfold route
  split
  all_goals
    split
    all_goals omega

/-- After any history, the links from both ends visit the slots of the items in order, and a walk from
either end over the items beyond an index ends in the slot of the index. The walk that the operations make
to an index is one of these two: it leaves behind as many slots as there are items between the index and
the nearer end, or one more in the middle of an even number of items, and so never more than half as many
as there are items. -/
theorem findSlot_of_history (history : List (Action α)) :
    let s := (History.run Action.perform history empty).2
    let l := (History.run Action.onList history []).2
    ∃ chain : List Nat, chain.length = s.size ∧ l.length = s.size ∧
      s.Visits .front s.front chain ∧ s.Visits .back s.back chain.reverse ∧
      ∀ i < s.size, ∃ slot n passed, chain[i]? = some slot ∧
        s.node slot = .ok n ∧ l[i]? = some n.value ∧
        s.walk .front i s.front [] = .ok ⟨(chain.take i).reverse, slot⟩ ∧
        s.walk .back (s.size - 1 - i) s.back [] =
          .ok ⟨(chain.reverse.take (s.size - 1 - i)).reverse, slot⟩ ∧
        s.findSlot i = .ok ⟨passed, slot⟩ ∧
        (passed.reverse = chain.take i ∨ passed.reverse = chain.reverse.take (s.size - 1 - i)) ∧
        passed.length = (min i (s.size - 1 - i) + if s.size % 2 = 0 ∧ i = s.size / 2 then 1 else 0) ∧
        passed.length ≤ s.size / 2 := by
  intro s l
  have hholds : s.Holds l := (holds_empty.run history).2
  obtain ⟨cells, h, hl⟩ := hholds
  have hsize := h.size_eq
  refine ⟨cells.map Cell.slot, by rw [List.length_map, hsize], by rw [← hl, List.length_map, hsize],
    h.visits .front, h.visits .back, fun i hi => ?_⟩
  have hlt : i < cells.length := by omega
  have hsplit : cells = cells.take i ++ cells[i] :: cells.drop (i + 1) := by
    rw [← List.drop_eq_getElem_cons hlt, List.take_append_drop]
  have hnode := Arranged.node_eq (l := cells.take i) (c := cells[i]) (by rwa [← hsplit])
  obtain ⟨passed, hfind, hlength, hpassed⟩ := h.findSlot_eq hlt
  simp only [← List.map_reverse, ← List.map_take]
  refine ⟨cells[i].slot, _, passed, by simp [hlt], hnode, by simp [← hl, hlt], ?_, ?_, hfind, hpassed,
    ?_, ?_⟩
  · rw [h.walk_front hlt, List.map_reverse]
  · rw [h.walk_back hlt, List.map_reverse]
  · rw [hlength, route_links hi]
  · rw [hlength, route_links hi]
    split <;> omega

/-- Of four items, the third is found from the front over two links, although it has one item behind. -/
theorem findSlot_of_history_third_of_four :
    let s := (History.run Action.perform [.push 5, .push 6, .push 7, .push 8] (empty (α := Nat))).2
    2 < s.size ∧ ∃ slot passed, s.findSlot 2 = .ok ⟨passed, slot⟩ ∧ passed.length = 2 ∧
      ∃ passed', s.walk .back 1 s.back [] = .ok ⟨passed', slot⟩ := by
  intro s
  have hsize : s.size = 4 := by decide
  have hlt : 2 < s.size := by omega
  obtain ⟨_, -, -, -, -, hall⟩ := findSlot_of_history [.push 5, .push 6, .push 7, .push 8]
  obtain ⟨slot, _, passed, -, -, -, -, hback, hfind, -, hlength, -⟩ := hall 2 hlt
  refine ⟨hlt, slot, passed, hfind, ?_, _, hback⟩
  rw [hlength]
  decide

end GraphCalc.Sequence
