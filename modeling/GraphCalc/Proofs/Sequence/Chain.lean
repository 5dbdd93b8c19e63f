import GraphCalc.Sequence.Cursor

/-!
# Chains of nodes

A sequence that its operations build lies in its arena as a chain of `Cell`s: slots with the items in
them, from the front to the back. `Arranged` says how the fields of a sequence hold such a chain. Its
two parts can be used apart while an operation is under way: `Linked` is about the links of a segment
of the chain, and `Tidy` about which slots are taken and which are free.

A chain looks the same from both ends (`Linked.onward_eq`), so an index is found from either
(`Arranged.findSlot_eq`), and `items` gives the chain's items (`Arranged.items_eq`).
-/

namespace GraphCalc.Sequence

variable {α : Type}

/-- A slot and the item in it. -/
structure Cell (α : Type) where
  slot : Nat
  value : α

/-- The slot at the front of a segment. -/
def firstSlot (l : List (Cell α)) : Option Nat := l.head?.map Cell.slot

/-- The slot at the back of a segment. -/
def lastSlot (l : List (Cell α)) : Option Nat := l.getLast?.map Cell.slot

@[simp] theorem firstSlot_nil : firstSlot ([] : List (Cell α)) = none := rfl

@[simp] theorem firstSlot_cons (c : Cell α) (l : List (Cell α)) :
    firstSlot (c :: l) = some c.slot := rfl

/-- The slot at the front of two segments is that of the first one that is not empty. -/
@[simp] theorem firstSlot_append (l r : List (Cell α)) :
    firstSlot (l ++ r) = (firstSlot l).or (firstSlot r) := by
  cases l <;> simp

@[simp] theorem lastSlot_nil : lastSlot ([] : List (Cell α)) = none := rfl

/-- The slot at the back of two segments is that of the last one that is not empty. -/
@[simp] theorem lastSlot_append (l r : List (Cell α)) :
    lastSlot (l ++ r) = (lastSlot r).or (lastSlot l) := by
  cases h : r.getLast? <;> simp [lastSlot, h]

/-- The slot at the back is that of the first cell only if no other follows. -/
@[simp] theorem lastSlot_cons (c : Cell α) (l : List (Cell α)) :
    lastSlot (c :: l) = (lastSlot l).or (some c.slot) := by
  rw [← List.singleton_append, lastSlot_append]
  rfl

@[simp] theorem firstSlot_reverse (l : List (Cell α)) : firstSlot l.reverse = lastSlot l := by
  simp [firstSlot, lastSlot]

/-- The node in a slot, if there is one. -/
def node? (s : Sequence α) (slot : Nat) : Option (Node α) := s.slots[slot]?.join

/-- A slot that has a node is not vacant. -/
theorem node_eq {s : Sequence α} {slot : Nat} {n : Node α} (h : s.node? slot = some n) :
    s.node slot = .ok n := by
  rw [node?, Option.join_eq_some_iff] at h
  rw [node, h]

/-! ## Links -/

/-- The cells lie in the nodes, each linked to the cells beside it; `before` and `after` are the
links at the two ends. -/
def Linked (nodes : Nat → Option (Node α)) :
    Option Nat → List (Cell α) → Option Nat → Prop
  | _, [], _ => True
  | before, c :: l, after =>
    nodes c.slot = some ⟨c.value, before, (firstSlot l).or after⟩ ∧
      Linked nodes (some c.slot) l after

section
variable {nodes nodes' : Nat → Option (Node α)} {before after : Option Nat} {l r : List (Cell α)}

/-- A segment is linked if its two parts are, with links to each other between them. -/
theorem linked_append :
    Linked nodes before (l ++ r) after ↔
      Linked nodes before l ((firstSlot r).or after) ∧
        Linked nodes ((lastSlot l).or before) r after := by
  induction l generalizing before with
  | nil => simp [Linked]
  | cons c l ih => simp [Linked, ih, Option.or_assoc, and_assoc]

/-- Links depend on the nodes of the segment only. -/
theorem Linked.congr (h : Linked nodes before l after)
    (heq : ∀ slot ∈ l.map Cell.slot, nodes' slot = nodes slot) : Linked nodes' before l after := by
  induction l generalizing before with
  | nil => trivial
  | cons c l ih =>
    obtain ⟨hnode, hrest⟩ := h
    refine ⟨?_, ih hrest fun slot hslot => heq slot (List.mem_cons_of_mem _ hslot)⟩
    rw [heq c.slot (List.mem_cons_self ..), hnode]

/-- The node of a cell inside a segment. -/
theorem Linked.node_eq {c : Cell α} (h : Linked nodes before (l ++ c :: r) after) :
    nodes c.slot = some ⟨c.value, (lastSlot l).or before, (firstSlot r).or after⟩ :=
  (linked_append.1 h).2.1

end

/-! ## The two ends -/

/-- A list as it is seen from an end. -/
def End.order {β : Type} : End → List β → List β
  | .front, l => l
  | .back, l => l.reverse

@[simp] theorem End.length_order {β : Type} (e : End) (l : List β) :
    (e.order l).length = l.length := by
  cases e <;> simp [End.order]

/-- Items may be mapped before or after they are put in the order of an end. -/
theorem End.map_order {β γ : Type} (e : End) (f : β → γ) (l : List β) :
    (e.order l).map f = e.order (l.map f) := by
  cases e <;> simp [End.order]

/-- From each end, the onward link of a node leads to the next cell. -/
theorem Linked.onward_eq {nodes : Nat → Option (Node α)} {cells l r : List (Cell α)} {c : Cell α}
    {e : End} (h : Linked nodes none cells none) (hcells : e.order cells = l ++ c :: r) :
    ∃ n, nodes c.slot = some n ∧ n.value = c.value ∧ onward n e = firstSlot r := by
  cases e with
  | front =>
    subst hcells
    exact ⟨_, h.node_eq, rfl, by simp [onward]⟩
  | back =>
    have hrev : cells = r.reverse ++ c :: l.reverse := by
      rw [← List.reverse_reverse cells]
      exact (congrArg List.reverse hcells).trans (by simp)
    subst hrev
    refine ⟨_, h.node_eq, rfl, ?_⟩
    rw [onward, ← firstSlot_reverse, List.reverse_reverse, Option.or_none]

/-- Following links from a cell leads as many cells on, and leaves the slots of the cells before behind. -/
theorem Linked.walk_eq {s : Sequence α} {cells : List (Cell α)} (h : Linked s.node? none cells none)
    (e : End) (k : Nat) {l r : List (Cell α)} (hcells : e.order cells = l ++ r) (hk : k < r.length)
    (passed : List Nat) :
    s.walk e k (firstSlot r) passed =
      .ok ⟨((r.take k).map Cell.slot).reverse ++ passed, r[k].slot⟩ := by
  -- The slots passed before are general: each link adds one to them.
  induction k generalizing l r passed with
  | zero =>
    cases r with
    | nil => cases hk
    | cons c r => rfl
  | succ k ih =>
    cases r with
    | nil => cases hk
    | cons c r =>
      obtain ⟨n, hn, -, honward⟩ := h.onward_eq hcells
      have hrest := ih (l := l ++ [c]) (r := r) (by simpa using hcells)
        (Nat.lt_of_succ_lt_succ hk) (c.slot :: passed)
      rw [firstSlot_cons, walk, Sequence.node_eq hn]
      change s.walk e k (onward n e) (c.slot :: passed) = _
      rw [honward, hrest]
      simp

/-! ## The arena -/

/-- These slots are taken, each by one cell, and all others of the arena are free, each once. -/
structure Tidy (s : Sequence α) (used : List Nat) : Prop where
  used_nodup : used.Nodup
  mem_used : ∀ slot, slot ∈ used ↔ (s.node? slot).isSome
  free_nodup : s.free.Nodup
  mem_free : ∀ slot, slot ∈ s.free ↔ slot < s.slots.size ∧ s.node? slot = none

/-- The sequence holds these cells, from front to back. -/
structure Arranged (s : Sequence α) (cells : List (Cell α)) : Prop where
  linked : Linked s.node? none cells none
  tidy : s.Tidy (cells.map Cell.slot)
  front_eq : s.front = firstSlot cells
  back_eq : s.back = lastSlot cells
  size_eq : s.size = cells.length

/-- The empty sequence has no cells, and no slots. -/
theorem arranged_empty : (empty : Sequence α).Arranged [] := by
  refine ⟨trivial, ⟨.nil, ?_, .nil, ?_⟩, rfl, rfl, rfl⟩ <;> simp [empty, node?]

section
variable {s : Sequence α} {cells : List (Cell α)}

/-- The slot at an end is that of the first cell seen from there. -/
theorem Arranged.first_eq (h : s.Arranged cells) (e : End) :
    s.first e = firstSlot (e.order cells) := by
  cases e with
  | front => exact h.front_eq
  | back => exact h.back_eq.trans (firstSlot_reverse cells).symm

/-- A walk from the front over the items before an index ends in the slot of the index. -/
theorem Arranged.walk_front (h : s.Arranged cells) {i : Nat} (hi : i < cells.length) :
    s.walk .front i s.front [] = .ok ⟨((cells.take i).map Cell.slot).reverse, cells[i].slot⟩ := by
  have hwalk := h.linked.walk_eq .front i (l := []) rfl hi []
  rwa [List.append_nil, ← h.front_eq] at hwalk

/-- So does a walk from the back over the items behind it. -/
theorem Arranged.walk_back (h : s.Arranged cells) {i : Nat} (hi : i < cells.length) :
    s.walk .back (s.size - 1 - i) s.back [] =
      .ok ⟨((cells.reverse.take (s.size - 1 - i)).map Cell.slot).reverse, cells[i].slot⟩ := by
  have hk : s.size - 1 - i < cells.reverse.length := by
    rw [List.length_reverse, h.size_eq]
    omega
  have hcell : cells.reverse[s.size - 1 - i] = cells[i] := by
    rw [List.getElem_reverse]
    congr 1
    rw [h.size_eq]
    omega
  have hwalk := h.linked.walk_eq .back _ (l := []) (r := cells.reverse) rfl hk []
  rwa [List.append_nil, firstSlot_reverse, ← h.back_eq, hcell] at hwalk

/-- The route from an end to an index counts the items beyond it on that side. -/
theorem route_eq_or (size i : Nat) :
    route size i = (.front, i) ∨ route size i = (.back, size - 1 - i) := by
  unfold route
  split
  · right
    rw [Nat.sub_right_comm]
  · exact .inl rfl

/-- The walk to an index is one of these two, and follows as many links as the route says. -/
theorem Arranged.findSlot_eq (h : s.Arranged cells) {i : Nat} (hi : i < cells.length) :
    ∃ passed, s.findSlot i = .ok ⟨passed, cells[i].slot⟩ ∧
      passed.length = (route s.size i).2 ∧
      (passed.reverse = (cells.take i).map Cell.slot ∨
        passed.reverse = (cells.reverse.take (s.size - 1 - i)).map Cell.slot) := by
  have hsize := h.size_eq
  unfold findSlot
  rcases route_eq_or s.size i with hroute | hroute
  · rw [hroute]
    refine ⟨_, h.walk_front hi, ?_, .inl (List.reverse_reverse _)⟩
    rw [List.length_reverse, List.length_map, List.length_take]
    omega
  · rw [hroute]
    refine ⟨_, h.walk_back hi, ?_, .inr (List.reverse_reverse _)⟩
    rw [List.length_reverse, List.length_map, List.length_take, List.length_reverse]
    omega

/-- The walk to the index of a cell ends in its slot. -/
theorem Arranged.findSlot_length {l r : List (Cell α)} {c : Cell α} (h : s.Arranged (l ++ c :: r)) :
    ∃ passed, s.findSlot l.length = .ok ⟨passed, c.slot⟩ := by
  obtain ⟨passed, hfind, -⟩ := h.findSlot_eq (i := l.length) (by simp)
  exact ⟨passed, by simpa using hfind⟩

/-- The node in the slot of a cell has the item of the cell and the slots of the cells beside it. -/
theorem Arranged.node_eq {l r : List (Cell α)} {c : Cell α} (h : s.Arranged (l ++ c :: r)) :
    s.node c.slot = .ok ⟨c.value, lastSlot l, firstSlot r⟩ := by
  have hnode := h.linked.node_eq
  simp only [Option.or_none] at hnode
  exact Sequence.node_eq hnode

/-! ## Cursors -/

/-- A cursor that stands at a cell yields its item and moves on. -/
theorem Arranged.next_eq (h : s.Arranged cells) {l r : List (Cell α)} {c : Cell α} {e : End}
    (hcells : e.order cells = l ++ c :: r) {cur : Cursor} (hpos : cur.position e = some c.slot)
    (hrem : cur.remaining ≠ 0) :
    cur.next s e = .ok (some c.value, cur.advance (firstSlot r) e) := by
  obtain ⟨n, hn, hvalue, honward⟩ := h.linked.onward_eq hcells
  simp [Cursor.next, hrem, hpos, Sequence.node_eq hn, Except.map, hvalue, honward]

/-- At the end where a cursor moves on, it stands where the link leads. -/
theorem Cursor.position_advance (cur : Cursor) (link : Option Nat) (e : End) :
    (cur.advance link e).position e = link := by
  cases e <;> rfl

/-- A cursor that moves on has one item less to go. -/
theorem Cursor.remaining_advance (cur : Cursor) (link : Option Nat) (e : End) :
    (cur.advance link e).remaining = cur.remaining - 1 := by
  cases e <;> rfl

/-- A cursor at the first of the last cells yields their items. -/
theorem Arranged.take_eq (h : s.Arranged cells) (e : End) {l r : List (Cell α)}
    (hcells : e.order cells = l ++ r) {cur : Cursor} (hpos : cur.position e = firstSlot r)
    (hrem : cur.remaining = r.length) :
    Cursor.take s e r.length cur = .ok (r.map Cell.value) := by
  induction r generalizing l cur with
  | nil => rfl
  | cons c r ih =>
    have hrest : Cursor.take s e r.length (cur.advance (firstSlot r) e) = .ok (r.map Cell.value) := by
      refine ih (l := l ++ [c]) (by simpa using hcells) (cur.position_advance _ e) ?_
      rw [cur.remaining_advance, hrem]
      rfl
    simp only [List.length_cons, Cursor.take,
      h.next_eq hcells hpos (by rw [hrem]; exact Nat.succ_ne_zero _)]
    change (Cursor.take s e r.length _ >>= _) = _
    rw [hrest]
    rfl

/-- The content from an end is the items of the cells from that end. -/
theorem Arranged.items_eq (h : s.Arranged cells) (e : End) :
    s.items e = .ok (e.order (cells.map Cell.value)) := by
  have hlen : s.size = (e.order cells).length := by rw [h.size_eq, End.length_order]
  rw [items, hlen, ← End.map_order]
  have hpos : s.cursor.position e = firstSlot (e.order cells) := by
    rw [← h.first_eq]
    cases e <;> rfl
  exact h.take_eq e (l := []) rfl hpos hlen

end

end GraphCalc.Sequence
