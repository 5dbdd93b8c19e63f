import GraphCalc.Proofs.Sequence.Chain

/-!
# Changing a chain

Every change of a sequence is made between two segments of its chain: a node is put between them, is
taken out from there, or is exchanged for another. The segments stay linked in themselves
(`Parted`), and relinking them (`Parted.join`) is the same in all cases; only the links they get
differ. From this come the four changes, `Arranged.push`, `Arranged.insertBefore`,
`Arranged.unlink` and `Arranged.replace`.
-/

namespace GraphCalc.Sequence

variable {α : Type} {s t : Sequence α} {used p q : List Nat} {slot : Nat} {n : Node α}

/-! ## Writing one slot -/

/-- One slot written, and nothing else. -/
def write (s : Sequence α) (slot : Nat) (n? : Option (Node α)) : Sequence α :=
  { s with slots := s.slots.setIfInBounds slot n? }

/-- A write changes the slot that is written and no other. -/
theorem node?_write (hslot : slot < s.slots.size) (n? : Option (Node α)) (i : Nat) :
    (s.write slot n?).node? i = if i = slot then n? else s.node? i := by
  unfold node? write
  by_cases hi : i = slot
  · subst hi
    simp [hslot]
  · rw [Array.getElem?_setIfInBounds_ne (Ne.symm hi), if_neg hi]

/-- A slot with a node is in the arena. -/
theorem lt_size_of_node? (h : s.node? slot = some n) : slot < s.slots.size := by
  rw [node?, Option.join_eq_some_iff] at h
  exact (Array.getElem?_eq_some_iff.1 h).1

section
variable {nodes nodes' : Nat → Option (Node α)} {n? : Option (Node α)} {first last : Option Nat}
  {l r : List (Cell α)} {c : Cell α}

/-- A segment does not see what is written outside of it. -/
theorem Linked.frame (h : Linked nodes first l last) (hslot : slot ∉ l.map Cell.slot)
    (hnode : ∀ i, nodes' i = if i = slot then n? else nodes i) : Linked nodes' first l last := by
  refine h.congr fun i hi => ?_
  rw [hnode, if_neg]
  rintro rfl
  exact hslot hi

/-- A segment whose last node gets another onward link. -/
theorem Linked.relinkLast {a : Option Nat} (h : Linked nodes first (l ++ [c]) last)
    (hslot : c.slot ∉ l.map Cell.slot)
    (hnode : ∀ i, nodes' i =
      if i = c.slot then some ⟨c.value, (lastSlot l).or first, a⟩ else nodes i) :
    Linked nodes' first (l ++ [c]) a :=
  linked_append.2 ⟨(linked_append.1 h).1.frame hslot hnode, by simp [Linked, hnode]⟩

/-- A segment whose first node gets another link back. -/
theorem Linked.relinkFirst {b : Option Nat} (h : Linked nodes first (c :: r) last)
    (hslot : c.slot ∉ r.map Cell.slot)
    (hnode : ∀ i, nodes' i =
      if i = c.slot then some ⟨c.value, b, (firstSlot r).or last⟩ else nodes i) :
    Linked nodes' b (c :: r) last :=
  ⟨by simp [hnode], h.2.frame hslot hnode⟩

end

/-! ## Taking and freeing slots -/

/-- A slot that is not taken can be taken. -/
theorem Tidy.take (h : s.Tidy (p ++ q)) (hfresh : s.node? slot = none)
    (hnode : ∀ i, t.node? i = if i = slot then some n else s.node? i) (hnodup : t.free.Nodup)
    (hmem : ∀ i, i ∈ t.free ↔ i < t.slots.size ∧ t.node? i = none) :
    t.Tidy (p ++ slot :: q) := by
  have hslot : slot ∉ p ++ q := by simp [h.mem_used, hfresh]
  refine ⟨?_, fun i => ?_, hnodup, hmem⟩
  · rw [List.perm_middle.nodup_iff, List.nodup_cons]
    exact ⟨hslot, h.used_nodup⟩
  · rw [List.perm_middle.mem_iff, List.mem_cons, h.mem_used, hnode]
    by_cases hi : i = slot <;> simp [hi]

/-- A new node gets a slot that was not taken. -/
theorem Tidy.allocate (h : s.Tidy (p ++ q)) (n : Node α) :
    ∃ slot t, s.allocate n = (slot, t) ∧ slot ∉ p ++ q ∧
      t.Tidy (p ++ slot :: q) ∧
      (∀ i, t.node? i = if i = slot then some n else s.node? i) ∧
      t.front = s.front ∧ t.back = s.back ∧ t.size = s.size := by
  unfold Sequence.allocate
  cases hfree : s.free with
  | cons slot free =>
    obtain ⟨hlt, hnone⟩ := (h.mem_free slot).1 (by simp [hfree])
    let t : Sequence α := { s.write slot (some n) with free }
    have hnode : ∀ i, t.node? i = if i = slot then some n else s.node? i := node?_write hlt (some n)
    have hnodup : slot ∉ free ∧ free.Nodup := by simpa [hfree] using h.free_nodup
    refine ⟨slot, t, rfl, by simp [h.mem_used, hnone], h.take hnone hnode hnodup.2 fun i => ?_, hnode,
      rfl, rfl, rfl⟩
    have hi : i = slot ∨ i ∈ free ↔ i < s.slots.size ∧ s.node? i = none := by
      simpa [hfree] using h.mem_free i
    have hsize : t.slots.size = s.slots.size := Array.size_setIfInBounds
    by_cases heq : i = slot
    · simp [hnode, heq, hnodup.1, t]
    · simpa [hnode, heq, hsize] using hi
  | nil =>
    let t : Sequence α := { s with slots := s.slots.push (some n), free := [] }
    have hnone : s.node? s.slots.size = none := by simp [node?]
    have hnode (i : Nat) : t.node? i = if i = s.slots.size then some n else s.node? i := by
      rw [node?, Array.getElem?_push]
      split <;> rfl
    refine ⟨s.slots.size, t, by simp [t], by simp [h.mem_used, hnone],
      h.take hnone hnode .nil fun i => ?_, hnode, rfl, rfl, rfl⟩
    have hi : i < s.slots.size → ¬ s.node? i = none := by simpa [hfree] using h.mem_free i
    have hsize : t.slots.size = s.slots.size + 1 := Array.size_push _
    by_cases heq : i = s.slots.size
    · simp [hnode, heq, t]
    · have hlt : i < s.slots.size + 1 → i < s.slots.size := by omega
      simpa [hnode, heq, hsize, t] using fun h => hi (hlt h)

/-- A node that is released leaves its slot free. -/
theorem Tidy.release (h : s.Tidy (p ++ slot :: q)) (hn : s.node? slot = some n) :
    ∃ t, s.release slot = .ok (n, t) ∧ t.Tidy (p ++ q) ∧
      (∀ i, t.node? i = if i = slot then none else s.node? i) ∧
      t.front = s.front ∧ t.back = s.back ∧ t.size = s.size := by
  let t : Sequence α := { s.write slot none with free := slot :: s.free }
  have hlt := lt_size_of_node? hn
  have hnode : ∀ i, t.node? i = if i = slot then none else s.node? i := node?_write hlt none
  have hnodup := h.used_nodup
  rw [List.perm_middle.nodup_iff, List.nodup_cons] at hnodup
  have hrelease : s.release slot = .ok (n, t) := by
    rw [node?, Option.join_eq_some_iff] at hn
    rw [Sequence.release, hn]
    rfl
  refine ⟨t, hrelease, ⟨hnodup.2, fun i => ?_, ?_, fun i => ?_⟩, hnode, rfl, rfl, rfl⟩
  · have hi := h.mem_used i
    rw [List.perm_middle.mem_iff, List.mem_cons] at hi
    by_cases heq : i = slot
    · simp [hnode, heq, hnodup.1]
    · simpa [hnode, heq] using hi
  · exact List.nodup_cons.2 ⟨by simp [h.mem_free, hn], h.free_nodup⟩
  · have hsize : t.slots.size = s.slots.size := Array.size_setIfInBounds
    by_cases heq : i = slot
    · simp [hnode, heq, hsize, hlt, t]
    · simp [hnode, heq, hsize, h.mem_free, t]

/-- Which slots are taken is a matter of the arena alone. -/
theorem Tidy.of_arena (h : s.Tidy used) (hslots : t.slots = s.slots) (hfree : t.free = s.free) :
    t.Tidy used := by
  obtain ⟨slots, free, _, _, _⟩ := t
  cases hslots
  cases hfree
  exact ⟨h.used_nodup, h.mem_used, h.free_nodup, h.mem_free⟩

/-- A node whose links are written stays in its slot. -/
theorem Tidy.write (h : s.Tidy used) (hn : s.node? slot = some n) (n' : Node α) :
    (s.write slot (some n')).Tidy used := by
  have hnode := node?_write (lt_size_of_node? hn) (some n')
  have hsize : (s.write slot (some n')).slots.size = s.slots.size := Array.size_setIfInBounds
  refine ⟨h.used_nodup, fun i => ?_, h.free_nodup, fun i => (h.mem_free i).trans ?_⟩
  · by_cases heq : i = slot <;> simp [h.mem_used, hnode, heq, hn]
  · by_cases heq : i = slot <;> simp [hnode, hsize, heq, hn]

/-! ## Joining two segments -/

/-- The sequence has two segments at its ends, with these links at their inner ends. -/
structure Parted (s : Sequence α) (l r : List (Cell α)) (a b : Option Nat) : Prop where
  left : Linked s.node? none l a
  right : Linked s.node? b r none
  nodup : ((l ++ r).map Cell.slot).Nodup
  front_eq : l ≠ [] → s.front = firstSlot l
  back_eq : r ≠ [] → s.back = lastSlot r

/-- One sequence is another one in which links have been written in these slots. -/
structure Relinked (s t : Sequence α) (slots : List Nat) : Prop where
  size_eq : t.size = s.size
  tidy : ∀ {used}, s.Tidy used → t.Tidy used
  node?_eq : ∀ i ∉ slots, t.node? i = s.node? i

/-- Changing links twice is changing links. -/
theorem Relinked.trans {s t u : Sequence α} {slots : List Nat} (h : Relinked s t slots)
    (h' : Relinked t u slots) : Relinked s u slots :=
  ⟨h'.size_eq.trans h.size_eq, fun hs => h'.tidy (h.tidy hs),
    fun i hi => (h'.node?_eq i hi).trans (h.node?_eq i hi)⟩

section
variable {l m r : List (Cell α)} {a b : Option Nat} {c : Cell α} {v : α}

/-- The segments on both sides of a part of the chain. -/
theorem Arranged.parted (h : s.Arranged (l ++ (m ++ r))) : ∃ a b, s.Parted l r a b := by
  obtain ⟨hl, hmr⟩ := linked_append.1 h.linked
  have hsub : (l ++ r).Sublist (l ++ (m ++ r)) := (List.sublist_append_right m r).append_left l
  refine ⟨_, _, hl, (linked_append.1 hmr).2, h.tidy.used_nodup.sublist (hsub.map _), fun hl => ?_,
    fun hr => ?_⟩
  · obtain ⟨c, l, rfl⟩ := List.exists_cons_of_ne_nil hl
    simp [h.front_eq]
  · obtain ⟨r, c, rfl⟩ := (List.eq_nil_or_concat r).resolve_left hr
    simp [h.back_eq]

/-- What is written outside of the two segments leaves them as they are. -/
theorem Parted.frame {n? : Option (Node α)} (h : s.Parted l r a b)
    (hslot : slot ∉ (l ++ r).map Cell.slot)
    (hnode : ∀ i, t.node? i = if i = slot then n? else s.node? i) (hfront : t.front = s.front)
    (hback : t.back = s.back) : t.Parted l r a b := by
  rw [List.map_append, List.mem_append, not_or] at hslot
  exact ⟨h.left.frame hslot.1 hnode, h.right.frame hslot.2 hnode, h.nodup,
    fun hl => hfront.trans (h.front_eq hl), fun hr => hback.trans (h.back_eq hr)⟩

/-- A node of one of the segments whose links are written. -/
theorem relinked_write {n' : Node α} {slots : List Nat} (hn : s.node? slot = some n)
    (hslot : slot ∈ slots) : Relinked s (s.write slot (some n')) slots := by
  refine ⟨rfl, fun h => h.write hn n', fun i hi => ?_⟩
  rw [node?_write (lt_size_of_node? hn), if_neg]
  rintro rfl
  exact hi hslot

/-- The left segment gets another link at its inner end. -/
theorem Parted.linkAfter (h : s.Parted l r a b) (link : Option Nat) :
    ∃ t, s.linkAfter (lastSlot l) link = .ok t ∧ t.Parted l r link b ∧
      Relinked s t ((l ++ r).map Cell.slot) ∧ t.front = (firstSlot l).or link ∧
      t.back = s.back := by
  rcases List.eq_nil_or_concat l with rfl | ⟨l, c, rfl⟩
  · exact ⟨{ s with front := link }, rfl, ⟨trivial, h.right, h.nodup, nofun, h.back_eq⟩,
      ⟨rfl, fun h => h.of_arena rfl rfl, fun _ _ => rfl⟩, rfl, rfl⟩
  rw [List.concat_eq_append] at h ⊢
  have hc := h.left.node_eq
  simp only [firstSlot_nil, Option.none_or] at hc
  have hnode := node?_write (lt_size_of_node? hc) (some ⟨c.value, (lastSlot l).or none, link⟩)
  have hout : c.slot ∉ l.map Cell.slot ∧ c.slot ∉ r.map Cell.slot := by
    have hnodup := h.nodup
    simp only [List.map_append, List.map_cons, List.append_assoc, List.singleton_append,
      List.perm_middle.nodup_iff, List.nodup_cons] at hnodup
    simpa using hnodup.1
  have hfront : s.front = firstSlot (l ++ [c]) := h.front_eq (by simp)
  refine ⟨s.write c.slot _, ?_, ⟨h.left.relinkLast hout.1 hnode, h.right.frame hout.2 hnode, h.nodup,
    h.front_eq, h.back_eq⟩, relinked_write hc (by simp), ?_, rfl⟩
  · rw [lastSlot_append, lastSlot_cons, lastSlot_nil, Option.none_or, Option.some_or,
      Sequence.linkAfter, setNext, Sequence.node_eq hc]
    rfl
  · change s.front = _
    rw [hfront]
    simp

/-- The right segment gets another link at its inner end. -/
theorem Parted.linkBefore (h : s.Parted l r a b) (link : Option Nat) :
    ∃ t, s.linkBefore (firstSlot r) link = .ok t ∧ t.Parted l r a link ∧
      Relinked s t ((l ++ r).map Cell.slot) ∧ t.front = s.front ∧
      t.back = (lastSlot r).or link := by
  cases r with
  | nil =>
    exact ⟨{ s with back := link }, rfl, ⟨h.left, trivial, h.nodup, h.front_eq, nofun⟩,
      ⟨rfl, fun h => h.of_arena rfl rfl, fun _ _ => rfl⟩, rfl, rfl⟩
  | cons c r =>
    have hc := h.right.1
    have hnode := node?_write (lt_size_of_node? hc) (some ⟨c.value, link, (firstSlot r).or none⟩)
    have hout : c.slot ∉ l.map Cell.slot ∧ c.slot ∉ r.map Cell.slot := by
      have hnodup := h.nodup
      simp only [List.map_append, List.map_cons, List.perm_middle.nodup_iff, List.nodup_cons] at hnodup
      simpa using hnodup.1
    have hback : s.back = lastSlot (c :: r) := h.back_eq (by simp)
    refine ⟨s.write c.slot _, ?_, ⟨h.left.frame hout.1 hnode, h.right.relinkFirst hout.2 hnode,
      h.nodup, h.front_eq, h.back_eq⟩, relinked_write hc (by simp), rfl, ?_⟩
    · rw [firstSlot_cons, Sequence.linkBefore, setPrev, Sequence.node_eq hc]
      rfl
    · change s.back = _
      rw [hback]
      simp

/-- Both segments get other links at their inner ends. -/
theorem Parted.join (h : s.Parted l r a b) (link link' : Option Nat) :
    ∃ s' t, s.linkAfter (lastSlot l) link = .ok s' ∧ s'.linkBefore (firstSlot r) link' = .ok t ∧
      t.Parted l r link link' ∧ Relinked s t ((l ++ r).map Cell.slot) ∧
      t.front = (firstSlot l).or link ∧ t.back = (lastSlot r).or link' := by
  obtain ⟨s', hafter, hparted', hrelinked', hfront', -⟩ := h.linkAfter link
  obtain ⟨t, hbefore, hparted, hrelinked, hfront, hback⟩ := hparted'.linkBefore link'
  exact ⟨s', t, hafter, hbefore, hparted, hrelinked'.trans hrelinked, hfront.trans hfront', hback⟩

/-! ## The four changes -/

/-- Puts a new node between two segments, which may have had a part of the chain between them. -/
theorem Arranged.place (h : s.Arranged (l ++ (m ++ r))) (v : α) :
    ∃ slot s₁ s₂ t, s.allocate ⟨v, lastSlot l, firstSlot r⟩ = (slot, s₁) ∧
      s₁.linkAfter (lastSlot l) (some slot) = .ok s₂ ∧
      s₂.linkBefore (firstSlot r) (some slot) = .ok t ∧
      Linked t.node? none (l ++ ⟨slot, v⟩ :: r) none ∧
      t.Tidy (l.map Cell.slot ++ slot :: (m ++ r).map Cell.slot) ∧
      t.front = firstSlot (l ++ ⟨slot, v⟩ :: r) ∧ t.back = lastSlot (l ++ ⟨slot, v⟩ :: r) ∧
      t.size = s.size ∧ ∀ c ∈ m, t.node? c.slot = s.node? c.slot := by
  obtain ⟨a, b, hparted⟩ := h.parted
  have htidy := h.tidy
  have hnodup := h.tidy.used_nodup
  rw [List.map_append] at htidy
  obtain ⟨slot, s₁, halloc, hfresh, htidy₁, hnode₁, hfront₁, hback₁, hsize₁⟩ :=
    htidy.allocate ⟨v, lastSlot l, firstSlot r⟩
  have hslot : slot ∉ (l ++ r).map Cell.slot := by
    simp only [List.map_append, List.mem_append, not_or] at hfresh ⊢
    exact ⟨hfresh.1, hfresh.2.2⟩
  obtain ⟨s₂, t, hafter, hbefore, hjoined, hrelinked, hfront, hback⟩ :=
    (hparted.frame hslot hnode₁ hfront₁ hback₁).join (some slot) (some slot)
  have hnode : t.node? slot = some ⟨v, lastSlot l, firstSlot r⟩ := by
    rw [hrelinked.node?_eq slot hslot, hnode₁, if_pos rfl]
  refine ⟨slot, s₁, s₂, t, halloc, hafter, hbefore, linked_append.2 ⟨hjoined.left, ?_, hjoined.right⟩,
    hrelinked.tidy htidy₁, by simpa using hfront, by simpa [Option.or_assoc] using hback,
    hrelinked.size_eq.trans hsize₁, fun c hc => ?_⟩
  · simpa using hnode
  have hmid : c.slot ∈ m.map Cell.slot := List.mem_map_of_mem hc
  have hne : c.slot ≠ slot := by
    rintro rfl
    simp [hmid] at hfresh
  rw [hrelinked.node?_eq, hnode₁, if_neg hne]
  simp only [List.map_append, List.nodup_append, List.mem_append] at hnodup ⊢
  grind

/-- A new item comes after the others. -/
theorem Arranged.push (h : s.Arranged l) (v : α) :
    ∃ slot t, s.push v = .ok t ∧ t.Arranged (l ++ [⟨slot, v⟩]) := by
  obtain ⟨slot, s₁, s₂, t, halloc, hafter, hbefore, hlinked, htidy, hfront, hback, hsize, -⟩ :=
    Arranged.place (m := []) (r := []) (by simpa using h) v
  refine ⟨slot, { t with size := t.size + 1 }, ?_, hlinked, ?_, hfront, hback, ?_⟩
  · cases hbefore
    rw [firstSlot_nil] at halloc
    simp [Sequence.push, h.back_eq, halloc, hafter, bind, Except.bind, pure, Except.pure]
  · have htidy' : t.Tidy ((l ++ [(⟨slot, v⟩ : Cell α)]).map Cell.slot) := by simpa using htidy
    exact htidy'.of_arena rfl rfl
  · simp [hsize, h.size_eq]

/-- A new item comes in front of the one in a slot. -/
theorem Arranged.insertBefore (h : s.Arranged (l ++ c :: r)) (v : α) :
    ∃ slot t, s.insertBefore c.slot v = .ok t ∧ t.Arranged (l ++ ⟨slot, v⟩ :: c :: r) := by
  obtain ⟨slot, s₁, s₂, t, halloc, hafter, hbefore, hlinked, htidy, hfront, hback, hsize, -⟩ :=
    Arranged.place (m := []) (r := c :: r) h v
  rw [firstSlot_cons] at halloc hbefore
  refine ⟨slot, { t with size := t.size + 1 }, ?_, hlinked, ?_, hfront, hback, ?_⟩
  · simp [Sequence.insertBefore, h.node_eq, halloc, hafter, hbefore, bind, Except.bind, pure,
      Except.pure]
  · have htidy' : t.Tidy ((l ++ (⟨slot, v⟩ : Cell α) :: c :: r).map Cell.slot) := by simpa using htidy
    exact htidy'.of_arena rfl rfl
  · simp [hsize, h.size_eq, Nat.add_assoc]

/-- The item in a slot is exchanged for another, in a slot of its own. -/
theorem Arranged.replace (h : s.Arranged (l ++ c :: r)) (v : α) :
    ∃ slot t, s.replace c.slot v = .ok (c.value, t) ∧ t.Arranged (l ++ ⟨slot, v⟩ :: r) := by
  obtain ⟨slot, s₁, s₂, s₃, halloc, hafter, hbefore, hlinked, htidy, hfront, hback, hsize, hmid⟩ :=
    Arranged.place (m := [c]) h v
  have hold : s₃.node? c.slot = some ⟨c.value, lastSlot l, firstSlot r⟩ := by
    rw [hmid c (by simp), h.linked.node_eq]
    simp
  obtain ⟨t, hrelease, htidy', hnode, hfront', hback', hsize'⟩ :=
    Tidy.release (p := l.map Cell.slot ++ [slot]) (q := r.map Cell.slot)
      (by simpa using htidy) hold
  have hout : c.slot ∉ (l ++ ⟨slot, v⟩ :: r).map Cell.slot := by
    have hnodup := htidy.used_nodup
    simp only [List.map_append, List.map_cons, List.singleton_append, List.nodup_append,
      List.nodup_cons, List.mem_append, List.mem_cons] at hnodup ⊢
    grind
  refine ⟨slot, t, ?_, hlinked.frame hout hnode, by simpa using htidy', hfront'.trans hfront,
    hback'.trans hback, ?_⟩
  · simp [Sequence.replace, h.node_eq, halloc, hafter, hbefore, hrelease, bind, Except.bind, pure,
      Except.pure]
  · rw [hsize', hsize, h.size_eq]
    simp

/-- The item in a slot is taken out. -/
theorem Arranged.unlink (h : s.Arranged (l ++ c :: r)) :
    ∃ t, s.unlink c.slot = .ok (c.value, t) ∧ t.Arranged (l ++ r) := by
  have htidy := h.tidy
  rw [List.map_append, List.map_cons] at htidy
  obtain ⟨s₁, hrelease, htidy₁, hnode₁, hfront₁, hback₁, hsize₁⟩ := htidy.release h.linked.node_eq
  have hslot : c.slot ∉ (l ++ r).map Cell.slot := by
    have hnodup := htidy.used_nodup
    rw [List.perm_middle.nodup_iff, List.nodup_cons] at hnodup
    rw [List.map_append]
    exact hnodup.1
  obtain ⟨a, b, hparted⟩ := Arranged.parted (m := [c]) h
  obtain ⟨s₂, t, hafter, hbefore, hjoined, hrelinked, hfront, hback⟩ :=
    (hparted.frame hslot hnode₁ hfront₁ hback₁).join (firstSlot r) (lastSlot l)
  have hlinked : Linked t.node? none (l ++ r) none :=
    linked_append.2 ⟨by simpa using hjoined.left, by simpa using hjoined.right⟩
  refine ⟨{ t with size := t.size - 1 }, ?_, hlinked, ?_, ?_, ?_, ?_⟩
  · simp [Sequence.unlink, hrelease, hafter, hbefore, bind, Except.bind, pure, Except.pure]
  · rw [List.map_append]
    exact (hrelinked.tidy htidy₁).of_arena rfl rfl
  · simpa using hfront
  · simpa using hback
  · simp [hrelinked.size_eq, hsize₁, h.size_eq]

end

end GraphCalc.Sequence
