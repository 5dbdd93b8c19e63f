import Mathlib.Data.List.Perm.Basic
import GraphCalc.Proofs.Failures
import GraphCalc.Proofs.Sequence.Iteration
import GraphCalc.Proofs.Sequence.Lookup

/-!
# The arena of a sequence

`WellFormed` says of the fields of a sequence what its operations rely on: the links in both directions
visit the same slots, each once, and the free list has just the others. It follows from the arrangement
in a chain (`Arranged.wellFormed`), which every action keeps, so that no action and no question about the
content meets a broken arena.

Slots are only added when all of them are taken, and all are dropped with the last item. As an exchange
allocates before it releases, there is at most one more slot than the largest size since the sequence
was last empty (`arena_of_history`).
-/

namespace GraphCalc.Sequence

variable {α : Type}

/-! ## Well-formed arenas -/

/-- Seen from this end, the node in the first slot comes just before the one in the second. -/
def Links (s : Sequence α) (e : End) (a b : Nat) : Prop :=
  ∃ n, s.node? a = some n ∧ onward n e = some b

/-- The slots of the chain, from the front to the back, and the free slots make up the arena. -/
structure WellFormed (s : Sequence α) (chain : List Nat) : Prop where
  forward : s.Visits .front s.front chain
  backward : s.Visits .back s.back chain.reverse
  distinct : chain.Nodup
  length_eq : chain.length = s.size
  back_eq : s.back = chain.getLast?
  linked_back : ∀ a b, s.Links .front a b ↔ s.Links .back b a
  front_eq_none : s.front = none ↔ s.size = 0
  back_eq_none : s.back = none ↔ s.size = 0
  free_nodup : s.free.Nodup
  mem_free : ∀ slot, slot ∈ s.free ↔ slot < s.slots.size ∧ s.node? slot = none
  chained_or_free : ∀ slot < s.slots.size, slot ∈ chain ↔ slot ∉ s.free
  slots_eq : s.slots.size = s.size + s.free.length

section
variable {s : Sequence α} {cells : List (Cell α)}

/-- A slot that holds a node is that of a cell, with the cells on both sides of it. -/
theorem Arranged.exists_cell (h : s.Arranged cells) {slot : Nat} {n : Node α}
    (hn : s.node? slot = some n) :
    ∃ l c r, cells = l ++ c :: r ∧ c.slot = slot ∧ n = ⟨c.value, lastSlot l, firstSlot r⟩ := by
  have hmem : slot ∈ cells.map Cell.slot := by
    rw [h.tidy.mem_used, hn]
    rfl
  obtain ⟨c, hc, rfl⟩ := List.mem_map.1 hmem
  obtain ⟨l, r, rfl⟩ := List.append_of_mem hc
  have hnode := h.linked.node_eq
  rw [Option.or_none, Option.or_none, hn] at hnode
  exact ⟨l, c, r, rfl, rfl, Option.some.inj hnode⟩

/-- A node that is linked to another is linked back. -/
theorem Arranged.links_iff (h : s.Arranged cells) (a b : Nat) :
    s.Links .front a b ↔ s.Links .back b a := by
  constructor
  · rintro ⟨n, hn, hnext⟩
    obtain ⟨l, c, r, rfl, rfl, rfl⟩ := h.exists_cell hn
    cases r with
    | nil => cases hnext
    | cons d r =>
      cases hnext
      have hd := Linked.node_eq (l := l ++ [c]) (by simpa using h.linked)
      exact ⟨_, hd, by simp [onward]⟩
  · rintro ⟨n, hn, hprev⟩
    obtain ⟨l, d, r, rfl, rfl, rfl⟩ := h.exists_cell hn
    rcases List.eq_nil_or_concat l with rfl | ⟨l, c, rfl⟩
    · cases hprev
    · rw [List.concat_eq_append] at h hprev
      have hc := Linked.node_eq (l := l) (c := c) (r := d :: r) (by simpa using h.linked)
      have hslot : c.slot = a := by simpa [onward] using hprev
      subst hslot
      exact ⟨_, hc, by simp [onward]⟩

/-- The slots of the chain and the free slots are all slots, each once. -/
theorem Tidy.perm_range {used : List Nat} (h : s.Tidy used) :
    (used ++ s.free).Perm (List.range s.slots.size) := by
  have hused {slot : Nat} (hmem : slot ∈ used) : slot < s.slots.size ∧ s.node? slot ≠ none := by
    obtain ⟨n, hn⟩ := Option.isSome_iff_exists.1 ((h.mem_used slot).1 hmem)
    exact ⟨lt_size_of_node? hn, by simp [hn]⟩
  refine (List.perm_ext_iff_of_nodup ?_ List.nodup_range).2 fun slot => ?_
  · refine List.nodup_append.2 ⟨h.used_nodup, h.free_nodup, fun a ha b hb hab => ?_⟩
    subst hab
    exact (hused ha).2 ((h.mem_free a).1 hb).2
  · rw [List.mem_append, List.mem_range, h.mem_free]
    constructor
    · rintro (hmem | ⟨hlt, -⟩)
      · exact (hused hmem).1
      · exact hlt
    · intro hlt
      cases hn : s.node? slot with
      | none => exact .inr ⟨hlt, rfl⟩
      | some n => exact .inl ((h.mem_used slot).2 (by simp [hn]))

/-- Every slot is taken by an item or free. -/
theorem Arranged.slots_eq (h : s.Arranged cells) : s.slots.size = s.size + s.free.length := by
  have hlength := h.tidy.perm_range.length_eq
  rw [List.length_append, List.length_map, List.length_range, ← h.size_eq] at hlength
  exact hlength.symm

/-- A sequence that is arranged in a chain has a well-formed arena. -/
theorem Arranged.wellFormed (h : s.Arranged cells) : s.WellFormed (cells.map Cell.slot) where
  forward := h.visits .front
  backward := h.visits .back
  distinct := h.tidy.used_nodup
  length_eq := by rw [List.length_map, h.size_eq]
  back_eq := by rw [h.back_eq, lastSlot, List.getLast?_map]
  linked_back := h.links_iff
  front_eq_none := by
    rw [h.front_eq, h.size_eq]
    cases cells <;> simp
  back_eq_none := by
    rw [h.back_eq, h.size_eq]
    cases cells <;> simp
  free_nodup := h.tidy.free_nodup
  mem_free := h.tidy.mem_free
  chained_or_free slot hlt := by
    rw [h.tidy.mem_used, h.tidy.mem_free, Option.isSome_iff_ne_none, ne_eq, and_iff_right hlt]
  slots_eq := h.slots_eq

end

/-! ## Broken arenas -/

/-- What only a broken arena gives. -/
def Error.isBroken : Error → Bool
  | vacant _ | releasedTwice _ | shortChain => true
  | empty | outOfRange .. => false

/-- An answer that does not come from a broken arena. -/
def Sound {β : Type} (answer : Except Error β) : Prop := ∀ err, answer = .error err → err.isBroken = false

/-- An answer that is not an error is sound. -/
theorem Sound.ok {β : Type} (b : β) : Sound (.ok b) := nofun

/-- The same, where the answer is known from elsewhere. -/
theorem sound_of_eq_ok {β : Type} {answer : Except Error β} {b : β} (h : answer = .ok b) :
    Sound answer := by
  rw [h]
  exact .ok b

/-- What an action on a list refuses, it refuses for the index or for want of items. -/
theorem Action.sound_onList (action : Action α) (l : List α) : Sound (action.onList l) := by
  intro err herr
  cases action with
  | clear | ofList | copy | push | extend => cases herr
  | insert | delete | set =>
    rw [Action.onList] at herr
    split at herr
    · cases herr
    · cases herr
      rfl
  | remove =>
    rw [Action.onList] at herr
    split at herr
    · cases herr
    · cases herr
      rfl
  | pop e => cases e <;> cases herr

/-- If no operation gives such an answer, no history does. -/
theorem sound_of_run {ι β σ : Type} {step : ι → σ → Except Error (β × σ)}
    (hstep : ∀ i s, Sound (step i s)) (history : List ι) (s : σ) :
    ∀ answer ∈ (History.run step history s).1, Sound answer := by
  induction history generalizing s with
  | nil => exact nofun
  | cons i is ih =>
    have hi := hstep i s
    unfold History.run
    cases h : step i s with
    | ok bt =>
      obtain ⟨b, t⟩ := bt
      exact List.forall_mem_cons.2 ⟨.ok b, ih t⟩
    | error e =>
      refine List.forall_mem_cons.2 ⟨fun err herr => hi err ?_, ih s⟩
      cases herr
      exact h

/-! ## How many slots there are -/

section
variable {s t : Sequence α} {l : List α} {a : α}

/-- The slots that no item takes are free. -/
theorem Holds.slots_eq (h : s.Holds l) : s.slots.size = l.length + s.free.length := by
  rw [← h.size_eq]
  obtain ⟨cells, h, -⟩ := h
  exact h.slots_eq

/-- A new node gets a slot of its own only if all slots are taken. -/
theorem Holds.slots_allocate_le (h : s.Holds l) (n : Node α) :
    (s.allocate n).2.slots.size ≤ max s.slots.size (l.length + 1) := by
  have hslots := h.slots_eq
  unfold allocate
  split
  · rw [Array.size_setIfInBounds]
    exact Nat.le_max_left ..
  · next hfree => simp [hslots, hfree]

/-- Linking changes a node in its slot and adds none. -/
theorem slots_linkAfter {prev link : Option Nat} (h : s.linkAfter prev link = .ok t) :
    t.slots.size = s.slots.size := by
  cases prev with
  | none =>
    cases h
    rfl
  | some slot =>
    obtain ⟨n, -, h⟩ := ok_of_bind h
    cases h
    exact Array.size_setIfInBounds

/-- Neither does the link in the other direction. -/
theorem slots_linkBefore {next link : Option Nat} (h : s.linkBefore next link = .ok t) :
    t.slots.size = s.slots.size := by
  cases next with
  | none =>
    cases h
    rfl
  | some slot =>
    obtain ⟨n, -, h⟩ := ok_of_bind h
    cases h
    exact Array.size_setIfInBounds

/-- A slot that is freed stays in the arena. -/
theorem slots_release {slot : Nat} {n : Node α} (h : s.release slot = .ok (n, t)) :
    t.slots.size = s.slots.size := by
  unfold release at h
  split at h
  · cases h
    exact Array.size_setIfInBounds
  · cases h

/-- Appending an item takes a free slot or, if all are taken, one more. -/
theorem Holds.slots_push_le (hs : s.Holds l) (h : s.push a = .ok t) :
    t.slots.size ≤ max s.slots.size (l.length + 1) := by
  obtain ⟨s', hafter, h⟩ := ok_of_bind h
  cases h
  change s'.slots.size ≤ _
  rw [slots_linkAfter hafter]
  exact hs.slots_allocate_le _

/-- So does putting an item in front of another. -/
theorem Holds.slots_insertBefore_le (hs : s.Holds l) {here : Nat}
    (h : s.insertBefore here a = .ok t) : t.slots.size ≤ max s.slots.size (l.length + 1) := by
  obtain ⟨n, -, h⟩ := ok_of_bind h
  obtain ⟨s₁, hafter, h⟩ := ok_of_bind h
  obtain ⟨s₂, hbefore, h⟩ := ok_of_bind h
  cases h
  change s₂.slots.size ≤ _
  rw [slots_linkBefore hbefore, slots_linkAfter hafter]
  exact hs.slots_allocate_le _

/-- Inserting does one of the two, depending on the index. -/
theorem Holds.slots_insert_le (hs : s.Holds l) {i : Nat} (h : s.insert i a = .ok t) :
    t.slots.size ≤ max s.slots.size (l.length + 1) := by
  unfold Sequence.insert at h
  split at h
  · cases h
  · split at h
    · exact hs.slots_push_le h
    · obtain ⟨walk, -, h⟩ := ok_of_bind h
      exact hs.slots_insertBefore_le h

/-- The new node of an exchange is allocated while the old one is still there. -/
theorem Holds.slots_set_le (hs : s.Holds l) {i : Nat} {b : α} (h : s.set i a = .ok (b, t)) :
    t.slots.size ≤ max s.slots.size (l.length + 1) := by
  obtain ⟨_, -, h⟩ := ok_of_bind h
  obtain ⟨walk, -, h⟩ := ok_of_bind h
  obtain ⟨n, -, h⟩ := ok_of_bind h
  obtain ⟨s₁, hafter, h⟩ := ok_of_bind h
  obtain ⟨s₂, hbefore, h⟩ := ok_of_bind h
  obtain ⟨⟨n', s₃⟩, hrelease, h⟩ := ok_of_bind h
  cases h
  rw [slots_release hrelease, slots_linkBefore hbefore, slots_linkAfter hafter]
  exact hs.slots_allocate_le _

/-- Taking a node out leaves its slot in the arena. -/
theorem slots_unlink {slot : Nat} (h : s.unlink slot = .ok (a, t)) :
    t.slots.size = s.slots.size := by
  obtain ⟨⟨n, s₁⟩, hrelease, h⟩ := ok_of_bind h
  obtain ⟨s₂, hafter, h⟩ := ok_of_bind h
  obtain ⟨s₃, hbefore, h⟩ := ok_of_bind h
  cases h
  exact (slots_linkBefore hbefore).trans ((slots_linkAfter hafter).trans (slots_release hrelease))

/-- Taking out an item keeps all slots, or none if it was the last item. -/
theorem slots_delete {i : Nat} (h : s.delete i = .ok (a, t)) :
    t.slots.size = if s.size = 1 then 0 else s.slots.size := by
  obtain ⟨_, -, h⟩ := ok_of_bind h
  obtain ⟨⟨passed, slot⟩, -, h⟩ := ok_of_bind h
  dsimp only at h
  split at h
  · next hone =>
    rw [if_pos hone]
    cases hrelease : s.release slot with
    | error err =>
      rw [hrelease] at h
      cases h
    | ok nt =>
      rw [hrelease] at h
      cases h
      rfl
  · next hone =>
    rw [if_neg hone]
    exact slots_unlink h

/-- Items are appended one by one, each in a free slot if there is one. -/
theorem Holds.slots_extend_le (hs : s.Holds l) {items : List α} (h : s.extend items = .ok t) :
    t.slots.size ≤ max s.slots.size (l.length + items.length) := by
  induction items generalizing s l with
  | nil =>
    cases h
    exact Nat.le_max_left ..
  | cons a items ih =>
    rw [Sequence.extend, List.foldlM_cons] at h
    obtain ⟨s', hpush, h⟩ := ok_of_bind h
    obtain ⟨_, hpush', hs'⟩ := hs.push a
    cases hpush.symm.trans hpush'
    have hrest := ih hs' h
    have hfirst := hs.slots_push_le hpush
    rw [List.length_append, List.length_singleton] at hrest
    rw [List.length_cons]
    omega

end

/-! ## The largest size -/

/-- The largest size since the sequence was last empty, once it has become this one. -/
def peakOf (peak : Nat) (s : Sequence α) : Nat :=
  if s.size = 0 then 0 else max peak s.size

/-- What counts of an earlier size after an action: collecting a list begins with an empty sequence. -/
def Action.peakBefore : Action α → Nat → Nat
  | ofList _, _ => 0
  | _, peak => peak

/-- The largest size since the sequence was last empty, over a history from this sequence on. -/
def peak (peakBefore : Nat) (s : Sequence α) : List (Action α) → Nat
  | [] => peakBefore
  | action :: history =>
    let t := History.next Action.perform action s
    peak (peakOf (action.peakBefore peakBefore) t) t history

/-- The sequence has at most one slot more than its largest size, and none when it is empty. -/
structure Roomy (s : Sequence α) (peak : Nat) : Prop where
  slots_le : s.slots.size ≤ peak + 1
  size_le : s.size ≤ peak
  slots_of_empty : s.size = 0 → s.slots.size = 0

/-- The empty sequence has no slots. -/
theorem roomy_empty : (empty : Sequence α).Roomy 0 := ⟨Nat.zero_le _, Nat.le_refl _, fun _ => rfl⟩

section
variable {s t : Sequence α} {l : List α} {peak : Nat}

/-- One step of a history: there are no more slots than before, than are needed for one more item, or
than there are items. -/
theorem Roomy.peakOf (h : s.Roomy peak)
    (hslots : t.slots.size ≤ max s.slots.size (max (s.size + 1) t.size))
    (hempty : t.size = 0 → t.slots.size = 0) : t.Roomy (peakOf peak t) := by
  have hbefore := h.slots_le
  have hsize := h.size_le
  unfold Sequence.peakOf
  split
  · next hzero => exact ⟨by rw [hempty hzero]; exact Nat.zero_le _, by omega, hempty⟩
  · exact ⟨by omega, Nat.le_max_right .., hempty⟩

/-- Taking out an item. -/
theorem Roomy.delete (h : s.Roomy peak) {i : Nat} {a : α} (hdelete : s.delete i = .ok (a, t))
    (hsize : t.size = s.size - 1) (hpos : s.size ≠ 0) : t.Roomy (Sequence.peakOf peak t) := by
  have hslots := slots_delete hdelete
  split at hslots
  · exact h.peakOf (by omega) (by omega)
  · exact h.peakOf (by omega) (by omega)

/-- Leaving the sequence as it is. -/
theorem Roomy.same (h : s.Roomy peak) : s.Roomy (Sequence.peakOf peak s) :=
  h.peakOf (Nat.le_max_left ..) h.slots_of_empty

/-- Adding items, or exchanging one. -/
theorem Roomy.grow (h : s.Roomy peak) (hs : s.Holds l) (hsize : t.size ≠ 0)
    (hslots : t.slots.size ≤ max s.slots.size (l.length + 1)) :
    t.Roomy (Sequence.peakOf peak t) := by
  have hlength := hs.size_eq
  exact h.peakOf (by omega) fun hzero => absurd hzero hsize

/-- Appending items. If there are none, the sequence may still be empty, and then it has no slots. -/
theorem Roomy.extend (h : s.Roomy peak) (hs : s.Holds l) {items : List α}
    (hextend : s.extend items = .ok t) (ht : t.Holds (l ++ items)) :
    t.Roomy (Sequence.peakOf peak t) := by
  have hlength := hs.size_eq
  have hsize := ht.size_eq
  have hslots := hs.slots_extend_le hextend
  rw [List.length_append] at hsize
  refine h.peakOf (by omega) fun hzero => ?_
  have hempty := h.slots_of_empty (by omega)
  omega

/-- Taking out the item of an index, if there is one. -/
theorem Roomy.delete_of_lt (h : s.Roomy peak) (hs : s.Holds l) {i : Nat} (hi : i < l.length) :
    ∃ t, s.delete i = .ok (l[i], t) ∧ t.Roomy (Sequence.peakOf peak t) := by
  obtain ⟨t, hdelete, ht⟩ := hs.delete_of_lt hi
  have hlength := hs.size_eq
  have hsize := ht.size_eq
  rw [List.length_eraseIdx_of_lt hi] at hsize
  exact ⟨t, hdelete, h.delete hdelete (by omega) (by omega)⟩

/-- Taking out the last item. -/
theorem Roomy.remove (h : s.Roomy peak) (hs : s.Holds l) (hpos : s.size ≠ 0) :
    ∃ a t, s.remove = .ok (a, t) ∧ t.Roomy (Sequence.peakOf peak t) := by
  have hlength := hs.size_eq
  obtain ⟨t, hdelete, ht⟩ := h.delete_of_lt hs (i := s.size - 1) (by omega)
  exact ⟨_, t, by rw [Sequence.remove, if_neg hpos, hdelete], ht⟩

/-- Taking out the item at an end, if there is one. -/
theorem Roomy.pop (h : s.Roomy peak) (hs : s.Holds l) (e : End) :
    ∃ b t, s.pop e = .ok (b, t) ∧ t.Roomy (Sequence.peakOf peak t) := by
  have hlength := hs.size_eq
  unfold Sequence.pop
  by_cases hzero : s.size = 0
  · exact ⟨none, s, by rw [if_pos hzero], h.same⟩
  · rw [if_neg hzero]
    cases e with
    | front =>
      obtain ⟨t, hdelete, ht⟩ := h.delete_of_lt hs (i := 0) (by omega)
      exact ⟨_, t, by rw [hdelete]; rfl, ht⟩
    | back =>
      obtain ⟨a, t, hremove, ht⟩ := h.remove hs hzero
      exact ⟨_, t, by simp only [hremove]; rfl, ht⟩

/-- Every action keeps the number of slots in bounds. -/
theorem Roomy.next (h : s.Roomy peak) (hs : s.Holds l) (action : Action α) :
    let t := History.next Action.perform action s
    t.Roomy (Sequence.peakOf (action.peakBefore peak) t) := by
  intro t
  have hlength := hs.size_eq
  have hok {b : Option α} {u : Sequence α} (hu : action.perform s = .ok (b, u)) : t = u := by
    simp only [t, History.next, hu]
  have herror {err : Error} (herr : action.perform s = .error err) : t = s := by
    simp only [t, History.next, herr]
  cases action with
  | clear => exact roomy_empty
  | copy => exact h.same
  | ofList items =>
    obtain ⟨u, hextend, hu⟩ := holds_empty.extend items
    rw [hok (u := u) (by rw [Action.perform, ofList, hextend]; rfl)]
    exact roomy_empty.extend holds_empty hextend hu
  | push a =>
    obtain ⟨u, hpush, hu⟩ := hs.push a
    rw [hok (u := u) (by rw [Action.perform, hpush]; rfl)]
    exact h.grow hs (by simp [hu.size_eq]) (hs.slots_push_le hpush)
  | extend items =>
    obtain ⟨u, hextend, hu⟩ := hs.extend items
    rw [hok (u := u) (by rw [Action.perform, hextend]; rfl)]
    exact h.extend hs hextend hu
  | insert i a =>
    -- What is refused leaves the sequence, and with it the number of slots.
    rcases Nat.lt_or_ge l.length i with hi | hi
    · rw [herror (by rw [Action.perform, hs.insert_of_lt hi a]; rfl)]
      exact h.same
    · obtain ⟨u, hinsert, hu⟩ := hs.insert_of_le hi a
      rw [hok (u := u) (by rw [Action.perform, hinsert]; rfl)]
      have hsize := hu.size_eq
      rw [List.length_insertIdx_of_le_length hi] at hsize
      exact h.grow hs (by omega) (hs.slots_insert_le hinsert)
  | set i a =>
    rcases Nat.lt_or_ge i l.length with hi | hi
    · obtain ⟨u, hset, hu⟩ := hs.set_of_lt hi a
      rw [hok (u := u) (by rw [Action.perform, hset]; rfl)]
      have hsize := hu.size_eq
      rw [List.length_set] at hsize
      exact h.grow hs (by omega) (hs.slots_set_le hset)
    · rw [herror (by rw [Action.perform, hs.set_of_le hi a]; rfl)]
      exact h.same
  | delete i =>
    rcases Nat.lt_or_ge i l.length with hi | hi
    · obtain ⟨u, hdelete, hu⟩ := h.delete_of_lt hs hi
      rw [hok (u := u) (by rw [Action.perform, hdelete]; rfl)]
      exact hu
    · rw [herror (by rw [Action.perform, hs.delete_of_le hi]; rfl)]
      exact h.same
  | remove =>
    by_cases hzero : s.size = 0
    · rw [herror (by rw [Action.perform, Sequence.remove, if_pos hzero]; rfl)]
      exact h.same
    · obtain ⟨a, u, hremove, hu⟩ := h.remove hs hzero
      rw [hok (u := u) (by rw [Action.perform, hremove]; rfl)]
      exact hu
  | pop e =>
    obtain ⟨b, u, hpop, hu⟩ := h.pop hs e
    rw [hok hpop]
    exact hu

/-- So does every history. -/
theorem Roomy.run (h : s.Roomy peak) (hs : s.Holds l) (history : List (Action α)) :
    (History.run Action.perform history s).2.Roomy (Sequence.peak peak s history) := by
  induction history generalizing s l peak with
  | nil => exact h
  | cons action history ih =>
    rw [History.run_snd_cons]
    obtain ⟨-, hnext⟩ := hs.run [action]
    rw [History.run_snd_cons, History.run_snd_cons] at hnext
    exact ih (h.next hs action) hnext

end

/-- After any history the arena is well formed, and nothing that was done or can be asked has met or
meets a broken one: not the actions of the history, nor the look-up of an index or of an end, nor any
word of calls to an iterator. The number of slots exceeds the largest size since the sequence was last
empty by one at most. -/
theorem arena_of_history (history : List (Action α)) :
    let s := (History.run Action.perform history empty).2
    (∃ chain, s.WellFormed chain) ∧
      (∀ answer ∈ (History.run Action.perform history empty).1, Sound answer) ∧
      (∀ i, Sound (s.get i)) ∧ (∀ e, Sound (s.peek e) ∧ Sound (s.items e)) ∧
      (∀ word, ∀ answer ∈ (History.run (Cursor.respond s) word s.cursor).1, Sound answer) ∧
      s.slots.size ≤ peak 0 empty history + 1 := by
  intro s
  obtain ⟨hanswers, hholds⟩ := (holds_empty (α := α)).run history
  have hget (i : Nat) : Sound (s.get i) := by
    rw [hholds.get_eq i]
    split
    · exact .ok _
    · intro err herr
      cases herr
      rfl
  have hends (e : End) : Sound (s.peek e) ∧ Sound (s.items e) :=
    ⟨sound_of_eq_ok (hholds.peek_eq e), sound_of_eq_ok (hholds.items_eq e)⟩
  have hroom := roomy_empty.run (holds_empty (α := α)) history
  obtain ⟨cells, h, -⟩ := hholds
  refine ⟨⟨_, h.wellFormed⟩, ?_, hget, hends, fun word => ?_, hroom.slots_le⟩
  · rw [hanswers]
    exact sound_of_run Action.sound_onList history []
  · obtain ⟨cur, hrun, -⟩ := run_dialogue (R := fun d (cur : Cursor) => cur.After cells d)
      (fun d c cur hcur => h.respond_eq hcur c) word h.after_cursor
    rw [hrun]
    intro answer hanswer
    obtain ⟨x, -, rfl⟩ := List.mem_map.1 hanswer
    exact .ok _

/-- The additional slot is needed: an item is exchanged by putting the new one beside it first. -/
example :
    let history : List (Action Nat) := [.push 1, .set 0 2]
    (History.run Action.perform history empty).2.slots.size = 2 ∧ peak 0 empty history = 1 := by
  decide

end GraphCalc.Sequence
