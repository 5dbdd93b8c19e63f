import GraphCalc.Store

/-!
# Stores as lists of entries

A store that its operations build is `Compact`: the live slots hold the entries in order, and the
other slots are vacant. Such a store can be replaced by the list of its entries. `Entries.lookup`,
`Entries.put` and `Entries.remove?` are the operations on that list, and `Compact.get?_eq`,
`Compact.put` and `Compact.remove?_eq` say that the operations of the store follow them.
-/

namespace GraphCalc

variable {κ α : Type}

/-! ## Lists of entries -/

namespace Entries

/-- The list without the item at an index, whose place the last item takes. -/
def moveLast (l : List (κ × α)) (i : Nat) : List (κ × α) :=
  match l.getLast? with
  | some last => l.dropLast.set i last
  | none => []

section
variable [BEq κ]

/-- Whether an entry is for a key. -/
abbrev isFor (k : κ) (e : κ × α) : Bool := e.1 == k

/-- The value of the first entry for a key. -/
def lookup (l : List (κ × α)) (k : κ) : Option α := (l.find? (isFor k)).map Prod.snd

/-- A key that is there gets the value in its place, and another is appended. -/
def put (l : List (κ × α)) (k : κ) (v : α) : List (κ × α) :=
  match l.findIdx? (isFor k) with
  | some i => l.modify i fun e => (e.1, v)
  | none => l ++ [(k, v)]

/-- Takes the first entry for a key out. -/
def remove? (l : List (κ × α)) (k : κ) : Option (α × List (κ × α)) :=
  (l.findIdx? (isFor k)).bind fun i => (l[i]?).map fun e => (e.2, moveLast l i)

end

/-- The last item is the one that takes the place. -/
theorem moveLast_concat (l : List (κ × α)) (e : κ × α) (i : Nat) :
    moveLast (l ++ [e]) i = l.set i e := by
  simp [moveLast]

section
variable [BEq κ] {l : List (κ × α)} {k : κ}

/-- A key that is not found has no index. -/
theorem findIdx?_eq_none (h : lookup l k = none) : l.findIdx? (isFor k) = none := by
  rw [List.findIdx?_eq_none_iff]
  simpa [lookup] using h

/-- A key that is not there is appended. -/
theorem put_of_absent (h : lookup l k = none) (v : α) : put l k v = l ++ [(k, v)] := by
  rw [put, findIdx?_eq_none h]

/-- An entry that is there stays when another is appended. -/
theorem lookup_append_of_some {v : α} (h : lookup l k = some v) (l' : List (κ × α)) :
    lookup (l ++ l') k = some v := by
  obtain ⟨e, he, rfl⟩ := Option.map_eq_some_iff.1 h
  rw [lookup, List.find?_append, he]
  rfl

variable [ReflBEq κ]

/-- The key of the last entry, if no entry before it is for the same key. -/
theorem findIdx?_last (h : lookup l k = none) (v : α) :
    (l ++ [(k, v)]).findIdx? (isFor k) = some l.length := by
  rw [List.findIdx?_append, findIdx?_eq_none h]
  simp

/-- A key that is there as the last entry gets the value in its place. -/
theorem put_last (h : lookup l k = none) (v w : α) :
    put (l ++ [(k, v)]) k w = l ++ [(k, w)] := by
  rw [put, findIdx?_last h]
  simp [List.modify_eq_take_drop]

/-- Taking out the last entry leaves those before it, in order. -/
theorem remove?_last (h : lookup l k = none) (v : α) :
    remove? (l ++ [(k, v)]) k = some (v, l) := by
  rw [remove?, findIdx?_last h]
  simp [moveLast_concat, List.set_eq_of_length_le]

end

end Entries

namespace Store

/-- The live slots hold the entries, in order, and the other slots are vacant. -/
structure Compact (s : Store κ α) : Prop where
  slots_eq : s.slots.toList = s.entries.map some ++ List.replicate (s.capacity - s.size) none
  length_entries : s.entries.length = s.size
  capacity_pos : 0 < s.capacity

section
variable {s : Store κ α}

/-- Slots that hold a list and then nothing make a compact store with these entries. -/
theorem compact_of_slots {l : List (κ × α)} {m : Nat}
    (hslots : s.slots.toList = l.map some ++ List.replicate m none)
    (hsize : s.size = l.length) (hpos : 0 < s.capacity) : s.entries = l ∧ s.Compact := by
  have hlive : s.slots.toList.take s.size = l.map some := by
    rw [hslots, List.take_left' (by rw [List.length_map, hsize])]
  have hentries : s.entries = l := by simp [entries, hlive]
  have hcap : s.capacity = l.length + m := by
    simpa [capacity] using congrArg List.length hslots
  refine ⟨hentries, ?_, ?_, hpos⟩
  · rw [hentries, hslots, hcap, hsize, Nat.add_sub_cancel_left]
  · rw [hentries, hsize]

/-- There are no more entries than slots. -/
theorem Compact.size_le (hs : s.Compact) : s.size ≤ s.capacity := by
  have hlen := congrArg List.length hs.slots_eq
  simp only [Array.length_toList, List.length_append, List.length_map, List.length_replicate,
    hs.length_entries, capacity] at hlen ⊢
  omega

/-- The live slot of an index holds the entry of that index. -/
theorem Compact.getElem?_slots (hs : s.Compact) {i : Nat} (hi : i < s.entries.length) :
    s.slots[i]? = some (some s.entries[i]) := by
  rw [← Array.getElem?_toList, hs.slots_eq, List.getElem?_append_left (by simpa using hi)]
  simp [hi]

/-- Slots behind the live ones are vacant. -/
theorem Compact.slot_of_size_le (hs : s.Compact) {i : Nat} (hi : s.size ≤ i) (hlt : i < s.capacity) :
    s.slots[i]? = some none := by
  have hlen := hs.length_entries
  rw [← Array.getElem?_toList, hs.slots_eq, List.getElem?_append_right (by simp [hlen, hi])]
  simp only [List.length_map, List.getElem?_replicate, hlen]
  rw [if_pos (by omega)]

/-! ## Changing slots -/

/-- A new store is compact and has no entries. -/
theorem compact_withCapacity (c : Nat) :
    (withCapacity c : Store κ α).entries = [] ∧ (withCapacity c : Store κ α).Compact := by
  refine compact_of_slots (m := max c 1) ?_ rfl ?_
  · simp [withCapacity]
  · simp only [withCapacity, capacity, Array.size_replicate]
    omega

/-- A store with twice the slots has a vacant one. -/
theorem Compact.grow (hs : s.Compact) :
    s.grow.entries = s.entries ∧ s.grow.Compact ∧ s.grow.size < s.grow.capacity := by
  have hle := hs.size_le
  have hpos := hs.capacity_pos
  have hcap : s.grow.capacity = s.capacity + s.capacity := by simp [Store.grow, capacity]
  have hsize : s.grow.size = s.size := rfl
  have hslots : s.grow.slots.toList =
      s.entries.map some ++ List.replicate (s.capacity - s.size + s.capacity) none := by
    simp [Store.grow, hs.slots_eq, capacity]
  obtain ⟨hentries, hc⟩ := compact_of_slots hslots hs.length_entries.symm (by omega)
  exact ⟨hentries, hc, by omega⟩

/-- An entry put into the first vacant slot. -/
theorem Compact.fill (hs : s.Compact) (hlt : s.size < s.capacity) (e : κ × α) :
    let t : Store κ α := ⟨s.slots.setIfInBounds s.size (some e), s.size + 1⟩
    t.entries = s.entries ++ [e] ∧ t.Compact := by
  have hlen := hs.length_entries
  obtain ⟨m, hm⟩ := Nat.exists_eq_add_of_lt hlt
  have hvacant : s.capacity - s.size = m + 1 := by omega
  refine compact_of_slots (m := m) ?_ (by simp [hlen]) (by simpa [capacity] using hs.capacity_pos)
  rw [Array.toList_setIfInBounds, hs.slots_eq, hvacant, List.set_append_right _ _ (by simp [hlen])]
  simp [hlen, List.replicate_succ]

/-- A new entry comes after the others. -/
theorem Compact.append (hs : s.Compact) (k : κ) (v : α) :
    (s.append k v).entries = s.entries ++ [(k, v)] ∧ (s.append k v).Compact := by
  unfold Store.append
  split
  · obtain ⟨hentries, hc, hlt⟩ := hs.grow
    rw [← hentries]
    exact hc.fill hlt (k, v)
  · next hne => exact hs.fill (Nat.lt_of_le_of_ne hs.size_le hne) (k, v)

/-- A live slot that gets another entry. -/
theorem Compact.overwrite (hs : s.Compact) {i : Nat} (hi : i < s.entries.length) (e : κ × α) :
    let t : Store κ α := { s with slots := s.slots.setIfInBounds i (some e) }
    t.entries = s.entries.set i e ∧ t.Compact := by
  refine compact_of_slots (m := s.capacity - s.size) ?_ (by simp [hs.length_entries])
    (by simpa [capacity] using hs.capacity_pos)
  rw [Array.toList_setIfInBounds, hs.slots_eq, List.set_append_left _ _ (by simpa using hi),
    List.map_set]

/-- A live slot that is vacated gets the last entry, which may have been its own. -/
theorem Compact.vacate (hs : s.Compact) {i : Nat} (hi : i < s.entries.length) :
    (s.vacate i).entries = Entries.moveLast s.entries i ∧ (s.vacate i).Compact := by
  obtain hnil | ⟨l, last, hl⟩ := List.eq_nil_or_concat s.entries
  · rw [hnil] at hi
    exact absurd hi (Nat.not_lt_zero i)
  rw [List.concat_eq_append] at hl
  have hsize : s.size = l.length + 1 := by rw [← hs.length_entries, hl, List.length_append]; rfl
  have hlast : s.slots[l.length]?.join = some last := by
    rw [hs.getElem?_slots (by simp [hl])]
    simp [hl]
  -- Setting the slot of the last entry to itself changes nothing, so the two cases are one.
  have hset : (l ++ [last]).set i last = l.set i last ++ [last] := by
    rw [List.set_append]
    split
    · rfl
    · next hge =>
      have hil : i = l.length := by
        rw [hl, List.length_append, List.length_singleton] at hi
        omega
      simp [hil, List.set_eq_of_length_le]
  rw [hl, Entries.moveLast_concat]
  refine compact_of_slots (m := s.capacity - s.size + 1) ?_ (by simp [Store.vacate, hsize])
    (by simpa [capacity, Store.vacate] using hs.capacity_pos)
  simp only [Store.vacate, hsize, Nat.add_sub_cancel, hlast, Array.toList_setIfInBounds, hs.slots_eq]
  rw [hl, List.set_append_left _ _ (by simpa [hl] using hi), ← List.map_set, hset, List.map_append,
    List.append_assoc, List.set_append_right _ _ (by simp)]
  simp [List.replicate_succ]

end

/-! ## Looking up -/

section
variable [BEq κ] {s : Store κ α} {k : κ} {v : α}

/-- Scanning slots that hold a list finds the first entry of the list for the key. -/
theorem scan_eq (slots : Array (Option (κ × α))) (k : κ) (l : List (κ × α)) (i : Nat)
    (hl : ∀ j (hj : j < l.length), slots[i + j]? = some (some l[j])) :
    scan slots k l.length i = (l.findIdx? (Entries.isFor k)).bind fun j =>
      (l[j]?).map fun e => ⟨i + j, e.1, e.2⟩ := by
  induction l generalizing i with
  | nil => rfl
  | cons e l ih =>
    have hhead : slots[i]? = some (some e) := hl 0 (Nat.succ_pos _)
    have htail : ∀ j (hj : j < l.length), slots[i + 1 + j]? = some (some l[j]) := by
      intro j hj
      rw [Nat.add_right_comm i 1 j]
      exact hl (j + 1) (Nat.succ_lt_succ hj)
    simp only [List.length_cons, scan, hhead, List.findIdx?_cons]
    split
    · rfl
    · rw [ih (i + 1) htail]
      simp only [Option.bind_map, Function.comp_def, List.getElem?_cons_succ, Nat.add_right_comm i 1,
        Nat.add_assoc]

/-- What scanning finds for a key is in a slot, under a key equal to it. -/
theorem mem_of_scan {slots : Array (Option (κ × α))} {hit : Hit κ α} {n i : Nat}
    (h : scan slots k n i = some hit) :
    some (hit.key, hit.value) ∈ slots.toList ∧ (hit.key == k) = true := by
  induction n generalizing i with
  | zero => cases h
  | succ n ih =>
    simp only [scan] at h
    split at h
    · next key value hslot =>
      split at h
      · next hkey =>
        cases h
        rw [Array.mem_toList_iff]
        exact ⟨Array.mem_of_getElem? hslot, hkey⟩
      · exact ih h
    · exact ih h

/-- The hit for a key is the first entry for it, and its slot is the index of the entry. -/
theorem Compact.find?_eq (hs : s.Compact) (k : κ) :
    s.find? k = (s.entries.findIdx? (Entries.isFor k)).bind fun i =>
      (s.entries[i]?).map fun e => ⟨i, e.1, e.2⟩ := by
  unfold find?
  rw [← hs.length_entries, scan_eq s.slots k s.entries 0]
  · simp
  · intro i hi
    rw [Nat.zero_add]
    exact hs.getElem?_slots hi

/-- Where a list has an index for a key, the store has a hit. -/
theorem Compact.find?_eq_some (hs : s.Compact) {i : Nat}
    (hi : s.entries.findIdx? (Entries.isFor k) = some i) :
    ∃ h : i < s.entries.length, s.find? k = some ⟨i, s.entries[i].1, s.entries[i].2⟩ := by
  obtain ⟨h, -⟩ := List.findIdx?_eq_some_iff_getElem.1 hi
  refine ⟨h, ?_⟩
  rw [hs.find?_eq, hi]
  simp [h]

/-- Where a list has no index for a key, the store has no hit. -/
theorem Compact.find?_eq_none (hs : s.Compact)
    (hi : s.entries.findIdx? (Entries.isFor k) = none) : s.find? k = none := by
  rw [hs.find?_eq, hi]
  rfl

/-- What is found for a key is the entry in the slot. -/
theorem Compact.slot_of_find? (hs : s.Compact) {hit : Hit κ α} (h : s.find? k = some hit) :
    hit.slot < s.size ∧ s.slots[hit.slot]? = some (some (hit.key, hit.value)) := by
  rw [hs.find?_eq, Option.bind_eq_some_iff] at h
  obtain ⟨i, -, h⟩ := h
  obtain ⟨e, he, rfl⟩ := Option.map_eq_some_iff.1 h
  obtain ⟨hi, rfl⟩ := List.getElem?_eq_some_iff.1 he
  exact ⟨by rwa [← hs.length_entries], hs.getElem?_slots hi⟩

/-- A key gives the value that it gives in the list. -/
theorem Compact.get?_eq (hs : s.Compact) (k : κ) : s.get? k = Entries.lookup s.entries k := by
  unfold get? Entries.lookup
  rw [hs.find?_eq, List.find?_eq_bind_findIdx?_getElem?]
  simp [Option.map_bind, Function.comp_def]

/-- A key is contained if it gives a value. -/
theorem contains_eq (s : Store κ α) (k : κ) : s.contains k = (s.get? k).isSome := by
  simp [contains, get?]

/-- A key that gives a value answers everywhere: it is got, contained, and can be removed. -/
theorem answers_of_get?_eq_some (h : s.get? k = some v) :
    s.get k = .ok v ∧ s.contains k = true ∧ ∃ t, s.remove k = .ok (v, t) := by
  obtain ⟨hit, hfind, rfl⟩ := Option.map_eq_some_iff.1 h
  exact ⟨by rw [get, h], by rw [contains, hfind]; rfl, _, by rw [remove, remove?, hfind]; rfl⟩

/-- A key that gives none is refused everywhere in the same words. -/
theorem answers_of_get?_eq_none (h : s.get? k = none) :
    s.get k = .error .noSuchKey ∧ s.contains k = false ∧ s.remove k = .error .noSuchKey := by
  have hfind : s.find? k = none := Option.map_eq_none_iff.1 h
  exact ⟨by rw [get, h], by rw [contains, hfind]; rfl, by rw [remove, remove?, hfind]; rfl⟩

/-! ## Putting and removing -/

/-- Putting a key does what it does to the list, and leaves a compact store. -/
theorem Compact.put (hs : s.Compact) (k : κ) (v : α) :
    (s.put k v).entries = Entries.put s.entries k v ∧ (s.put k v).Compact := by
  unfold Store.put Entries.put
  cases hi : s.entries.findIdx? (Entries.isFor k) with
  | none =>
    rw [hs.find?_eq_none hi]
    exact hs.append k v
  | some i =>
    obtain ⟨h, hfind⟩ := hs.find?_eq_some hi
    have hset : s.entries.modify i (fun e => (e.1, v)) = s.entries.set i (s.entries[i].1, v) := by
      refine List.ext_getElem? fun j => ?_
      by_cases hj : i = j
      · subst hj
        simp [h]
      · simp [hj]
    rw [hfind]
    simp only [hset]
    exact hs.overwrite h (s.entries[i].1, v)

/-- Removing a key gives what it gives in the list, and leaves a compact store. -/
theorem Compact.remove?_eq (hs : s.Compact) (k : κ) :
    (s.remove? k).map (fun r => (r.1, r.2.entries)) = Entries.remove? s.entries k ∧
      ∀ r, s.remove? k = some r → r.2.Compact := by
  unfold Store.remove? Entries.remove?
  cases hi : s.entries.findIdx? (Entries.isFor k) with
  | none =>
    rw [hs.find?_eq_none hi]
    exact ⟨rfl, nofun⟩
  | some i =>
    obtain ⟨h, hfind⟩ := hs.find?_eq_some hi
    obtain ⟨hentries, hc⟩ := hs.vacate h
    rw [hfind]
    refine ⟨by simp [h, hentries], ?_⟩
    rintro _ ⟨⟩
    exact hc

end

/-! ## Stores that operations build -/

section
variable [BEq κ]

/-- The stores that the operations build. -/
inductive Built : Store κ α → Prop
  | withCapacity (c : Nat) : Built (withCapacity c)
  | put {s : Store κ α} (hs : Built s) (k : κ) (v : α) : Built (s.put k v)
  | remove {s t : Store κ α} {k : κ} {v : α} (hs : Built s) (h : s.remove? k = some (v, t)) :
      Built t

/-- By induction on the operations, each of which keeps the store compact. -/
theorem Built.compact {s : Store κ α} (hs : s.Built) : s.Compact := by
  induction hs with
  | withCapacity c => exact (compact_withCapacity c).2
  | put _ k v ih => exact (ih.put k v).2
  | remove _ h ih => exact (ih.remove?_eq _).2 _ h

end

end Store

end GraphCalc
