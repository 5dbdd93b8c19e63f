import GraphCalc.Proofs.Store.Entries

/-!
# Lists of entries with distinct keys

A list is `Distinct` if no two of its entries have equal keys. Putting and removing keep it so
(`Distinct.put`, `Distinct.remove?`), although removing changes the order. In such a list the place of
an entry does not matter for looking it up, and so putting a key decides what that key gives and
leaves the others alone (`Distinct.lookup_put`), and so does removing one (`Distinct.lookup_remove?`).

Equality of keys is symmetric and transitive. It need not be reflexive: floats can be keys, and a NaN,
which differs from itself, is in no entry for itself, so that putting it always appends.
-/

namespace GraphCalc.Entries

variable {κ α : Type}

/-! ## What the operations do to the list -/

/-- Removing an entry leaves the others, in another order. -/
theorem moveLast_perm (a b : List (κ × α)) (e : κ × α) :
    (moveLast (a ++ e :: b) a.length).Perm (a ++ b) := by
  rcases List.eq_nil_or_concat b with rfl | ⟨b, last, rfl⟩
  · simp [moveLast_concat, List.set_eq_of_length_le]
  · rw [List.concat_eq_append, ← List.cons_append, ← List.append_assoc, moveLast_concat]
    simp only [List.set_append_right _ _ (Nat.le_refl _), Nat.sub_self, List.set_cons_zero]
    rw [List.perm_append_left_iff]
    exact (List.perm_append_singleton last b).symm

variable [BEq κ] {l l' : List (κ × α)} {k k' : κ} {v w : α}

/-- A key that is looked up is in an entry, the first one for it. -/
theorem exists_split (h : lookup l k = some v) :
    ∃ a key b, l = a ++ (key, v) :: b ∧ (key == k) = true ∧ ∀ e ∈ a, isFor k e = false := by
  obtain ⟨⟨key, v⟩, he, rfl⟩ := Option.map_eq_some_iff.1 h
  obtain ⟨hkey, a, b, rfl, ha⟩ := List.find?_eq_some_iff_append.1 he
  exact ⟨a, key, b, rfl, hkey, by simpa using ha⟩

/-- If a key is not found, no entry is for it. -/
theorem isFor_eq_false (h : lookup l k = none) : ∀ e ∈ l, isFor k e = false := by
  simpa [lookup] using h

/-- The first entry for a key has the index of its place. -/
theorem findIdx?_split {a b : List (κ × α)} {e : κ × α} (he : isFor k e = true)
    (ha : ∀ e ∈ a, isFor k e = false) : (a ++ e :: b).findIdx? (isFor k) = some a.length := by
  rw [List.findIdx?_append, List.findIdx?_eq_none_iff.2 (by simpa using ha), List.findIdx?_cons, he]
  simp

/-- Putting a key that is there changes one value. -/
theorem put_split {key : κ} {a b : List (κ × α)} (hkey : (key == k) = true)
    (ha : ∀ e ∈ a, isFor k e = false) (w : α) :
    put (a ++ (key, v) :: b) k w = a ++ (key, w) :: b := by
  rw [put, findIdx?_split hkey ha]
  simp [List.modify_eq_take_cons_drop]

/-- Removing a key takes out the first entry for it. -/
theorem remove?_cases (l : List (κ × α)) (k : κ) :
    (lookup l k = none ∧ remove? l k = none) ∨
      ∃ a key v b l', l = a ++ (key, v) :: b ∧ (key == k) = true ∧ lookup l k = some v ∧
        remove? l k = some (v, l') ∧ l'.Perm (a ++ b) := by
  cases h : lookup l k with
  | none => exact .inl ⟨rfl, by rw [remove?, findIdx?_eq_none h, Option.bind_none]⟩
  | some v =>
    obtain ⟨a, key, b, rfl, hkey, ha⟩ := exists_split h
    refine .inr ⟨a, key, v, b, _, rfl, hkey, rfl, ?_, moveLast_perm a b (key, v)⟩
    rw [remove?, findIdx?_split hkey ha]
    simp

/-! ## Distinct keys -/

/-- No two entries have equal keys. -/
def Distinct (l : List (κ × α)) : Prop := l.Pairwise fun e e' => (e.1 == e'.1) = false

/-- Putting keeps keys distinct: a key is appended only if no entry is for it. -/
theorem Distinct.put (h : Distinct l) (k : κ) (v : α) : Distinct (put l k v) := by
  cases hk : lookup l k with
  | none =>
    rw [put_of_absent hk]
    refine List.pairwise_append.2 ⟨h, List.pairwise_singleton .., fun e he e' he' => ?_⟩
    rw [List.mem_singleton.1 he']
    exact isFor_eq_false hk e he
  | some w =>
    obtain ⟨a, key, b, rfl, hkey, ha⟩ := exists_split hk
    rw [put_split hkey ha]
    simpa [Distinct, List.pairwise_append] using h

variable [PartialEquivBEq κ]

/-- Whether keys are distinct does not depend on the order. Equality of keys is symmetric. -/
theorem Distinct.of_perm (h : Distinct l) (hl : l.Perm l') : Distinct l' :=
  hl.pairwise h fun hne => by rwa [BEq.comm]

/-- Removing keeps keys distinct. -/
theorem Distinct.remove? (h : Distinct l) (hr : remove? l k = some (v, l')) : Distinct l' := by
  rcases remove?_cases l k with ⟨-, hnone⟩ | ⟨a, key, w, b, l'', rfl, -, -, hsome, hperm⟩
  · rw [hnone] at hr
    cases hr
  · rw [hsome] at hr
    cases hr
    have hsub : (a ++ b).Sublist (a ++ (key, v) :: b) := (List.sublist_cons_self _ b).append_left a
    exact Distinct.of_perm (h.sublist hsub) hperm.symm

/-! ## Looking up -/

/-- No entry is for a key if none is for an equal one. -/
theorem find?_eq_none_of_beq (h : ∀ e ∈ l, isFor k e = false) (heq : (k == k') = true) :
    l.find? (isFor k') = none := by
  refine List.find?_eq_none.2 fun e he hkey => ?_
  have hne := h e he
  rw [isFor, BEq.trans hkey (BEq.symm heq)] at hne
  cases hne

/-- Where keys are distinct, looking up finds any entry for the key. -/
theorem Distinct.lookup_eq_some_iff (h : Distinct l) :
    lookup l k = some v ↔ ∃ e ∈ l, isFor k e = true ∧ e.2 = v := by
  constructor
  · intro hk
    obtain ⟨a, key, b, rfl, hkey, -⟩ := exists_split hk
    exact ⟨(key, v), by simp, hkey, rfl⟩
  · rintro ⟨e, he, hkey, rfl⟩
    obtain ⟨a, b, rfl⟩ := List.append_of_mem he
    have ha : a.find? (isFor k) = none := by
      refine List.find?_eq_none.2 fun e' he' hkey' => ?_
      have hne := (List.pairwise_append.1 h).2.2 e' he' e (by simp)
      rw [BEq.trans hkey' (BEq.symm hkey)] at hne
      cases hne
    simp [lookup, ha, hkey]

/-- Looking up a key equal to one that is put gives the new value, and others give what they gave. -/
theorem Distinct.lookup_put (h : Distinct l) (k k' : κ) (v : α) :
    lookup (Entries.put l k v) k' = if k == k' then some v else lookup l k' := by
  cases hk : lookup l k with
  | none =>
    rw [put_of_absent hk, lookup, List.find?_append]
    by_cases heq : (k == k') = true
    · simp [find?_eq_none_of_beq (isFor_eq_false hk) heq, heq]
    · simp [heq, lookup]
  | some w =>
    obtain ⟨a, key, b, rfl, hkey, ha⟩ := exists_split hk
    rw [put_split hkey ha, lookup, lookup, List.find?_append, List.find?_append]
    have hswap : (key == k') = (k == k') := BEq.congr_left hkey
    by_cases heq : (k == k') = true
    · simp [find?_eq_none_of_beq ha heq, hswap, heq]
    · simp [hswap, heq]

/-- Looking up a key equal to one that is removed finds nothing, and others give what they gave. -/
theorem Distinct.lookup_remove? (h : Distinct l) (hr : Entries.remove? l k = some (v, l')) (k' : κ) :
    lookup l' k' = if k == k' then none else lookup l k' := by
  have hl' := h.remove? hr
  rcases remove?_cases l k with ⟨-, hnone⟩ | ⟨a, key, w, b, l'', rfl, hkey, -, hsome, hperm⟩
  · rw [hnone] at hr
    cases hr
  rw [hsome] at hr
  cases hr
  have hmem (e : κ × α) : e ∈ a ++ (key, v) :: b ↔ e = (key, v) ∨ e ∈ l' := by
    rw [List.perm_middle.mem_iff, List.mem_cons, hperm.mem_iff]
  refine Option.ext fun w => ?_
  by_cases heq : (k == k') = true
  · simp only [heq, if_true, hl'.lookup_eq_some_iff]
    refine ⟨?_, nofun⟩
    rintro ⟨e, he, hkey', -⟩
    -- No other entry has a key equal to the removed one.
    have hrest := h.of_perm List.perm_middle
    have hne := List.rel_of_pairwise_cons hrest (hperm.mem_iff.1 he)
    rw [BEq.trans hkey (BEq.trans heq (BEq.symm hkey'))] at hne
    cases hne
  · simp only [heq, Bool.false_eq_true, if_false, hl'.lookup_eq_some_iff, h.lookup_eq_some_iff, hmem]
    have hother : (key == k') = false := by
      rw [BEq.congr_left hkey]
      simpa using heq
    simp [or_and_right, exists_or, hother]

/-- A key that cannot be removed is not there. -/
theorem lookup_of_remove?_none (hr : Entries.remove? l k = none) (heq : (k == k') = true) :
    lookup l k' = none := by
  rcases remove?_cases l k with ⟨hnone, -⟩ | ⟨_, _, _, _, _, -, -, -, hsome, -⟩
  · rw [lookup, find?_eq_none_of_beq (isFor_eq_false hnone) heq]
    rfl
  · rw [hr] at hsome
    cases hsome

end GraphCalc.Entries
