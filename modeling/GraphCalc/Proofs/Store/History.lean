import Mathlib
import GraphCalc.Proofs.History
import GraphCalc.Proofs.Store.Distinct

/-!
# Histories of stores

`Action` lists what changes a store, `Action.perform` does it, and `Action.onEntries` is the same on
the list of entries. `slots_of_history` says what the slots are after any history: the live ones hold
the entries of the list in order, no two under equal keys, and there are as many slots as the first
ones doubled for the most entries held so far. `get_of_history` says what a key gives: the value it
was put with by the last action for it, whatever has happened to other keys.
-/

namespace GraphCalc.Store

variable {κ α : Type}

/-- What changes a store. -/
inductive Action (κ α : Type) where
  | put (k : κ) (v : α)
  | remove (k : κ)

/-- The key that is put or removed. -/
def Action.key : Action κ α → κ
  | put k _ => k
  | remove k => k

/-- The value that the key has from then on. -/
def Action.value? : Action κ α → Option α
  | put _ v => some v
  | remove _ => none

section
variable [BEq κ]

/-- Does it: the value taken out, if any, and the store from then on. -/
def Action.perform : Action κ α → Store κ α → Except Error (Option α × Store κ α)
  | put k v, s => .ok (none, s.put k v)
  | remove k, s => (s.remove k).map fun (v, t) => (some v, t)

/-- The same on a list of entries. -/
def Action.onEntries : Action κ α → List (κ × α) → Except Error (Option α × List (κ × α))
  | put k v, l => .ok (none, Entries.put l k v)
  | remove k, l =>
    match Entries.remove? l k with
    | some (v, l) => .ok (some v, l)
    | none => .error .noSuchKey

/-- The store after a history that starts with an empty one. -/
def after (c : Nat) (history : List (Action κ α)) : Store κ α :=
  (History.run Action.perform history (withCapacity c)).2

/-- The list of entries after a history. -/
def entriesAfter (history : List (Action κ α)) : List (κ × α) :=
  (History.run Action.onEntries history []).2

/-- The most entries that there have been at any time of a history. -/
def peak (history : List (Action κ α)) : Nat :=
  (history.inits.map fun h => (entriesAfter h).length).foldl max 0

/-- The last action of a history for a key. -/
def lastFor? (history : List (Action κ α)) (k : κ) : Option (Action κ α) :=
  history.reverse.find? fun a => a.key == k

/-- The last action is performed on the store that the others leave. -/
theorem after_concat (c : Nat) (history : List (Action κ α)) (action : Action κ α) :
    after c (history ++ [action]) = History.next Action.perform action (after c history) :=
  History.run_snd_concat ..

/-- So it is on the list of entries. -/
theorem entriesAfter_concat (history : List (Action κ α)) (action : Action κ α) :
    entriesAfter (history ++ [action]) =
      History.next Action.onEntries action (entriesAfter history) :=
  History.run_snd_concat ..

/-- Later actions for other keys do not matter. -/
theorem lastFor?_append {history later : List (Action κ α)} {k : κ}
    (h : ∀ a ∈ later, (a.key == k) = false) :
    lastFor? (history ++ later) k = lastFor? history k := by
  have hlater : later.reverse.find? (fun a => a.key == k) = none := by simpa using h
  rw [lastFor?, List.reverse_append, List.find?_append, hlater]
  rfl

/-- Actions for other keys do not matter, wherever they come in. -/
theorem lastFor?_of_inserted {history history' : List (Action κ α)} {k : κ}
    (h : History.Inserted (fun a => (a.key == k) = false) history history') :
    lastFor? history' k = lastFor? history k := by
  unfold lastFor?
  induction h with
  | nil => rfl
  | keep _ ih => rw [List.reverse_cons, List.reverse_cons, List.find?_append, List.find?_append, ih]
  | insert hne _ ih =>
    rw [List.reverse_cons, List.find?_append, ih]
    simp [hne]

/-! ## The number of slots -/

/-- The last action can only raise the most entries to those there are after it. -/
theorem peak_concat (history : List (Action κ α)) (action : Action κ α) :
    peak (history ++ [action]) =
      max (peak history) (entriesAfter (history ++ [action])).length := by
  simp [peak, List.inits_append]

/-- There are no more entries than the most there have been. -/
theorem length_entriesAfter_le_peak (history : List (Action κ α)) :
    (entriesAfter history).length ≤ peak history := by
  rcases List.eq_nil_or_concat history with rfl | ⟨history, action, rfl⟩
  · exact Nat.zero_le _
  · rw [List.concat_eq_append, peak_concat]
    exact Nat.le_max_right ..

/-- An action leaves the number of slots as it is, unless a new entry finds none vacant. -/
theorem capacity_next (s : Store κ α) (action : Action κ α) :
    (History.next Action.perform action s).capacity = s.capacity ∨
      s.size = s.capacity ∧ (History.next Action.perform action s).capacity = s.capacity * 2 ∧
        (History.next Action.perform action s).size = s.size + 1 := by
  cases action with
  | put k v =>
    change (s.put k v).capacity = _ ∨ _ ∧ (s.put k v).capacity = _ ∧ (s.put k v).size = _
    unfold Store.put
    split
    · exact .inl Array.size_setIfInBounds
    · unfold Store.append
      split
      · next hfull => exact .inr ⟨hfull, by simp [capacity, grow, Nat.mul_two], rfl⟩
      · exact .inl Array.size_setIfInBounds
  | remove k =>
    have hnext : History.next Action.perform (Action.remove k) s =
        ((s.find? k).map fun hit => s.vacate hit.slot).getD s := by
      rw [History.next, Action.perform, Store.remove, Store.remove?]
      cases s.find? k <;> rfl
    rw [hnext]
    cases s.find? k with
    | none => exact .inl rfl
    | some hit => exact .inl (by simp [vacate, capacity])

/-- The first slots doubled until there are enough, and no more often. -/
def Doubled (first needed capacity : Nat) : Prop :=
  ∃ j, capacity = first * 2 ^ j ∧ needed ≤ first * 2 ^ j ∧ ∀ i < j, first * 2 ^ i < needed

/-- More entries than before that still have a slot. -/
theorem Doubled.of_le {first needed needed' capacity : Nat} (h : Doubled first needed capacity)
    (hle : needed ≤ needed') (hcap : needed' ≤ capacity) : Doubled first needed' capacity := by
  obtain ⟨j, rfl, -, hleast⟩ := h
  exact ⟨j, rfl, hcap, fun i hi => Nat.lt_of_lt_of_le (hleast i hi) hle⟩

/-- One entry more than there are slots. -/
theorem Doubled.double {first needed capacity : Nat} (h : Doubled first needed capacity)
    (hpos : 0 < capacity) : Doubled first (capacity + 1) (capacity * 2) := by
  obtain ⟨j, rfl, -, -⟩ := h
  refine ⟨j + 1, by rw [Nat.pow_succ, Nat.mul_assoc], ?_, fun i hi => ?_⟩
  · rw [Nat.pow_succ, ← Nat.mul_assoc]
    omega
  · have hpow : 2 ^ i ≤ 2 ^ j := Nat.pow_le_pow_right (by decide) (by omega)
    exact Nat.lt_succ_of_le (Nat.mul_le_mul_left first hpow)

/-! ## Entries -/

/-- The store holds the entries, under distinct keys. -/
structure Keeps (s : Store κ α) (l : List (κ × α)) : Prop where
  compact : s.Compact
  entries_eq : s.entries = l
  distinct : Entries.Distinct l

variable [PartialEquivBEq κ] {s : Store κ α} {l : List (κ × α)}

/-- Each action on a store is the action on the list of its entries. -/
theorem Keeps.perform (h : s.Keeps l) (action : Action κ α) :
    History.Agree Keeps (action.perform s) (action.onEntries l) := by
  obtain ⟨hc, rfl, hd⟩ := h
  cases action with
  | put k v =>
    obtain ⟨hentries, hc'⟩ := hc.put k v
    exact .ok _ ⟨hc', hentries, hd.put k v⟩
  | remove k =>
    obtain ⟨heq, hc'⟩ := hc.remove?_eq k
    rw [Action.perform, Action.onEntries, ← heq, Store.remove]
    cases hr : s.remove? k with
    | none => exact .error _
    | some r =>
      rw [hr, Option.map_some] at heq
      exact .ok _ ⟨hc' r hr, rfl, hd.remove? heq.symm⟩

/-- After a history the answers are those of the list, and the store holds its entries. -/
theorem run_keeps (c : Nat) (history : List (Action κ α)) :
    (History.run Action.perform history (withCapacity c)).1 =
        (History.run Action.onEntries history []).1 ∧
      (after c history).Keeps (entriesAfter history) := by
  obtain ⟨hentries, hc⟩ := compact_withCapacity (κ := κ) (α := α) c
  exact History.run_related (fun action _ _ h => Keeps.perform h action) history
    ⟨hc, hentries, .nil⟩

/-- The slots of a store are the first ones doubled for the most entries that it has held. -/
theorem doubled_capacity (c : Nat) (history : List (Action κ α)) :
    Doubled (max c 1) (peak history) (after c history).capacity := by
  induction history using List.reverseRecOn with
  | nil => exact ⟨0, by simp [after, History.run, capacity, withCapacity], Nat.zero_le _, nofun⟩
  | append_singleton history action ih =>
    obtain ⟨-, h⟩ := run_keeps c history
    obtain ⟨-, h'⟩ := run_keeps c (history ++ [action])
    have hpeak := length_entriesAfter_le_peak history
    have hsize := h.compact.length_entries
    have hsize' := h'.compact.length_entries
    have hle := h'.compact.size_le
    have hpos := h.compact.capacity_pos
    rw [h.entries_eq] at hsize
    rw [h'.entries_eq] at hsize'
    rw [peak_concat, hsize']
    rw [after_concat] at hle ⊢
    rcases capacity_next (after c history) action with hsame | ⟨hfull, hcap, hmore⟩
    · rw [hsame] at hle ⊢
      refine ih.of_le (Nat.le_max_left ..) (Nat.max_le.2 ⟨?_, hle⟩)
      obtain ⟨j, hj, hpeak, -⟩ := ih
      rwa [hj]
    · have hmax : max (peak history) ((after c history).size + 1) = (after c history).capacity + 1 := by
        obtain ⟨j, hj, hpeak, -⟩ := ih
        omega
      rw [hcap, hmore, hmax]
      exact ih.double hpos

/-- Two live slots hold different keys. -/
theorem Keeps.slots_ne (h : s.Keeps l) {i j : Nat} {e e' : κ × α} (hij : i ≠ j)
    (hi : s.slots[i]? = some (some e)) (hj : s.slots[j]? = some (some e')) :
    (e.1 == e'.1) = false := by
  have hlive {i : Nat} {e : κ × α} (hi : s.slots[i]? = some (some e)) :
      ∃ hlt : i < l.length, l[i] = e := by
    obtain ⟨hc, rfl, -⟩ := h
    by_cases hlt : i < s.entries.length
    · rw [hc.getElem?_slots hlt] at hi
      exact ⟨hlt, Option.some.inj (Option.some.inj hi)⟩
    · have hcap : i < s.capacity := (Array.getElem?_eq_some_iff.1 hi).1
      rw [hc.slot_of_size_le (by rw [← hc.length_entries]; omega) hcap] at hi
      cases hi
  obtain ⟨hil, rfl⟩ := hlive hi
  obtain ⟨hjl, rfl⟩ := hlive hj
  have hpairwise := List.pairwise_iff_getElem.1 h.distinct
  rcases Nat.lt_or_gt_of_ne hij with hlt | hlt
  · exact hpairwise i j hil hjl hlt
  · rw [BEq.comm]
    exact hpairwise j i hjl hil hlt

/-! ## Keys -/

/-- What a key gives is the value of the last action for it. -/
theorem lookup_entriesAfter (history : List (Action κ α)) (k : κ) :
    Entries.lookup (entriesAfter history) k = (lastFor? history k).bind Action.value? := by
  induction history using List.reverseRecOn with
  | nil => rfl
  | append_singleton history action ih =>
    obtain ⟨-, -, -, hd⟩ := run_keeps 1 history
    have hlast : lastFor? (history ++ [action]) k =
        if action.key == k then some action else lastFor? history k := by
      rw [lastFor?, List.reverse_append, List.reverse_singleton, List.singleton_append,
        List.find?_cons]
      split <;> simp_all [lastFor?]
    rw [entriesAfter_concat, hlast]
    cases action with
    | put k' v =>
      change Entries.lookup (Entries.put (entriesAfter history) k' v) k = _
      rw [hd.lookup_put, Action.key]
      split
      · rfl
      · exact ih
    | remove k' =>
      rw [History.next, Action.onEntries, Action.key]
      by_cases heq : (k' == k) = true
      · rw [if_pos heq]
        cases hr : Entries.remove? (entriesAfter history) k' with
        | none => exact Entries.lookup_of_remove?_none hr heq
        | some r => exact (hd.lookup_remove? hr k).trans (if_pos heq)
      · rw [if_neg heq, ← ih]
        cases hr : Entries.remove? (entriesAfter history) k' with
        | none => rfl
        | some r => exact (hd.lookup_remove? hr k).trans (if_neg heq)

/-- A key that differs from itself equals no key. -/
theorem lastFor?_of_ne {k : κ} (h : (k == k) = false) (history : List (Action κ α)) :
    lastFor? history k = none := by
  refine List.find?_eq_none.2 fun a _ hkey => ?_
  rw [BEq.trans (BEq.symm hkey) hkey] at h
  cases h

/-- What a key gives in the store is the value of the last action for it. -/
theorem get?_after (c : Nat) (history : List (Action κ α)) (k : κ) :
    (after c history).get? k = (lastFor? history k).bind Action.value? := by
  obtain ⟨-, h⟩ := run_keeps c history
  rw [h.compact.get?_eq, h.entries_eq, lookup_entriesAfter]

/-- After any history of actions on an empty store, the answers and the entries are those of the list
of entries. The first slots hold the entries and the others are vacant, no two slots hold equal keys,
and what is found for a key is in the slot where it is found. There are as many slots as the first
ones doubled until they were enough for the most entries held so far, and not once more. -/
theorem slots_of_history (c : Nat) (history : List (Action κ α)) :
    let s := after c history
    let l := entriesAfter history
    (History.run Action.perform history (withCapacity c)).1 =
      (History.run Action.onEntries history []).1 ∧
    s.entries = l ∧ s.size = l.length ∧
    (∀ i < s.size, ∃ e, s.slots[i]? = some (some e)) ∧
    (∀ i, s.size ≤ i → i < s.capacity → s.slots[i]? = some none) ∧
    (∀ (i j : Nat) (e e' : κ × α), i ≠ j → s.slots[i]? = some (some e) →
      s.slots[j]? = some (some e') → (e.1 == e'.1) = false) ∧
    (∀ k hit, s.find? k = some hit →
      hit.slot < s.size ∧ s.slots[hit.slot]? = some (some (hit.key, hit.value))) ∧
    ∃ j, s.capacity = max c 1 * 2 ^ j ∧ peak history ≤ max c 1 * 2 ^ j ∧
      ∀ i < j, max c 1 * 2 ^ i < peak history := by
  intro s l
  obtain ⟨hanswers, h⟩ := run_keeps c history
  have hlen := h.compact.length_entries
  have hlive (i : Nat) (hi : i < s.size) : ∃ e, s.slots[i]? = some (some e) :=
    ⟨_, h.compact.getElem?_slots (by rwa [hlen])⟩
  exact ⟨hanswers, h.entries_eq, by rw [← hlen, h.entries_eq], hlive,
    fun _ => h.compact.slot_of_size_le, fun _ _ _ _ => h.slots_ne,
    fun _ _ => h.compact.slot_of_find?, doubled_capacity c history⟩

/-- A store is the map that its history describes. A key gives the value it was put with if the last
action for it, that is for an equal key, was to put it, and otherwise nothing. So actions for other
keys change nothing for it, and a key that differs from itself is never found. -/
theorem get_of_history (c : Nat) (history : List (Action κ α)) :
    let s := after c history
    (∀ k, match lastFor? history k with
      | some (.put _ v) => s.get k = .ok v ∧ s.contains k = true ∧ ∃ t, s.remove k = .ok (v, t)
      | _ => s.get k = .error .noSuchKey ∧ s.contains k = false ∧
          s.remove k = .error .noSuchKey) ∧
    (∀ k later, (∀ a ∈ later, (a.key == k) = false) →
      (after c (history ++ later)).get k = s.get k) ∧
    ∀ k, (k == k) = false → s.get k = .error .noSuchKey := by
  intro s
  refine ⟨fun k => ?_, fun k later hlater => ?_, fun k hk => ?_⟩
  · have hget : s.get? k = (lastFor? history k).bind Action.value? := get?_after c history k
    split
    · next v hlast => exact answers_of_get?_eq_some (by rw [hget, hlast]; rfl)
    · next hlast =>
      refine answers_of_get?_eq_none ?_
      rw [hget, Option.bind_eq_none_iff]
      intro a ha
      cases a with
      | put k' v => exact absurd ha (hlast k' v)
      | remove k' => rfl
  · rw [get, get, get?_after, get?_after, lastFor?_append hlater]
  · rw [get, get?_after, lastFor?_of_ne hk]
    rfl

end

/-! ## Histories with NaN as a key -/

/-- NaN is put twice and found neither time, so removing it changes nothing; removing 1 moves the last
entry into its slot. Three entries need the one slot doubled twice. -/
theorem slots_of_history_nan :
    let nan : Float := 0.0 / 0.0
    let history : List (Action Float Nat) :=
      [.put nan 1, .put 1.0 2, .put nan 3, .put 1.0 4, .remove nan, .remove 1.0]
    let s := after 0 history
    (nan == nan) = false ∧ s.entries = [(nan, 1), (nan, 3)] ∧ s.capacity = 4 := by
  intro nan history s
  obtain ⟨-, hentries, -, -, -, -, -, j, hcapacity, hpeak, hleast⟩ := slots_of_history 0 history
  have hthree : peak history = 3 := by
    subst nan history s
    rfl
  rw [hthree] at hpeak hleast
  have hj : j = 2 := by
    match j, hpeak, hleast with
    | 0, hpeak, _ | 1, hpeak, _ => simp at hpeak
    | 2, _, _ => rfl
    | j + 3, _, hleast => simpa using hleast 2 (by omega)
  rw [hj] at hcapacity
  refine ⟨?_, hentries.trans ?_, hcapacity⟩
  all_goals
    subst nan history s
    rfl

/-- Of `-0` and `0`, which are equal keys, the later action counts; and NaN is not found. -/
theorem get_of_history_zero :
    let nan : Float := 0.0 / 0.0
    let history : List (Action Float Nat) := [.put 0.0 1, .put nan 2, .put (-0.0) 3]
    let s := after 1 history
    s.get 0.0 = .ok 3 ∧ s.get nan = .error .noSuchKey ∧
      (after 1 (history ++ [.put 1.0 4, .remove 1.0])).get 0.0 = s.get 0.0 := by
  intro nan history s
  obtain ⟨hget, hlater, hnan⟩ := get_of_history 1 history
  have hlast : lastFor? history 0.0 = some (.put (-0.0) 3) := by rfl
  have hzero := hget 0.0
  rw [hlast] at hzero
  have hnan' : (nan == nan) = false := by
    subst nan history s
    rfl
  refine ⟨hzero.1, hnan nan hnan', hlater 0.0 _ ?_⟩
  simp only [List.mem_cons, List.not_mem_nil, or_false, forall_eq_or_imp, forall_eq, Action.key]
  exact ⟨by rfl, by rfl⟩

end GraphCalc.Store
