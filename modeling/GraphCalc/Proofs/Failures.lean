import Mathlib.Data.List.Forall2

/-!
# Computations that may fail

Which part of a sequence of computations has succeeded or failed (`ok_of_bind`, `error_of_bind`), and
how a list fares under a computation for each item: it succeeds if all items do (`mapM_eq_ok_iff`,
`exists_mapM_ok`), and otherwise fails as an item does (`error_of_mapM`). Only what becomes of its
items matters (`mapM_congr`).
-/

namespace GraphCalc

/-- A sequence of two computations without a failure. -/
theorem ok_of_bind {x : Except ε α} {g : α → Except ε β} {c : β} (h : x >>= g = .ok c) :
    ∃ a, x = .ok a ∧ g a = .ok c := by
  cases x with
  | error err => cases h
  | ok a => exact ⟨a, rfl, h⟩

/-- A sequence of two computations with a failure of the first or of the second. -/
theorem error_of_bind {x : Except ε α} {g : α → Except ε β} {err : ε}
    (h : x >>= g = .error err) : x = .error err ∨ ∃ a, x = .ok a ∧ g a = .error err := by
  cases x with
  | error err' => cases h; exact .inl rfl
  | ok a => exact .inr ⟨a, rfl, h⟩

/-- In two lists that are related item by item, each item of the second has a partner in the first. -/
theorem exists_mem_of_forall₂ {r : α → β → Prop} {l : List α} {m : List β}
    (h : List.Forall₂ r l m) {b : β} (hb : b ∈ m) : ∃ a ∈ l, r a b := by
  induction h with
  | nil => cases hb
  | cons hab _ ih =>
    rcases List.mem_cons.1 hb with rfl | hb
    · exact ⟨_, List.mem_cons_self, hab⟩
    · obtain ⟨a, ha, hr⟩ := ih hb
      exact ⟨a, List.mem_cons_of_mem _ ha, hr⟩

/-- Each item of the first has one too. -/
theorem exists_of_forall₂ {r : α → β → Prop} {l : List α} {m : List β} (h : List.Forall₂ r l m)
    {a : α} (ha : a ∈ l) : ∃ b, r a b := by
  obtain ⟨b, -, hr⟩ := exists_mem_of_forall₂ h.flip ha
  exact ⟨b, hr⟩

section
variable {ε α β : Type} {g : α → Except ε β}

/-- A list is mapped without a failure if each item is. -/
theorem mapM_eq_ok_iff : ∀ {l : List α} {m : List β},
    l.mapM g = .ok m ↔ List.Forall₂ (fun a b => g a = .ok b) l m
  | [], m => by
    rw [List.mapM_nil, List.forall₂_nil_left_iff]
    exact ⟨fun h => (Except.ok.inj h).symm, fun h => congrArg _ h.symm⟩
  | a :: l, m => by
    rw [List.mapM_cons, List.forall₂_cons_left_iff]
    constructor
    · intro h
      obtain ⟨b, hb, h⟩ := ok_of_bind h
      obtain ⟨m', hl, h⟩ := ok_of_bind h
      exact ⟨b, m', hb, mapM_eq_ok_iff.1 hl, (Except.ok.inj h).symm⟩
    · rintro ⟨b, m', hb, hl, rfl⟩
      rw [hb, mapM_eq_ok_iff.2 hl]
      rfl

/-- A list fails as one of its items does. -/
theorem error_of_mapM {err : ε} : ∀ {l : List α}, l.mapM g = .error err → ∃ a ∈ l, g a = .error err
  | [], h => by cases h
  | a :: l, h => by
    rw [List.mapM_cons] at h
    rcases error_of_bind h with ha | ⟨b, -, h⟩
    · exact ⟨a, List.mem_cons_self, ha⟩
    · rcases error_of_bind h with hl | ⟨m, -, h⟩
      · obtain ⟨a', hmem, ha'⟩ := error_of_mapM hl
        exact ⟨a', List.mem_cons_of_mem a hmem, ha'⟩
      · cases h

/-- A list is mapped alike by what maps its items alike. -/
theorem mapM_congr {g' : α → Except ε β} : ∀ {l : List α}, (∀ a ∈ l, g a = g' a) →
    l.mapM g = l.mapM g'
  | [], _ => rfl
  | a :: l, h => by
    have htail : l.mapM g = l.mapM g' := mapM_congr fun a' ha' => h a' (List.mem_cons_of_mem a ha')
    rw [List.mapM_cons, List.mapM_cons, h a List.mem_cons_self, htail]

/-- A list is mapped if all its items are. -/
theorem exists_mapM_ok {l : List α} (h : ∀ a ∈ l, ∃ b, g a = .ok b) : ∃ m, l.mapM g = .ok m := by
  cases hl : l.mapM g with
  | ok m => exact ⟨m, rfl⟩
  | error err =>
    obtain ⟨a, hmem, ha⟩ := error_of_mapM hl
    obtain ⟨b, hb⟩ := h a hmem
    cases ha.symm.trans hb

end

end GraphCalc
