/-!
# Runs of characters

A run of characters of one kind ends where the text does not go on with such a character. So a text has
one run of them in front (`takeWhile_run`, `dropWhile_run`), and pieces of a text that are such runs can
be cut off in one way (`cuts_run`).
-/

namespace GraphCalc.Written

section
variable {p q : Char → Bool} {c : Char} {xs r : List Char}

/-- The text begins with such a character. -/
def Starts (p : Char → Bool) (r : List Char) : Prop := ∃ c t, r = c :: t ∧ p c = true

/-- The text does not begin with such a character. -/
def Stops (p : Char → Bool) (r : List Char) : Prop := ∀ c ∈ r.head?, p c = false

/-- A text that is not empty begins with what all of it consists of. -/
theorem starts_of_all (hne : r ≠ []) (h : ∀ c ∈ r, p c = true) : Starts p r := by
  obtain ⟨c, t, rfl⟩ := List.exists_cons_of_ne_nil hne
  exact ⟨c, t, rfl, h c List.mem_cons_self⟩

/-- What is appended does not change how a text begins. -/
theorem Starts.append (h : Starts p xs) (r : List Char) : Starts p (xs ++ r) := by
  obtain ⟨c, t, rfl, hc⟩ := h
  exact ⟨c, t ++ r, rfl, hc⟩

/-- A wider class of characters will do. -/
theorem Starts.imp (h : Starts p r) (hpq : ∀ c, p c = true → q c = true) : Starts q r := by
  obtain ⟨c, t, rfl, hc⟩ := h
  exact ⟨c, t, rfl, hpq c hc⟩

/-- Only a text that is not empty begins with anything. -/
theorem Starts.ne_nil (h : Starts p r) : r ≠ [] := by
  obtain ⟨c, t, rfl, -⟩ := h
  exact List.cons_ne_nil c t

/-- The character that a text begins with is its first. -/
theorem Starts.cons (h : Starts p (c :: r)) : p c = true := by
  obtain ⟨d, t, heq, hd⟩ := h
  cases heq
  exact hd

/-- An empty text does not go on. -/
theorem stops_nil : Stops p [] := nofun

/-- A text does not go on with characters of a class that its first is not of. -/
theorem stops_cons (h : p c = false) : Stops p (c :: r) := by
  simpa [Stops] using h

/-- A text that begins with a character of one class does not go on with those of a class apart from
it. -/
theorem Starts.stops (h : Starts p r) (hpq : ∀ c, p c = true → q c = false) : Stops q r := by
  obtain ⟨c, t, rfl, hc⟩ := h
  exact stops_cons (hpq c hc)

/-- Beginning with such a character and not going on with one exclude each other. -/
theorem Starts.not_stops (h : Starts p r) : ¬Stops p r := by
  obtain ⟨c, t, rfl, hc⟩ := h
  intro hstop
  rw [hstop c rfl] at hc
  cases hc

/-- A narrower class of characters will do. -/
theorem Stops.imp (h : Stops p r) (hqp : ∀ c, q c = true → p c = true) : Stops q r := by
  intro c hc
  rw [← Bool.not_eq_true]
  intro hq
  have hp := hqp c hq
  rw [h c hc] at hp
  cases hp

/-- If a text does not go on so, neither does its front part. -/
theorem Stops.left (h : Stops p (xs ++ r)) : Stops p xs := by
  cases xs with
  | nil => exact stops_nil
  | cons c xs => exact h

/-- What is appended to a text that is not empty does not change how that begins. -/
theorem Stops.append (h : Stops p xs) (hne : xs ≠ []) (r : List Char) : Stops p (xs ++ r) := by
  cases xs with
  | nil => exact absurd rfl hne
  | cons c xs => exact h

/-- What is left after dropping does not begin with what has been dropped. -/
theorem stops_dropWhile (p : Char → Bool) (r : List Char) : Stops p (r.dropWhile p) := by
  intro c hc
  have hne : r.dropWhile p ≠ [] := by
    intro hnil
    rw [hnil] at hc
    cases hc
  rw [List.head?_eq_some_head hne] at hc
  cases hc
  simpa using List.head_dropWhile_not p hne

/-- All that is taken is of the class. -/
theorem all_takeWhile (p : Char → Bool) (cs : List Char) : ∀ c ∈ cs.takeWhile p, p c = true :=
  List.all_eq_true.1 List.all_takeWhile

/-- Taking stops where the run does. -/
theorem takeWhile_run (hxs : ∀ c ∈ xs, p c = true) (hr : Stops p r) : (xs ++ r).takeWhile p = xs := by
  rw [List.takeWhile_append_of_pos hxs]
  cases r with
  | nil => simp
  | cons c r => simp [hr c rfl]

/-- Dropping stops where the run does. -/
theorem dropWhile_run (hxs : ∀ c ∈ xs, p c = true) (hr : Stops p r) : (xs ++ r).dropWhile p = r := by
  rw [List.dropWhile_append_of_pos hxs]
  cases r with
  | nil => rfl
  | cons c r => simp [hr c rfl]

end

/-! ## Cutting a text -/

/-- Where one of the conditions holds next, a text has at most one piece of a kind in front. -/
def Cuts {α : Type} (text : α → List Char) (End : List Char → Prop) : Prop :=
  ∀ ⦃a b : α⦄ ⦃r s : List Char⦄, End r → End s → text a ++ r = text b ++ s → a = b ∧ r = s

/-- A run of characters ends where there is no further one of them. -/
theorem cuts_run {P : List Char → Prop} {p : Char → Bool} (h : ∀ cs, P cs → ∀ c ∈ cs, p c = true) :
    Cuts (fun cs : { cs // P cs } => cs.1) (Stops p) := by
  intro a b r s hr hs heq
  have ha := takeWhile_run (h a.1 a.2) hr
  have ha' := dropWhile_run (h a.1 a.2) hr
  rw [heq] at ha ha'
  rw [takeWhile_run (h b.1 b.2) hs] at ha
  rw [dropWhile_run (h b.1 b.2) hs] at ha'
  exact ⟨Subtype.ext ha.symm, ha'.symm⟩

end GraphCalc.Written
