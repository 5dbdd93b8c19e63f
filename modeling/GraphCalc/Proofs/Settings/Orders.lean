import GraphCalc.Proofs.Settings.Fields
import GraphCalc.Proofs.Settings.Parse

/-!
# The order of entries

The entries of a document may be visited in any order. Each gives a value to another setting or is
refused, whatever came before, so the order decides neither whether the settings are accepted nor what
they are: a setting has the value of its own entry, or the default (`ofEntries_of_perm`). Only which
refused entry is reported may depend on the order, if there are several.
-/

namespace GraphCalc

namespace Document

variable {d : Document} {p : Place} {vs : List Scalar}

/-- A document that has been read has one entry at each place. -/
theorem nodup_of_parse {text : String} (h : parse text = .ok d) : (d.entries.map Prod.fst).Nodup := by
  unfold parse at h
  split at h
  · next sections _ =>
    cases h
    exact (foldl_put (placed sections)).1
  · cases h

/-- What counts at a place is an entry of the document. -/
theorem mem_of_values? (h : d.values? p = some vs) : (p, vs) ∈ d.entries := by
  obtain ⟨e, he, rfl⟩ := Option.map_eq_some_iff.1 h
  obtain rfl : e.1 = p := by simpa using List.find?_some he
  exact List.mem_of_find?_eq_some he

/-- If nothing counts at a place, no entry stands there. -/
theorem ne_of_values?_eq_none (h : d.values? p = none) {e : Place × List Scalar}
    (he : e ∈ d.entries) : e.1 ≠ p := by
  have hfind := List.find?_eq_none.1 (Option.map_eq_none_iff.1 h) e he
  simpa using hfind

end Document

namespace Settings

open Setting (Gives)

/-- The entry is accepted on its own. -/
def Accepted (e : Place × List Scalar) : Prop := ∃ t, default.apply e.1 e.2 = .ok t

/-- The entry is refused on its own. -/
def Refused (e : Place × List Scalar) (err : SettingsError) : Prop :=
  default.apply e.1 e.2 = .error err

variable {l l' : List (Place × List Scalar)} {t t' : Settings} {err : SettingsError}

/-! ## Entries one after the other -/

/-- The settings with entries applied, in the order given. -/
def applyAll (t : Settings) (l : List (Place × List Scalar)) : Except SettingsError Settings :=
  l.foldlM (fun t (p, vs) => t.apply p vs) t

/-- The first entry is applied, and then the others. -/
theorem applyAll_cons (t : Settings) (e : Place × List Scalar) (l : List (Place × List Scalar)) :
    t.applyAll (e :: l) = t.apply e.1 e.2 >>= fun t' => t'.applyAll l := rfl

/-- Entries that are applied are accepted, each. -/
theorem accepted_of_applyAll (h : t.applyAll l = .ok t') : ∀ e ∈ l, Accepted e := by
  induction l generalizing t with
  | nil => nofun
  | cons e l ih =>
    rw [applyAll_cons] at h
    obtain ⟨t₁, he, h⟩ := ok_of_bind h
    obtain ⟨s, a, ha, -⟩ := apply_eq_ok_iff.1 he
    exact List.forall_mem_cons.2 ⟨⟨_, apply_eq_ok_iff.2 ⟨s, a, ha, rfl⟩⟩, ih h⟩

/-- Entries are refused as one of them is. -/
theorem refused_of_applyAll (h : t.applyAll l = .error err) : ∃ e ∈ l, Refused e err := by
  induction l generalizing t with
  | nil => cases h
  | cons e l ih =>
    rw [applyAll_cons] at h
    rcases error_of_bind h with he | ⟨t₁, -, h⟩
    · exact ⟨e, List.mem_cons_self, apply_eq_error he default⟩
    · obtain ⟨e', hmem, he'⟩ := ih h
      exact ⟨e', List.mem_cons_of_mem e hmem, he'⟩

/-- Entries at different places set the fields of their places and leave the others alone. -/
theorem get_of_applyAll (s : Setting) (hl : (l.map Prod.fst).Nodup) (h : t.applyAll l = .ok t') :
    (∀ e ∈ l, e.1 = s.place → Gives e s (t'.get s)) ∧
      ((∀ e ∈ l, e.1 ≠ s.place) → t'.get s = t.get s) := by
  induction l generalizing t with
  | nil =>
    cases h
    exact ⟨nofun, fun _ => rfl⟩
  | cons e l ih =>
    rw [applyAll_cons] at h
    obtain ⟨t₁, he, h⟩ := ok_of_bind h
    obtain ⟨s₁, a, ha, rfl⟩ := apply_eq_ok_iff.1 he
    rw [List.map_cons, List.nodup_cons] at hl
    obtain ⟨hgiven, hleft⟩ := ih hl.2 h
    rw [get_set] at hleft
    constructor
    · refine List.forall_mem_cons.2 ⟨fun hplace => ?_, hgiven⟩
      obtain rfl : s₁ = s := Setting.place_injective (ha.1.symm.trans hplace)
      -- No later entry is at the same place.
      have hlater : ∀ e' ∈ l, e'.1 ≠ s₁.place := fun e' hmem heq =>
        hl.1 (List.mem_map.2 ⟨e', hmem, heq.trans hplace.symm⟩)
      rw [hleft hlater, Function.update_self]
      exact ha
    · intro hne
      obtain ⟨hne, hlater⟩ := List.forall_mem_cons.1 hne
      have hs : s ≠ s₁ := by
        rintro rfl
        exact hne ha.1
      rw [hleft hlater, Function.update_of_ne hs]

/-! ## Entries in any order -/

/-- Entries are accepted together if each is accepted on its own. -/
theorem exists_ofEntries_ok_iff : (∃ t, ofEntries l = .ok t) ↔ ∀ e ∈ l, Accepted e := by
  constructor
  · rintro ⟨t, h⟩
    exact accepted_of_applyAll h
  · intro hall
    cases h : ofEntries l with
    | ok t => exact ⟨t, rfl⟩
    | error err =>
      obtain ⟨e, hmem, he⟩ := refused_of_applyAll h
      obtain ⟨t, ht⟩ := hall e hmem
      cases he.symm.trans ht

/-- A setting has the value that its own entry gives it, or stays as it was. -/
theorem get_of_ofEntries {d : Document} (hd : (d.entries.map Prod.fst).Nodup)
    (hl : l.Perm d.entries) (h : ofEntries l = .ok t) (s : Setting) :
    match d.values? s.place with
    | some vs => Gives (s.place, vs) s (t.get s)
    | none => t.get s = default.get s := by
  obtain ⟨hgiven, hleft⟩ := get_of_applyAll s ((hl.map Prod.fst).nodup_iff.2 hd) h
  cases hvs : d.values? s.place with
  | some vs => exact hgiven _ (hl.mem_iff.2 (Document.mem_of_values? hvs)) rfl
  | none => exact hleft fun e he => Document.ne_of_values?_eq_none hvs (hl.mem_iff.1 he)

/-- The settings are the same in all orders. -/
theorem ofEntries_unique {d : Document} (hd : (d.entries.map Prod.fst).Nodup)
    (hl : l.Perm d.entries) (hl' : l'.Perm d.entries) (h : ofEntries l = .ok t)
    (h' : ofEntries l' = .ok t') : t = t' := by
  refine ext_get fun s => ?_
  have hs := get_of_ofEntries hd hl h s
  have hs' := get_of_ofEntries hd hl' h' s
  cases hvs : d.values? s.place with
  | some vs =>
    rw [hvs] at hs hs'
    exact hs.unique hs'
  | none =>
    rw [hvs] at hs hs'
    exact hs.trans hs'.symm

/-- The settings of a document that has been read do not depend on the order in which its entries are
visited. They are accepted if each entry is accepted on its own. Each of them has then the value that
its own entry gives it, or its default. If an entry is refused, the failure is that of a refused
entry. -/
theorem ofEntries_of_perm {text : String} {d : Document} (hd : Document.parse text = .ok d)
    (hl : l.Perm d.entries) :
    ofText text = ofEntries d.entries ∧
    ((∃ t, ofEntries l = .ok t) ↔ ∀ e ∈ d.entries, Accepted e) ∧
    (∀ t, ofEntries l = .ok t →
      (∀ s : Setting, match d.values? s.place with
        | some vs => Gives (s.place, vs) s (t.get s)
        | none => t.get s = default.get s) ∧
      ∀ l', l'.Perm d.entries → ofEntries l' = .ok t) ∧
    ((∃ e ∈ d.entries, ¬ Accepted e) →
      ∃ e ∈ d.entries, ∃ err, Refused e err ∧ ofEntries l = .error err) ∧
    ∀ e ∈ d.entries, ∀ err, Refused e err → (∀ e' ∈ d.entries, e' ≠ e → Accepted e') →
      ofEntries l = .error err := by
  have hnodup := Document.nodup_of_parse hd
  have haccepted : ∀ {l' : List (Place × List Scalar)}, l'.Perm d.entries →
      ((∃ t, ofEntries l' = .ok t) ↔ ∀ e ∈ d.entries, Accepted e) := by
    intro l' hl'
    simp only [exists_ofEntries_ok_iff, hl'.mem_iff]
  have hrefused : (∃ e ∈ d.entries, ¬ Accepted e) →
      ∃ e ∈ d.entries, ∃ err, Refused e err ∧ ofEntries l = .error err := by
    rintro ⟨e, hmem, he⟩
    cases h : ofEntries l with
    | ok t => exact absurd ((haccepted hl).1 ⟨t, h⟩ e hmem) he
    | error err =>
      obtain ⟨e', hmem', he'⟩ := refused_of_applyAll h
      exact ⟨e', hl.mem_iff.1 hmem', err, he', rfl⟩
  refine ⟨?_, haccepted hl, fun t h => ⟨get_of_ofEntries hnodup hl h, fun l' hl' => ?_⟩, hrefused,
    fun e hmem err he honly => ?_⟩
  · rw [ofText, hd]
    rfl
  · obtain ⟨t', h'⟩ := (haccepted hl').2 ((haccepted hl).1 ⟨t, h⟩)
    rw [h', ofEntries_unique hnodup hl hl' h h']
  · have hnot : ¬ Accepted e := fun ⟨t, ht⟩ => by cases he.symm.trans ht
    obtain ⟨e', hmem', err', he', herr⟩ := hrefused ⟨e, hmem, hnot⟩
    have heq : e' = e := by
      by_contra hne
      obtain ⟨t, ht⟩ := honly e' hmem' hne
      cases he'.symm.trans ht
    subst heq
    cases he.symm.trans he'
    exact herr

/-- Three entries in the opposite order give the same settings, and the later width counts. Of two
entries the one that is refused is reported, although it is visited last. -/
theorem ofEntries_of_perm_reversed :
    let text := "plot width: 640 height: 0\nlogging loglevel: debug\nplot width: 320"
    let d : Document := ⟨[(⟨"plot", "width"⟩, [.integer 320]), (⟨"plot", "height"⟩, [.integer 0]),
      (⟨"logging", "loglevel"⟩, [.string "debug"])]⟩
    let t : Settings := { default with logLevel := .debug, width := 320, height := 0 }
    let text' := "plot width: wide stepping: indexed"
    let wide : Place × List Scalar := (⟨"plot", "width"⟩, [.string "wide"])
    let indexed : Place × List Scalar := (⟨"plot", "stepping"⟩, [.string "indexed"])
    (Document.parse text = .ok d ∧ ofText text = .ok t ∧ ofEntries d.entries.reverse = .ok t) ∧
      Document.parse text' = .ok ⟨[wide, indexed]⟩ ∧
        ofEntries [indexed, wide] = .error (.invalidValue "width" "wide") := by
  intro text d t text' wide indexed
  have hd : Document.parse text = .ok d := by
    subst text d
    rfl
  have hd' : Document.parse text' = .ok ⟨[wide, indexed]⟩ := by
    subst text' wide indexed
    rfl
  have ht : ofEntries d.entries = .ok t := by rfl
  have ⟨htext, _, hok, _⟩ := ofEntries_of_perm hd (.refl _)
  have ⟨_, _, _, _, honly⟩ := ofEntries_of_perm hd' (.swap wide indexed [])
  refine ⟨⟨hd, htext.trans ht, (hok t ht).2 _ (List.reverse_perm _)⟩, hd', ?_⟩
  refine honly wide List.mem_cons_self _ rfl fun e hmem hne => ?_
  rcases List.mem_cons.1 hmem with rfl | hmem
  · exact absurd rfl hne
  · rw [List.mem_singleton.1 hmem]
    exact ⟨_, rfl⟩

end Settings

end GraphCalc
