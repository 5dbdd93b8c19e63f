import GraphCalc.Proofs.Settings.Orders

/-!
# One document below another

Two texts with a line end between them are a document if each of them is one, and the lower one counts
where both say something (`Document.parse_append`). Nothing marks the end of a document, but its content
is cut at line ends before it is read: the content of the two texts is the one content below the other
(`Section.content_append`), and two written documents with a line end as the gap between their sections
are written as one (`Written.text_below`). As a text is written in one way only, the reader cannot take
the seam for anything else.
-/

namespace GraphCalc

/-! ## Contents -/

/-- There is always a line, if only an empty one. -/
theorem Text.lines_ne_nil (cs : List Char) : Text.lines cs ≠ [] := by
  cases cs with
  | nil => exact List.cons_ne_nil _ _
  | cons c cs =>
    rw [Text.lines]
    split
    · exact List.cons_ne_nil _ _
    · split <;> exact List.cons_ne_nil _ _

/-- A line end cuts the lines of a text in two. -/
theorem Text.lines_append (xs ys : List Char) :
    Text.lines (xs ++ '\n' :: ys) = Text.lines xs ++ Text.lines ys := by
  induction xs with
  | nil => simp [Text.lines]
  | cons c xs ih =>
    simp only [List.cons_append, Text.lines, ih]
    by_cases hc : c = '\n'
    · simp [hc]
    · cases hxs : Text.lines xs with
      | nil => exact absurd hxs (Text.lines_ne_nil xs)
      | cons l ls => simp [hc]

namespace Section

/-- One text below another, with a line end between them if both say something. -/
def stacked (xs ys : List Char) : List Char :=
  if xs = [] then ys else if ys = [] then xs else xs ++ '\n' :: ys

/-- Joined lines are not empty if the first of them is not. -/
theorem intercalate_cons_ne_nil {l : List Char} (hl : l ≠ []) (ls : List (List Char)) :
    List.intercalate ['\n'] (l :: ls) ≠ [] := by
  cases ls with
  | nil => rwa [List.intercalate_singleton]
  | cons l' ls => simp [List.intercalate_cons_cons]

/-- Joined lines are stacked with a line end, as they say something. -/
theorem stacked_cons {l ys : List Char} (ls : List (List Char)) (hl : l ≠ []) (hys : ys ≠ []) :
    stacked (List.intercalate ['\n'] (l :: ls)) ys =
      List.intercalate ['\n'] (l :: ls) ++ '\n' :: ys := by
  rw [stacked, if_neg (intercalate_cons_ne_nil hl ls), if_neg hys]

/-- Lines that say something, joined, are stacked where their list is cut. -/
theorem intercalate_append {ls rs : List (List Char)} (hls : ∀ l ∈ ls, l ≠ [])
    (hrs : ∀ l ∈ rs, l ≠ []) : List.intercalate ['\n'] (ls ++ rs) =
      stacked (List.intercalate ['\n'] ls) (List.intercalate ['\n'] rs) := by
  cases rs with
  | nil => simp [stacked]
  | cons r rs =>
    have hr : List.intercalate ['\n'] (r :: rs) ≠ [] :=
      intercalate_cons_ne_nil (hrs r List.mem_cons_self) rs
    induction ls with
    | nil => rfl
    | cons l ls ih =>
      obtain ⟨hl, hls⟩ := List.forall_mem_cons.1 hls
      rw [stacked_cons ls hl hr]
      cases ls with
      | nil => simp [List.intercalate_cons_cons]
      | cons l' ls =>
        have ih := ih hls
        rw [stacked_cons ls (hls l' List.mem_cons_self) hr] at ih
        simp only [List.cons_append, List.intercalate_cons_cons] at ih ⊢
        rw [ih]
        simp

/-- The content of two texts is the one content below the other, since comments and blanks do not reach
beyond their line. -/
theorem content_append (xs ys : List Char) :
    content (xs ++ '\n' :: ys) = stacked (content xs) (content ys) := by
  have hne (zs : List Char) :
      ∀ l ∈ ((Text.lines zs).map Text.trim).filter fun l => !l.isEmpty && !isComment l, l ≠ [] := by
    intro l hl hnil
    have hkept := (List.mem_filter.1 hl).2
    simp [hnil] at hkept
  simp only [content, Text.lines_append, List.map_append, List.filter_append]
  exact intercalate_append (hne xs) (hne ys)

end Section

/-! ## Written documents -/

namespace Written

open GraphCalc.Section (stacked)

/-- The line end that stands between two documents. -/
def lineEnd : Gap := ⟨['\n'], List.cons_ne_nil _ _, List.all_eq_true.1 rfl⟩

/-- One document above another. -/
def above : Written → Written → Written
  | none, w => w
  | some s, none => some s
  | some s, some t => some ⟨s.first, s.further ++ (lineEnd, t.first) :: t.further⟩

variable (w w' : Written)

/-- A document with a section is not empty. -/
theorem text_some_ne_nil (s : Series Gap Section) : Written.text (some s) ≠ [] :=
  (s.first.starts.append _).ne_nil

/-- One document above another is written as the one text above the other. -/
theorem text_above : (above w w').text = stacked w.text w'.text := by
  cases w with
  | none => rfl
  | some s =>
    rw [stacked, if_neg (text_some_ne_nil s)]
    cases w' with
    | none => rfl
    | some t =>
      rw [if_neg (text_some_ne_nil t)]
      simp [above, Written.text, Series.text, Series.tail, lineEnd]

/-- Its sections are those of the upper document and then those of the lower one. -/
theorem sections_above : (above w w').sections = w.sections ++ w'.sections := by
  cases w with
  | none => rfl
  | some s =>
    cases w' with
    | none => simp [above, sections]
    | some t => simp [above, sections, Series.items]

/-- The lower document counts where both say something. -/
theorem values?_above (p : Place) : (above w w').values? p = (w'.values? p).or (w.values? p) := by
  simp only [Written.values?, placed, sections_above, List.flatMap_append, List.reverse_append,
    List.find?_append, Option.map_or]

end Written

/-! ## Parsing and settings -/

namespace Document

variable {a b : String} {d d₁ d₂ : Document} {p : Place} {vs : List Scalar}

/-- With one entry at each place, every entry is the one that counts. -/
theorem values?_of_mem (hd : (d.entries.map Prod.fst).Nodup) {e : Place × List Scalar}
    (he : e ∈ d.entries) : d.values? e.1 = some e.2 := by
  cases hvs : d.values? e.1 with
  | none => exact absurd rfl (ne_of_values?_eq_none hvs he)
  | some vs =>
    have heq : (e.1, vs) = e := List.inj_on_of_nodup_map hd (mem_of_values? hvs) he rfl
    rw [← heq]

/-- Everything that the lower document says, and what else the upper one does. -/
structure Over (d d₁ d₂ : Document) : Prop where
  nodup : (d.entries.map Prod.fst).Nodup
  values?_eq : ∀ p, d.values? p = (d₂.values? p).or (d₁.values? p)

/-- Parsing a text below another one. -/
theorem exists_parse_append (h₁ : parse a = .ok d₁) (h₂ : parse b = .ok d₂) :
    ∃ d, parse (a ++ "\n" ++ b) = .ok d ∧ Over d d₁ d₂ := by
  obtain ⟨w₁, hw₁, rfl⟩ := parse_eq_ok_iff.1 h₁
  obtain ⟨w₂, hw₂, rfl⟩ := parse_eq_ok_iff.1 h₂
  have htext : (Written.above w₁ w₂).text = Section.content (a ++ "\n" ++ b).toList := by
    have hlist : (a ++ "\n" ++ b).toList = a.toList ++ '\n' :: b.toList := by simp
    rw [hlist, Section.content_append, Written.text_above, hw₁, hw₂]
  obtain ⟨hnodup, hvalues⟩ := ofSections_read (Written.above w₁ w₂)
  refine ⟨_, parse_eq_ok_iff.2 ⟨_, htext, rfl⟩, hnodup, fun p => ?_⟩
  rw [hvalues, Written.values?_above, (ofSections_read w₁).2, (ofSections_read w₂).2]

end Document

namespace Settings

open Setting (Gives)

variable {d d₁ d₂ : Document} {t t₁ t₂ : Settings}

/-- Settings are accepted from both if they are from each, and are those of the lower document where it
sets them. -/
theorem exists_ofDocument_over (hd : d.Over d₁ d₂) (hd₁ : (d₁.entries.map Prod.fst).Nodup)
    (hd₂ : (d₂.entries.map Prod.fst).Nodup) (h₁ : ofDocument d₁ = .ok t₁)
    (h₂ : ofDocument d₂ = .ok t₂) : ∃ t, ofDocument d = .ok t ∧
      ∀ s : Setting, t.get s = if (d₂.values? s.place).isSome then t₂.get s else t₁.get s := by
  have haccepted : ∀ e ∈ d.entries, Accepted e := by
    intro e he
    have hvs := Document.values?_of_mem hd.nodup he
    rw [hd.values?_eq, Option.or_eq_some_iff] at hvs
    rcases hvs with hvs | ⟨-, hvs⟩
    · exact exists_ofEntries_ok_iff.1 ⟨t₂, h₂⟩ e (Document.mem_of_values? hvs)
    · exact exists_ofEntries_ok_iff.1 ⟨t₁, h₁⟩ e (Document.mem_of_values? hvs)
  obtain ⟨t, ht⟩ := exists_ofEntries_ok_iff.2 haccepted
  refine ⟨t, ht, fun s => ?_⟩
  have hs := get_of_ofEntries hd.nodup (.refl _) ht s
  have hs₁ := get_of_ofEntries hd₁ (.refl _) h₁ s
  have hs₂ := get_of_ofEntries hd₂ (.refl _) h₂ s
  rw [hd.values?_eq] at hs
  cases hvs₂ : d₂.values? s.place with
  | some vs =>
    simp only [hvs₂, Option.some_or] at hs hs₂
    exact hs.unique hs₂
  | none =>
    simp only [hvs₂, Option.none_or] at hs
    cases hvs₁ : d₁.values? s.place with
    | some vs =>
      simp only [hvs₁] at hs hs₁
      exact hs.unique hs₁
    | none =>
      simp only [hvs₁] at hs hs₁
      exact hs.trans hs₁.symm

end Settings

/-- Two texts that are parsed are parsed together, one below the other, as the titles and keys of both.
What both have holds the values of the lower one. Settings that are accepted from each are accepted from
both together, and each of them is the one that the lower text sets, if it does, and else that of the
upper one. -/
theorem Document.parse_append {a b : String} {d₁ d₂ : Document} (h₁ : Document.parse a = .ok d₁)
    (h₂ : Document.parse b = .ok d₂) :
    (∃ d, Document.parse (a ++ "\n" ++ b) = .ok d ∧ (d.entries.map Prod.fst).Nodup ∧
      ∀ p, d.values? p = (d₂.values? p).or (d₁.values? p)) ∧
    ∀ t₁ t₂, Settings.ofText a = .ok t₁ → Settings.ofText b = .ok t₂ →
      ∃ t, Settings.ofText (a ++ "\n" ++ b) = .ok t ∧
        ∀ s : Setting, t.get s = if (d₂.values? s.place).isSome then t₂.get s else t₁.get s := by
  obtain ⟨d, hd, hover⟩ := exists_parse_append h₁ h₂
  refine ⟨⟨d, hd, hover.nodup, hover.values?_eq⟩, fun t₁ t₂ ht₁ ht₂ => ?_⟩
  have hof {text : String} {d : Document} (h : parse text = .ok d) :
      Settings.ofText text = Settings.ofDocument d := by
    rw [Settings.ofText, h]
    rfl
  rw [hof h₁] at ht₁
  rw [hof h₂] at ht₂
  rw [hof hd]
  exact Settings.exists_ofDocument_over hover (nodup_of_parse h₁) (nodup_of_parse h₂) ht₁ ht₂

/-- A text that ends in the middle of a line, above one that begins with a comment and comes back to its
title: the height stays, the output is changed, and the level is set in addition. -/
theorem Document.parse_append_same_title :
    let a := "plot height: 480 output: a.png"
    let b := "; later\nplot output : b.png\r\nlogging loglevel: warn\n"
    let d₁ : Document :=
      ⟨[(⟨"plot", "height"⟩, [.integer 480]), (⟨"plot", "output"⟩, [.string "a.png"])]⟩
    let d₂ : Document :=
      ⟨[(⟨"plot", "output"⟩, [.string "b.png"]), (⟨"logging", "loglevel"⟩, [.string "warn"])]⟩
    Document.parse a = .ok d₁ ∧ Document.parse b = .ok d₂ ∧
    ∃ d t, Document.parse (a ++ "\n" ++ b) = .ok d ∧
      d.values? ⟨"plot", "height"⟩ = some [.integer 480] ∧
      d.values? ⟨"plot", "output"⟩ = some [.string "b.png"] ∧
      Settings.ofText (a ++ "\n" ++ b) = .ok t ∧ t.height = 480 ∧ t.output = "b.png" ∧
      t.logLevel = .warn ∧ t.width = 800 := by
  intro a b d₁ d₂
  have h₁ : Document.parse a = .ok d₁ := by
    subst a d₁
    rfl
  have h₂ : Document.parse b = .ok d₂ := by
    subst b d₂
    rfl
  have ht₁ : Settings.ofText a = .ok { Settings.default with height := 480, output := "a.png" } := by
    rw [Settings.ofText, h₁]
    rfl
  have ht₂ : Settings.ofText b = .ok { Settings.default with output := "b.png", logLevel := .warn } := by
    rw [Settings.ofText, h₂]
    rfl
  obtain ⟨⟨d, hd, -, hvalues⟩, hsettings⟩ := Document.parse_append h₁ h₂
  obtain ⟨t, ht, hget⟩ := hsettings _ _ ht₁ ht₂
  exact ⟨h₁, h₂, d, t, hd, hvalues _, hvalues _, ht, hget .height, hget .output, hget .logLevel,
    hget .width⟩

end GraphCalc
