import GraphCalc.Proofs.Settings.Reading
import Mathlib.Data.List.Induction
import Mathlib.Data.List.Nodup

/-!
# Parsing a document

A text is parsed if its content, its lines without comments, is written as a `Written` document, and
in no other case. It is then written so in one way, and each place holds what the last entry there
says (`Document.parse_written`).

Nothing is left before or after the sections, as the content neither begins nor ends with a blank.
-/

namespace GraphCalc

open Written

/-! ## The content of a text -/

namespace Section

/-- There are no blanks at the ends. -/
def Bare (l : List Char) : Prop := Stops Text.isBlank l ∧ Stops Text.isBlank l.reverse

/-- Trimming leaves no blanks at the ends. -/
theorem bare_trim (l : List Char) : Bare (Text.trim l) := by
  have hsplit : Text.trim l ++ ((l.dropWhile Text.isBlank).reverse.takeWhile Text.isBlank).reverse =
      l.dropWhile Text.isBlank := by
    rw [Text.trim, ← List.reverse_append, List.takeWhile_append_dropWhile, List.reverse_reverse]
  constructor
  · have hstop := stops_dropWhile Text.isBlank l
    rw [← hsplit] at hstop
    exact hstop.left
  · rw [Text.trim, List.reverse_reverse]
    exact stops_dropWhile _ _

/-- Neither does joining lines that are not empty and have none. The induction needs that they do not
join to nothing. -/
theorem bare_intercalate {ls : List (List Char)} (h : ∀ l ∈ ls, l ≠ [] ∧ Bare l) :
    Bare (List.intercalate ['\n'] ls) ∧ (ls ≠ [] → List.intercalate ['\n'] ls ≠ []) := by
  induction ls with
  | nil => exact ⟨⟨stops_nil, stops_nil⟩, fun hne => absurd rfl hne⟩
  | cons l ls ih =>
    obtain ⟨hl, hls⟩ := List.forall_mem_cons.1 h
    cases ls with
    | nil =>
      rw [List.intercalate_singleton]
      exact ⟨hl.2, fun _ => hl.1⟩
    | cons l' ls =>
      obtain ⟨hbare, hne⟩ := ih hls
      have hne := hne (List.cons_ne_nil _ _)
      rw [List.intercalate_cons_cons, List.append_assoc]
      refine ⟨⟨hl.2.1.append hl.1 _, ?_⟩, fun _ hnil => hl.1 (List.append_eq_nil_iff.1 hnil).1⟩
      rw [← List.append_assoc, List.reverse_append]
      exact hbare.2.append (by simpa using hne) _

/-- The content of a text has no blanks at its ends, since its lines are trimmed. -/
theorem bare_content (text : List Char) : Bare (content text) := by
  refine (bare_intercalate fun l hl => ?_).1
  obtain ⟨hmem, hkept⟩ := List.mem_filter.1 hl
  obtain ⟨line, -, rfl⟩ := List.mem_map.1 hmem
  refine ⟨?_, bare_trim line⟩
  rintro hnil
  simp [hnil] at hkept

/-- What does not begin with a blank does not begin with a break. -/
theorem stops_isBreak {l : List Char} (h : Stops Text.isBlank l) : Stops isBreak l :=
  h.imp fun _ => isBlank_of_isBreak

/-- All of a text without blanks at its ends is read if it is written as sections. -/
theorem many_section?_eq_iff {cs : List Char} (hcs : Bare cs) {ss : List Section} :
    many section? cs = (ss, []) ↔ ∃ w : Written, w.text = cs ∧ w.sections.map Section.read = ss := by
  constructor
  · intro h
    cases taken_of_many h with
    | nil => exact ⟨none, rfl, rfl⟩
    | cons hread hmore =>
      obtain ⟨s, breaks, rfl, hss, hbreaks, -⟩ := reads_sections.series_sound hread hmore
      refine ⟨some s, ?_, hss.symm⟩
      have hnil : breaks.reverse = [] := by
        cases hrev : breaks.reverse with
        | nil => rfl
        | cons c t =>
          -- The last break would be the last character.
          have hc : isBreak c = true := hbreaks c (List.mem_reverse.1 (by simp [hrev]))
          have hstop := stops_isBreak hcs.2
          simp only [List.append_nil, List.reverse_append, hrev] at hstop
          exact absurd hstop.left (Starts.not_stops ⟨c, t, rfl, hc⟩)
      rw [List.reverse_eq_nil_iff] at hnil
      simp [hnil, Written.text]
  · rintro ⟨w, rfl, rfl⟩
    cases w with
    | none => rfl
    | some s =>
      have hread := reads_sections.series_append rfl s
      rwa [List.append_nil] at hread

/-- All of a text is read if its content is written as sections, whatever they are. -/
theorem readAll_eq_iff {text : List Char} {ss : List Section} :
    readAll text = (ss, []) ↔
      ∃ w : Written, w.text = content text ∧ w.sections.map Section.read = ss := by
  have hbare := bare_content text
  rw [← many_section?_eq_iff hbare, readAll, ← List.nil_append (content text),
    dropWhile_run (by simp) (stops_isBreak hbare.1), List.nil_append]

end Section

/-! ## Merging -/

namespace Document

variable {d : Document} {p p' : Place} {vs : List Scalar}

/-- Setting a place that there is changes no place. -/
theorem fst_overwrite (e : Place × List Scalar) :
    (if e.1 == p then (p, vs) else e).1 = e.1 := by
  by_cases he : e.1 = p <;> simp [he]

/-- Setting a place decides what it holds, and leaves the others alone. -/
theorem values?_put (d : Document) (p p' : Place) (vs : List Scalar) :
    (d.put p vs).values? p' = if p = p' then some vs else d.values? p' := by
  rw [put]
  split
  · next hany =>
    simp only [values?, List.find?_map, Function.comp_def, fst_overwrite]
    cases hfind : d.entries.find? (fun e => e.1 == p') with
    | none =>
      have hne : p ≠ p' := by
        rintro rfl
        rw [List.any_eq_true] at hany
        obtain ⟨e, he, hp⟩ := hany
        exact List.find?_eq_none.1 hfind e he hp
      simp [hne]
    | some e =>
      have he : e.1 = p' := by simpa using List.find?_some hfind
      by_cases hp : p = p'
      · simp [he, hp]
      · simp [he, hp, Ne.symm hp]
  · next hnew =>
    simp only [values?, List.find?_append]
    by_cases hp : p = p'
    · subst hp
      have hnone : d.entries.find? (fun e => e.1 == p) = none := by
        rwa [← Option.not_isSome_iff_eq_none, List.find?_isSome, ← List.any_eq_true]
      simp [hnone]
    · simp [hp]

/-- No place is there twice after it is set. -/
theorem nodup_put (h : (d.entries.map Prod.fst).Nodup) (p : Place) (vs : List Scalar) :
    ((d.put p vs).entries.map Prod.fst).Nodup := by
  rw [put]
  split
  · simpa only [List.map_map, Function.comp_def, fst_overwrite] using h
  · next hnew =>
    rw [List.map_append]
    refine h.append (List.nodup_singleton p) ?_
    simpa using hnew

/-- Each place holds what was set last, and no place is there twice. -/
theorem foldl_put (l : List (Place × List Scalar)) :
    let d := l.foldl (fun d (p, vs) => d.put p vs) empty
    (d.entries.map Prod.fst).Nodup ∧
      ∀ p, d.values? p = (l.reverse.find? fun e => e.1 == p).map Prod.snd := by
  induction l using List.reverseRecOn with
  | nil => exact ⟨List.nodup_nil, fun _ => rfl⟩
  | append_singleton l e ih =>
    obtain ⟨hnodup, hvalues⟩ := ih
    rw [List.foldl_concat]
    refine ⟨nodup_put hnodup .., fun p => ?_⟩
    rw [values?_put, hvalues, List.reverse_concat, List.find?_cons]
    by_cases he : e.1 = p
    · simp [he]
    · simp only [he, if_false, beq_eq_false_iff_ne.2 he]

end Document

/-- What the last entry at a place says. -/
def Written.values? (w : Written) (p : Place) : Option (List Scalar) :=
  (w.placed.reverse.find? fun e => e.1 == p).map fun e => e.2.map Scalar.ofToken

/-- What is read is placed as what is written, with scalars for the tokens. -/
theorem Written.placed_read (w : Written) : Document.placed (w.sections.map Section.read) =
    w.placed.map fun e => (e.1, e.2.map Scalar.ofToken) := by
  simp [Document.placed, placed, List.flatMap_map, List.map_flatMap, Section.read, Entry.read,
    Function.comp_def]

namespace Document

/-- What is written says at each place what the last entry there says. -/
theorem ofSections_read (w : Written) :
    let d := ofSections (w.sections.map Section.read)
    (d.entries.map Prod.fst).Nodup ∧ ∀ p, d.values? p = w.values? p := by
  obtain ⟨hnodup, hvalues⟩ := foldl_put (placed (w.sections.map Section.read))
  refine ⟨hnodup, fun p => (hvalues p).trans ?_⟩
  rw [Written.placed_read, ← List.map_reverse, List.find?_map, Option.map_map]
  rfl

/-- A text is parsed as the sections that its content is written as. -/
theorem parse_eq_ok_iff {t : String} {d : Document} :
    parse t = .ok d ↔ ∃ w : Written, w.text = Section.content t.toList ∧
      ofSections (w.sections.map Section.read) = d := by
  rw [parse]
  constructor
  · intro h
    split at h
    · next sections hread =>
      cases h
      obtain ⟨w, hw, rfl⟩ := Section.readAll_eq_iff.1 hread
      exact ⟨w, hw, rfl⟩
    · cases h
  · rintro ⟨w, hw, rfl⟩
    rw [Section.readAll_eq_iff.2 ⟨w, hw, rfl⟩]

/-- What a comment begins with. -/
def commentMarks : List String := ["//", "#", "%", ";"]

/-- A line is a comment if it begins with one of the marks. -/
theorem isComment_eq (l : List Char) :
    Section.isComment l = commentMarks.any fun mark => mark.toList.isPrefixOf l := by
  have hmarks : (commentMarks.any fun mark => mark.toList.isPrefixOf l) =
      (['/', '/'].isPrefixOf l || ['#'].isPrefixOf l || ['%'].isPrefixOf l || [';'].isPrefixOf l) := by
    simp [commentMarks, Bool.or_assoc]
  rw [hmarks]
  unfold Section.isComment
  split
  · simp
  · simp
  · simp
  · simp
  · next hslashes hhash hpercent hsemicolon =>
    rw [eq_comm, ← Bool.not_eq_true]
    simp only [Bool.or_eq_true, List.isPrefixOf_iff_prefix]
    rintro (((⟨r, rfl⟩ | ⟨r, rfl⟩) | ⟨r, rfl⟩) | ⟨r, rfl⟩)
    · exact hslashes r rfl
    · exact hhash r rfl
    · exact hpercent r rfl
    · exact hsemicolon r rfl

/-- Take the lines without the blanks around them, leave out the empty ones and the comments, and join the
rest by line feeds. The text is parsed if this is written as a document, and in no other case. It is then
written so in one way, and each place holds the values of the last entry there. -/
theorem parse_written (t : String) :
    ∃ u, u = List.intercalate ['\n'] (((Text.lines t.toList).map Text.trim).filter fun l =>
        !l.isEmpty && !commentMarks.any fun mark => mark.toList.isPrefixOf l) ∧
      match parse t with
      | .ok d =>
        ∃ w : Written, w.text = u ∧ (∀ w' : Written, w'.text = u → w' = w) ∧
          (d.entries.map Prod.fst).Nodup ∧ ∀ p, d.values? p = w.values? p
      | .error e => (∃ rest, e = .unparsed rest) ∧ ∀ w : Written, w.text ≠ u := by
  refine ⟨Section.content t.toList, by simp only [Section.content, isComment_eq], ?_⟩
  rw [parse]
  cases hread : Section.readAll t.toList with
  | mk sections rest =>
    cases rest with
    | nil =>
      obtain ⟨w, hw, rfl⟩ := Section.readAll_eq_iff.1 hread
      exact ⟨w, hw, fun w' hw' => text_injective (hw'.trans hw.symm), ofSections_read w⟩
    | cons c rest =>
      refine ⟨⟨_, rfl⟩, fun w hw => ?_⟩
      rw [Section.readAll_eq_iff.2 ⟨w, hw, rfl⟩] at hread
      cases hread

/-- The later entry counts, although the title came up before. What has a colon after its first word
can still be a scalar. -/
example :
    let d := parse "plot size: 8 , 6 label: a:b\n# size: 9\nlog to: x\nplot\tsize:7"
    d.toOption.map (fun d => (d.values? ⟨"plot", "size"⟩, d.values? ⟨"plot", "label"⟩)) =
      some (some [.integer 7], some [.string "a:b"]) := by
  rfl

end Document

end GraphCalc
