import GraphCalc.Proofs.Settings.Grammar

/-!
# Reading what is written

The readers of entries and of sections take just what is written (`Written.reads_entries`,
`Written.reads_sections`). Whatever a reader takes is a piece (the lemmas in `_sound`), and in front
of what can follow a piece the reader takes that piece and no less or more (those in `_append`). That
a reader fails where no piece follows is a case of the first: it would have taken a piece, and the
text does not begin with one.

A reader of entries or sections also takes the breaks after its item. Whether there are any is seen
when another item follows: without them its first word would belong to the last scalar.
-/

namespace GraphCalc.Written

open GraphCalc.Section

/-! ## What is read -/

/-- The entry as the reader gives it. -/
def Entry.read (e : Entry) : GraphCalc.Entry :=
  ⟨String.ofList e.key.1, e.values.items.map fun k => Scalar.ofToken k.1⟩

/-- The section as the reader gives it. -/
def Section.read (s : Section) : GraphCalc.Section :=
  ⟨String.ofList s.title.1, s.entries.items.map Entry.read⟩

/-! ## Repeated reading -/

section
variable {α : Type} {read? : Reader α} {cs r : List Char} {as : List α}

/-- The items are read one after the other, and `r` is left. -/
inductive Taken (read? : Reader α) : List Char → List α → List Char → Prop
  | nil (r : List Char) : Taken read? r [] r
  | cons {cs cs' r : List Char} {a : α} {as : List α} :
    read? cs = some (a, cs') → Taken read? cs' as r → Taken read? cs (a :: as) r

/-- What is read repeatedly is read one after the other. -/
theorem taken_of_many (h : many read? cs = (as, r)) : Taken read? cs as r := by
  rw [many] at h
  generalize cs.length = n at h
  induction n generalizing cs as with
  | zero =>
    cases h
    exact .nil _
  | succ n ih =>
    rw [manyWithin] at h
    split at h
    · cases h
      exact .nil _
    · next hread =>
      cases h
      exact .cons hread (ih rfl)

/-- Everything that can be read is, as every item takes a character: the bound is not met before. -/
theorem Taken.many_eq (h : Taken read? cs as r) (hr : read? r = none)
    (hshort : ∀ cs a r, read? cs = some (a, r) → r.length < cs.length) :
    many read? cs = (as, r) := by
  have hwithin (n : Nat) (hn : cs.length ≤ n) : manyWithin read? n cs = (as, r) := by
    induction h generalizing n with
    | nil r =>
      cases n with
      | zero => rfl
      | succ n => rw [manyWithin, hr]
    | cons hread _ ih =>
      have hlt := hshort _ _ _ hread
      obtain _ | n := n
      · exact absurd hlt (by omega)
      · rw [manyWithin, hread]
        simp only [ih hr n (by omega)]
  exact hwithin _ (Nat.le_refl _)

/-- The further items of a series are read, by a reader that may drop something after its item. -/
theorem taken_tail {σ ι : Type} {sep : σ → List Char} {item : ι → List Char} {read : ι → α}
    {ItemEnd SeriesEnd : List Char → Prop} (drop : List Char → List Char)
    (hsep : Series.Separated sep item ItemEnd SeriesEnd)
    (hread : ∀ x i r, ItemEnd r → read? (drop (sep x ++ (item i ++ r))) = some (read i, drop r))
    (hr : SeriesEnd r) (l : List (σ × ι)) :
    Taken read? (drop (Series.tail sep item l ++ r)) (l.map fun x => read x.2) (drop r) := by
  induction l with
  | nil => exact .nil _
  | cons x l ih =>
    refine .cons ?_ ih
    rw [Series.tail_cons_append]
    exact hread x.1 x.2 _ (hsep.itemEnd hr l)

end

/-! ## Words and scalars -/

section
variable {cs r : List Char}

/-- A word that is read stands in front, and goes as far as its characters do. -/
theorem word?_sound {s : String} (h : word? cs = some (s, r)) :
    ∃ w : Word, cs = w.1 ++ r ∧ s = String.ofList w.1 ∧ Stops isWordChar r := by
  cases cs with
  | nil => cases h
  | cons c cs =>
    rw [word?] at h
    split at h
    · next hc =>
      cases h
      refine ⟨⟨c :: cs.takeWhile isWordChar, c, _, rfl, hc, all_takeWhile _ _⟩, ?_, rfl,
        stops_dropWhile _ _⟩
      rw [List.cons_append, List.takeWhile_append_dropWhile]
    · cases h

/-- A word is read if what follows does not continue it. -/
theorem word?_append (w : Word) (hr : Stops isWordChar r) :
    word? (w.1 ++ r) = some (String.ofList w.1, r) := by
  obtain ⟨_, c, t, rfl, hc, ht⟩ := w
  simp only [List.cons_append, word?, hc, if_true, takeWhile_run ht hr, dropWhile_run ht hr]

/-- A scalar that is read is that of a token in front, which goes as far as its characters do. -/
theorem scalar?_sound {v : Scalar} (h : scalar? cs = some (v, r)) :
    ∃ k : Token, cs = k.1 ++ r ∧ v = Scalar.ofToken k.1 ∧ Stops isTokenChar r := by
  simp only [scalar?] at h
  split at h
  · cases h
  · next hne =>
    cases h
    exact ⟨⟨cs.takeWhile isTokenChar, by simpa using hne, all_takeWhile _ _⟩,
      List.takeWhile_append_dropWhile.symm, rfl, stops_dropWhile _ _⟩

/-- The scalar of a token is read if what follows does not continue the token. -/
theorem scalar?_append (k : Token) (hr : Stops isTokenChar r) :
    scalar? (k.1 ++ r) = some (Scalar.ofToken k.1, r) := by
  obtain ⟨k, hne, hk⟩ := k
  simp only [scalar?, takeWhile_run hk hr, dropWhile_run hk hr, List.isEmpty_iff, hne, if_false]

/-- A text is a pad and what is left without it. -/
theorem exists_pad (cs : List Char) : ∃ a : Pad, cs = a.1 ++ cs.dropWhile isSpace :=
  ⟨⟨cs.takeWhile isSpace, all_takeWhile _ _⟩, List.takeWhile_append_dropWhile.symm⟩

/-- What follows a pad, spaces dropped. -/
theorem dropWhile_space (a : Pad) (hr : Stops isSpace r) : (a.1 ++ r).dropWhile isSpace = r :=
  dropWhile_run a.2 hr

/-- A further scalar that is read stands behind a comma. -/
theorem furtherScalar?_sound {v : Scalar} (h : furtherScalar? cs = some (v, r)) :
    ∃ (x : Pad × Pad) (k : Token), cs = comma x ++ (k.1 ++ r) ∧ v = Scalar.ofToken k.1 ∧
      Stops isTokenChar r := by
  rw [furtherScalar?] at h
  split at h
  · next t ht =>
    obtain ⟨a, ha⟩ := exists_pad cs
    obtain ⟨b, hb⟩ := exists_pad t
    obtain ⟨k, hk, hv, hr⟩ := scalar?_sound h
    rw [ht, hb, hk] at ha
    exact ⟨(a, b), k, by rw [ha, comma, List.append_assoc, List.cons_append], hv, hr⟩
  · cases h

/-- The scalar behind a comma is read, with any blanks around the comma. -/
theorem furtherScalar?_append (x : Pad × Pad) (k : Token) (hr : Stops isTokenChar r) :
    furtherScalar? (comma x ++ (k.1 ++ r)) = some (Scalar.ofToken k.1, r) := by
  obtain ⟨a, b⟩ := x
  rw [furtherScalar?, comma, List.append_assoc, List.cons_append, dropWhile_space a (stops_cons rfl)]
  simp only [dropWhile_space b (stops_token k r), scalar?_append k hr]

/-- No further scalar is read where an entry ends. -/
theorem furtherScalar?_eq_none (hr : EntryEnd r) : furtherScalar? r = none := by
  cases h : furtherScalar? r with
  | none => rfl
  | some read =>
    obtain ⟨x, k, heq, -⟩ := furtherScalar?_sound h
    exact absurd heq (separated_scalars.ne x k _ hr)

/-- Further scalars that are read stand in front, each behind a comma. -/
theorem furtherScalars_sound {vs : List Scalar} (h : Taken furtherScalar? cs vs r)
    (hcs : Stops isTokenChar cs) :
    ∃ l : List ((Pad × Pad) × Token), cs = Series.tail comma Subtype.val l ++ r ∧
      vs = l.map (fun x => Scalar.ofToken x.2.1) ∧ Stops isTokenChar r := by
  induction h with
  | nil r => exact ⟨[], rfl, rfl, hcs⟩
  | cons hread _ ih =>
    obtain ⟨x, k, rfl, rfl, hstop⟩ := furtherScalar?_sound hread
    obtain ⟨l, rfl, rfl, hr⟩ := ih hstop
    exact ⟨(x, k) :: l, (Series.tail_cons_append ..).symm, rfl, hr⟩

/-- All further scalars of an entry are read, up to where the entry ends. -/
theorem furtherScalars_append (hr : EntryEnd r) (l : List ((Pad × Pad) × Token)) :
    many furtherScalar? (Series.tail comma Subtype.val l ++ r) =
      (l.map fun x => Scalar.ofToken x.2.1, r) := by
  have htaken := taken_tail id separated_scalars (fun x k _ => furtherScalar?_append x k) hr l
  refine htaken.many_eq (furtherScalar?_eq_none hr) fun cs v r h => ?_
  obtain ⟨x, k, rfl, -⟩ := furtherScalar?_sound h
  simp only [comma, List.length_append, List.length_cons]
  omega

end

/-! ## Items with gaps between them -/

section
variable {ι β : Type} {item : ι → List Char} {read : ι → β} {read? : Reader β} {cs r : List Char}
  {b : β}

/-- The text is an item, breaks and what is left, and the last scalar of the item goes no further. -/
def Broken (item : ι → List Char) (read : ι → β) (cs : List Char) (b : β) (r : List Char) : Prop :=
  ∃ i breaks, cs = item i ++ (breaks ++ r) ∧ b = read i ∧ (∀ c ∈ breaks, isBreak c = true) ∧
    Stops isTokenChar (breaks ++ r)

/-- Two words would be one if there were no break between them. -/
theorem exists_gap {p : Char → Bool} {breaks t : List Char} (h : ∀ c ∈ breaks, isBreak c = true)
    (hstop : Stops p (breaks ++ t)) (ht : Starts isWordStart t)
    (hp : ∀ c, isWordStart c = true → p c = true) : ∃ g : Gap, breaks = g.1 := by
  refine ⟨⟨breaks, ?_, h⟩, rfl⟩
  rintro rfl
  exact (ht.imp hp).not_stops hstop

/-- A reader of items that begin with a word, and of the breaks after an item. -/
structure Reads (read? : Reader β) (item : ι → List Char) (read : ι → β)
    (ItemEnd SeriesEnd : List Char → Prop) : Prop where
  starts (i : ι) : Starts isWordStart (item i)
  separated : Series.Separated (Subtype.val : Gap → List Char) item ItemEnd SeriesEnd
  sound {cs r : List Char} {b : β} : read? cs = some (b, r) → Broken item read cs b r
  append (i : ι) {r : List Char} :
    ItemEnd r → read? (item i ++ r) = some (read i, r.dropWhile isBreak)
  none {r : List Char} : SeriesEnd r → read? (r.dropWhile isBreak) = none

namespace Reads

variable {ItemEnd SeriesEnd : List Char → Prop} (h : Reads read? item read ItemEnd SeriesEnd)
include h

/-- Reading an item takes at least its first character, so that repeated reading ends. -/
theorem length_lt (hread : read? cs = some (b, r)) : r.length < cs.length := by
  obtain ⟨i, breaks, rfl, -⟩ := h.sound hread
  have hpos := List.length_pos_iff.2 (h.starts i).ne_nil
  simp only [List.length_append]
  omega

/-- Items that are read one after the other are a series. -/
theorem series_sound {bs : List β} {cs' : List Char} (hread : read? cs = some (b, cs'))
    (hmore : Taken read? cs' bs r) :
    Broken (Series.text (Subtype.val : Gap → List Char) item) (fun s => s.items.map read) cs (b :: bs)
      r := by
  induction hmore generalizing cs b with
  | nil r =>
    obtain ⟨i, breaks, rfl, rfl, hbreaks, hstop⟩ := h.sound hread
    exact ⟨⟨i, []⟩, breaks, by simp [Series.text, Series.tail], rfl, hbreaks, hstop⟩
  | cons hnext _ ih =>
    obtain ⟨i, breaks, rfl, rfl, hbreaks, hstop⟩ := h.sound hread
    obtain ⟨⟨j, l⟩, breaks', rfl, hbs, hbreaks', hstop'⟩ := ih hnext
    have hj : Starts isWordStart (Series.text (Subtype.val : Gap → List Char) item ⟨j, l⟩) :=
      (h.starts j).append _
    obtain ⟨g, rfl⟩ := exists_gap hbreaks hstop (hj.append _) fun c hc =>
      isTokenChar_of_isWordChar (isWordChar_of_isWordStart hc)
    refine ⟨⟨i, (g, j) :: l⟩, breaks', ?_, ?_, hbreaks', hstop'⟩
    · simp only [Series.text, List.append_assoc, Series.tail_cons_append]
    · rw [hbs]
      rfl

/-- The further items of a series are read one after the other. The gap before each has been dropped
with the item before it. -/
theorem taken_further (hr : SeriesEnd r) (l : List (Gap × ι)) :
    Taken read? ((Series.tail Subtype.val item l ++ r).dropWhile isBreak) (l.map fun x => read x.2)
      (r.dropWhile isBreak) := by
  refine taken_tail (List.dropWhile isBreak) h.separated (fun g i r hend => ?_) hr l
  rw [dropWhile_gap g ((h.starts i).append r)]
  exact h.append i hend

/-- The items of a series after the first one are read. -/
theorem further_append (hr : SeriesEnd r) (l : List (Gap × ι)) :
    many read? ((Series.tail Subtype.val item l ++ r).dropWhile isBreak) =
      (l.map fun x => read x.2, r.dropWhile isBreak) :=
  (h.taken_further hr l).many_eq (h.none hr) fun _ _ _ => h.length_lt

/-- The items of a series are read. -/
theorem series_append (hr : SeriesEnd r) (s : Series Gap ι) :
    many read? (s.text Subtype.val item ++ r) = (s.items.map read, r.dropWhile isBreak) := by
  have hfirst := h.append s.first (h.separated.itemEnd hr s.further)
  rw [Series.text, List.append_assoc, Series.map_items]
  exact (Taken.cons hfirst (h.taken_further hr _)).many_eq (h.none hr) fun _ _ _ => h.length_lt

end Reads

end

/-! ## Entries -/

section
variable {cs r : List Char}

/-- An entry that is read stands in front, and the breaks behind it are dropped. -/
theorem entry?_sound {e : GraphCalc.Entry} (h : entry? cs = some (e, r)) :
    Broken Entry.text Entry.read cs e r := by
  obtain ⟨⟨key, t⟩, hkey, h⟩ := Option.bind_eq_some_iff.1 h
  obtain ⟨w, rfl, rfl, -⟩ := word?_sound hkey
  dsimp only at h
  split at h
  · next t' ht =>
    obtain ⟨⟨v, u⟩, hv, h⟩ := Option.bind_eq_some_iff.1 h
    rcases hmany : many furtherScalar? u with ⟨vs, rest⟩
    simp only [hmany] at h
    cases h
    obtain ⟨a, ha⟩ := exists_pad t
    obtain ⟨b, hb⟩ := exists_pad t'
    obtain ⟨k, hk, rfl, hstop⟩ := scalar?_sound hv
    obtain ⟨l, rfl, rfl, hstop'⟩ := furtherScalars_sound (taken_of_many hmany) hstop
    refine ⟨⟨w, a, b, k, l⟩, rest.takeWhile isBreak, ?_, ?_, all_takeWhile _ _, ?_⟩
    · rw [List.takeWhile_append_dropWhile, Entry.text_append, Series.text, List.append_assoc, ← hk,
        ← hb, ← ht, ← ha]
    · rw [Entry.read, Series.map_items]
    · rwa [List.takeWhile_append_dropWhile]
  · cases h

/-- An entry is read where it can end, and the breaks behind it are dropped. -/
theorem entry?_append (e : Entry) (hr : EntryEnd r) :
    entry? (e.text ++ r) = some (e.read, r.dropWhile isBreak) := by
  obtain ⟨key, a, b, ⟨k, l⟩⟩ := e
  have hk := scalar?_append k (separated_scalars.itemEnd hr l)
  rw [Entry.text_append, entry?, word?_append key (stops_beforeColon a _)]
  simp only [Option.bind_eq_bind, Option.bind_some]
  rw [dropWhile_space a (stops_cons rfl)]
  simp only [Series.text, List.append_assoc]
  rw [dropWhile_space b (stops_token k _), hk, Option.bind_some]
  rw [furtherScalars_append hr, Entry.read, Series.map_items]
  rfl

/-- No entry is read where a section ends: the next section would have to begin like an entry. -/
theorem entry?_eq_none (hr : SectionEnd r) : entry? (r.dropWhile isBreak) = none := by
  cases h : entry? (r.dropWhile isBreak) with
  | none => rfl
  | some read =>
    obtain ⟨e, breaks, heq, -⟩ := entry?_sound h
    obtain rfl | ⟨g, s, t, rfl⟩ := hr
    · exact absurd heq.symm (e.starts.append _).ne_nil
    · rw [dropWhile_gap g (s.starts.append t)] at heq
      exact absurd heq.symm (entry_ne_section e s _ t)

/-- Entries are read as they are written. -/
theorem reads_entries : Reads entry? Entry.text Entry.read EntryEnd SectionEnd where
  starts := Entry.starts
  separated := separated_entries
  sound := entry?_sound
  append := fun e _ => entry?_append e
  none := entry?_eq_none

/-! ## Sections -/

/-- A section that is read stands in front. Its title and its first key are two words, so there is a gap
between them. -/
theorem section?_sound {s : GraphCalc.Section} (h : section? cs = some (s, r)) :
    Broken Section.text Section.read cs s r := by
  obtain ⟨⟨title, t⟩, htitle, h⟩ := Option.bind_eq_some_iff.1 h
  obtain ⟨w, rfl, rfl, hstop⟩ := word?_sound htitle
  obtain ⟨⟨e, u⟩, he, h⟩ := Option.bind_eq_some_iff.1 h
  rcases hmany : many entry? u with ⟨es, rest⟩
  simp only [hmany] at h
  cases h
  obtain ⟨entries, breaks, hentries, hread, hbreaks, hstop'⟩ :=
    reads_entries.series_sound he (taken_of_many hmany)
  have ht : t.takeWhile isBreak ++ t.dropWhile isBreak = t := List.takeWhile_append_dropWhile
  rw [hentries] at ht
  rw [← ht] at hstop
  obtain ⟨g, hg⟩ := exists_gap (all_takeWhile _ _) hstop ((starts_entries entries).append _) fun _ =>
    isWordChar_of_isWordStart
  refine ⟨⟨w, g, entries⟩, breaks, ?_, ?_, hbreaks, hstop'⟩
  · rw [Section.text_append, ← hg, ht]
  · rw [hread, Section.read]

/-- A section is read where it can end, and the breaks behind it are dropped. -/
theorem section?_append (s : Section) (hr : SectionEnd r) : section? (s.text ++ r) =
    some (s.read, r.dropWhile isBreak) := by
  obtain ⟨title, g, ⟨e, l⟩⟩ := s
  have he := entry?_append e (separated_entries.itemEnd hr l)
  rw [Section.text_append, section?, word?_append title (stops_gap g _)]
  simp only [Option.bind_eq_bind, Option.bind_some]
  rw [dropWhile_gap g ((starts_entries _).append r), Series.text, List.append_assoc, he]
  rw [Option.bind_some, reads_entries.further_append hr, Section.read, Series.map_items]
  rfl

/-- Sections are read as they are written, up to the end of the text. -/
theorem reads_sections : Reads section? Section.text Section.read SectionEnd (· = []) where
  starts := Section.starts
  separated := separated_sections
  sound := section?_sound
  append := fun s _ => section?_append s
  none := by
    rintro r rfl
    rfl

end

end GraphCalc.Written
