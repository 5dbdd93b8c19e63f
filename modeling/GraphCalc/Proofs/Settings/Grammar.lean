import GraphCalc.Proofs.Text.Runs
import GraphCalc.Settings.Document

/-!
# How a document is written

A `Written` document is a text cut into its pieces: words, tokens, and the blanks between them, each
piece with the proof that it consists of the right characters. `Written.text` puts the pieces together
again. The main statement is that this can be undone in one way only (`Written.text_injective`):
nothing marks where a section, an entry or a scalar ends, but each kind of piece is ended by what can
follow it.

A separator with what can stand before and after it is used at three places, between scalars, between
entries and between sections; what is shown of it is shown for a `Series` of any items.
-/

namespace GraphCalc.Written

open GraphCalc.Section

/-! ## Pieces -/

/-- A letter or underscore, and then letters, digits and underscores. -/
abbrev Word := { cs : List Char // ∃ c r, cs = c :: r ∧ isWordStart c ∧ ∀ d ∈ r, isWordChar d }

/-- A non-empty run of characters that are neither white space nor `,` nor `;`. -/
abbrev Token := { cs : List Char // cs ≠ [] ∧ ∀ c ∈ cs, isTokenChar c }

/-- Spaces and tabs, if any. -/
abbrev Pad := { cs : List Char // ∀ c ∈ cs, isSpace c }

/-- A non-empty run of spaces, tabs and line ends. -/
abbrev Gap := { cs : List Char // cs ≠ [] ∧ ∀ c ∈ cs, isBreak c }

/-- An item and further ones, each after a separator. -/
structure Series (σ ι : Type) where
  first : ι
  further : List (σ × ι)

namespace Series

variable {σ ι : Type}

/-- The items in order, without the separators. -/
def items (s : Series σ ι) : List ι := s.first :: s.further.map Prod.snd

/-- The text of the further items and their separators. -/
def tail (sep : σ → List Char) (item : ι → List Char) (l : List (σ × ι)) : List Char :=
  l.flatMap fun (x, i) => sep x ++ item i

/-- The items with the separators between them. -/
def text (sep : σ → List Char) (item : ι → List Char) (s : Series σ ι) : List Char :=
  item s.first ++ tail sep item s.further

end Series

/-- A comma and the blanks around it. -/
def comma : Pad × Pad → List Char
  | (a, b) => a.1 ++ ',' :: b.1

/-- A key, a colon with blanks around it, and scalars with commas between them. -/
structure Entry where
  key : Word
  beforeColon : Pad
  afterColon : Pad
  values : Series (Pad × Pad) Token

/-- The key, the colon and the scalars, with the blanks as they are written. -/
def Entry.text (e : Entry) : List Char :=
  e.key.1 ++ (e.beforeColon.1 ++ ':' :: (e.afterColon.1 ++ e.values.text comma Subtype.val))

/-- A title and entries with gaps between them. -/
structure Section where
  title : Word
  gap : Gap
  entries : Series Gap Entry

/-- The title, the gap and the entries. -/
def Section.text (s : Section) : List Char :=
  s.title.1 ++ (s.gap.1 ++ s.entries.text Subtype.val Entry.text)

end Written

/-- Sections with gaps between them, if there are any. -/
abbrev Written := Option (Written.Series Written.Gap Written.Section)

namespace Written

open GraphCalc.Section

/-- The sections in order. An empty text has none. -/
def sections (w : Written) : List Section := w.elim [] Series.items

/-- The text that has been cut into these pieces. -/
def text (w : Written) : List Char := w.elim [] (Series.text Subtype.val Section.text)

/-- Where each entry belongs, and its tokens, in order. -/
def placed (w : Written) : List (Place × List (List Char)) :=
  w.sections.flatMap fun s => s.entries.items.map fun e =>
    (⟨String.ofList s.title.1, String.ofList e.key.1⟩, e.values.items.map Subtype.val)

/-! ## Characters -/

section
variable {c : Char}

/-- Spaces and tabs are breaks, among others. -/
theorem isBreak_of_isSpace (h : isSpace c = true) : isBreak c = true := by
  simp [isBreak, h]

/-- A word may go on with what it can begin with. -/
theorem isWordChar_of_isWordStart (h : isWordStart c = true) : isWordChar c = true := by
  simp only [isWordStart, isWordChar, Char.isAlphanum, Bool.or_eq_true] at h ⊢
  exact h.imp .inl id

/-- Breaks are blank. -/
theorem isBlank_of_isBreak (h : isBreak c = true) : Text.isBlank c = true := by
  simp only [isBreak, isSpace, Bool.or_eq_true, beq_iff_eq] at h
  rcases h with ((rfl | rfl) | rfl) | rfl <;> rfl

/-- There are no breaks in a token. -/
theorem isTokenChar_of_isBreak (h : isBreak c = true) : isTokenChar c = false := by
  simp [isTokenChar, isBlank_of_isBreak h]

/-- The characters of tokens are not breaks. -/
theorem isBreak_of_isTokenChar (h : isTokenChar c = true) : isBreak c = false := by
  rw [← Bool.not_eq_true]
  intro hc
  rw [isTokenChar_of_isBreak hc] at h
  cases h

/-- What is not a break is neither a space nor a tab. -/
theorem isSpace_of_isBreak (h : isBreak c = false) : isSpace c = false := by
  simp only [isBreak, Bool.or_eq_false_iff] at h
  exact h.1.1

/-- Letters, digits and underscores are neither blank nor separate scalars. -/
theorem isTokenChar_of_isWordChar (h : isWordChar c = true) : isTokenChar c = true := by
  delta isWordChar Char.isAlphanum Char.isAlpha Char.isUpper Char.isLower Char.isDigit at h
  simp only [Bool.or_eq_true, Bool.and_eq_true, decide_eq_true_eq, UInt32.le_iff_toNat_le, ge_iff_le,
    beq_iff_eq] at h
  rcases h with h | rfl
  · change ((65 ≤ c.toNat ∧ c.toNat ≤ 90) ∨ 97 ≤ c.toNat ∧ c.toNat ≤ 122) ∨
      48 ≤ c.toNat ∧ c.toNat ≤ 57 at h
    have hblank : Text.isBlank c = false := by
      rw [← Bool.not_eq_true]
      simp only [Text.isBlank, Text.blankRanges, List.any_cons, List.any_nil, Bool.or_eq_true,
        Bool.and_eq_true, decide_eq_true_eq, Bool.false_eq_true, or_false]
      omega
    have hcomma : c ≠ ',' := by
      rintro rfl
      exact absurd h (by decide)
    have hsemicolon : c ≠ ';' := by
      rintro rfl
      exact absurd h (by decide)
    simp [isTokenChar, hblank, hcomma, hsemicolon]
  · decide

/-- A word does not begin with a break. -/
theorem isBreak_of_isWordStart (h : isWordStart c = true) : isBreak c = false :=
  isBreak_of_isTokenChar (isTokenChar_of_isWordChar (isWordChar_of_isWordStart h))

/-- There are no breaks in a word. -/
theorem isWordChar_of_isBreak (h : isBreak c = true) : isWordChar c = false := by
  rw [← Bool.not_eq_true]
  intro hc
  rw [isBreak_of_isTokenChar (isTokenChar_of_isWordChar hc)] at h
  cases h

end

/-! ## Cutting a series -/

namespace Series

variable {σ ι : Type} {sep : σ → List Char} {item : ι → List Char}

/-- The pieces of the first separator and item, in front of the rest. -/
theorem tail_cons_append (x : σ) (i : ι) (l : List (σ × ι)) (r : List Char) :
    tail sep item ((x, i) :: l) ++ r = sep x ++ (item i ++ (tail sep item l ++ r)) := by
  simp [tail]

/-- What becomes of the first item, and of the further ones. -/
theorem map_items {α : Type} (s : Series σ ι) (f : ι → α) :
    s.items.map f = f s.first :: s.further.map fun x => f x.2 := by
  simp [items, Function.comp_def]

/-- An item ends where a separator and another item follow, or where the whole series ends. The two
cannot be confused. -/
structure Separated (sep : σ → List Char) (item : ι → List Char)
    (ItemEnd SeriesEnd : List Char → Prop) : Prop where
  next (x : σ) (i : ι) (r : List Char) : ItemEnd (sep x ++ (item i ++ r))
  last {r : List Char} : SeriesEnd r → ItemEnd r
  ne {r : List Char} (x : σ) (i : ι) (t : List Char) : SeriesEnd r → r ≠ sep x ++ (item i ++ t)

variable {ItemEnd SeriesEnd : List Char → Prop} (h : Separated sep item ItemEnd SeriesEnd)
include h

/-- Behind each item stands what can end it, whether or not further items follow. -/
theorem Separated.itemEnd {r : List Char} (hr : SeriesEnd r) (l : List (σ × ι)) :
    ItemEnd (tail sep item l ++ r) := by
  cases l with
  | nil => exact h.last hr
  | cons xi l =>
    rw [tail_cons_append]
    exact h.next ..

/-- A series is cut off in one way if its items and separators are. -/
theorem Separated.cuts {SepEnd : List Char → Prop} (hitem : Cuts item ItemEnd) (hsep : Cuts sep SepEnd)
    (hbegin : ∀ i r, SepEnd (item i ++ r)) : Cuts (text sep item) SeriesEnd := by
  -- The further items are compared one by one. Where one series has no more, the other would go on with
  -- a separator, which cannot stand behind a series.
  have htail (l l' : List (σ × ι)) {r s : List Char} (hr : SeriesEnd r) (hs : SeriesEnd s)
      (heq : tail sep item l ++ r = tail sep item l' ++ s) : l = l' ∧ r = s := by
    induction l generalizing l' with
    | nil =>
      cases l' with
      | nil => exact ⟨rfl, heq⟩
      | cons xi l' =>
        rw [tail_cons_append] at heq
        exact absurd heq (h.ne _ _ _ hr)
    | cons xi l ih =>
      rw [tail_cons_append] at heq
      cases l' with
      | nil => exact absurd heq.symm (h.ne _ _ _ hs)
      | cons xi' l' =>
        rw [tail_cons_append] at heq
        obtain ⟨hx, heq⟩ := hsep (hbegin ..) (hbegin ..) heq
        obtain ⟨hi, heq⟩ := hitem (h.itemEnd hr l) (h.itemEnd hs l') heq
        obtain ⟨hl, hrest⟩ := ih l' heq
        exact ⟨by rw [Prod.ext hx hi, hl], hrest⟩
  rintro ⟨i, l⟩ ⟨i', l'⟩ r s hr hs heq
  simp only [text, List.append_assoc] at heq
  obtain ⟨rfl, htails⟩ := hitem (h.itemEnd hr l) (h.itemEnd hs l') heq
  obtain ⟨rfl, hrest⟩ := htail l l' hr hs htails
  exact ⟨rfl, hrest⟩

end Series

/-! ## Where pieces end -/

/-- A word begins with a letter or an underscore. -/
theorem Word.starts (w : Word) : Starts isWordStart w.1 := by
  obtain ⟨_, c, t, rfl, hc, -⟩ := w
  exact ⟨c, t, rfl, hc⟩

/-- All of a word are letters, digits and underscores. -/
theorem Word.all (w : Word) : ∀ c ∈ w.1, isWordChar c = true := by
  obtain ⟨_, c, t, rfl, hc, ht⟩ := w
  simpa using ⟨isWordChar_of_isWordStart hc, ht⟩

/-- A token is not empty. -/
theorem Token.starts (k : Token) : Starts isTokenChar k.1 := starts_of_all k.2.1 k.2.2

/-- Neither is a gap. -/
theorem Gap.starts (g : Gap) : Starts isBreak g.1 := starts_of_all g.2.1 g.2.2

/-- An entry begins with its key. -/
theorem Entry.starts (e : Entry) : Starts isWordStart e.text := e.key.starts.append _

/-- A section begins with its title. -/
theorem Section.starts (s : Section) : Starts isWordStart s.text := s.title.starts.append _

/-- An entry ends where the text ends, and where a gap and a title or another key follow. -/
def EntryEnd (r : List Char) : Prop :=
  r = [] ∨ ∃ (g : Gap) (t : List Char), Starts isWordStart t ∧ r = g.1 ++ t

/-- A section ends where the text ends, and where a gap and another section follow. -/
def SectionEnd (r : List Char) : Prop :=
  r = [] ∨ ∃ (g : Gap) (s : Section) (t : List Char), r = g.1 ++ (s.text ++ t)

/-- The last token of an entry is not continued by what can follow the entry. -/
theorem EntryEnd.stops {r : List Char} (h : EntryEnd r) : Stops isTokenChar r := by
  obtain rfl | ⟨g, t, -, rfl⟩ := h
  · exact stops_nil
  · exact (g.starts.append t).stops fun _ => isTokenChar_of_isBreak

/-- The end of a section is the end of its last entry. -/
theorem SectionEnd.entryEnd {r : List Char} (h : SectionEnd r) : EntryEnd r := by
  obtain rfl | ⟨g, s, t, rfl⟩ := h
  · exact .inl rfl
  · exact .inr ⟨g, _, s.starts.append t, rfl⟩

/-- A word ends at the first character that is not one of a word. -/
theorem cuts_word : Cuts (Subtype.val : Word → List Char) (Stops isWordChar) :=
  cuts_run fun cs hcs => Word.all ⟨cs, hcs⟩

/-- A token ends at the first character that is not one of a token. -/
theorem cuts_token : Cuts (Subtype.val : Token → List Char) (Stops isTokenChar) :=
  cuts_run fun _ hcs => hcs.2

/-- A pad ends at the first character that is neither a space nor a tab. -/
theorem cuts_pad : Cuts (Subtype.val : Pad → List Char) (Stops isSpace) :=
  cuts_run fun _ hcs => hcs

/-- A gap ends at the first character that is not a break. -/
theorem cuts_gap : Cuts (Subtype.val : Gap → List Char) (Stops isBreak) :=
  cuts_run fun _ hcs => hcs.2

/-- Neither a pad nor what follows it begins with such a character. -/
theorem Pad.stops (a : Pad) {p : Char → Bool} {c : Char} (hp : ∀ d, isBreak d = true → p d = false)
    (hc : p c = false) (r : List Char) : Stops p (a.1 ++ c :: r) := by
  obtain ⟨_ | ⟨d, a⟩, ha⟩ := a
  · exact stops_cons hc
  · exact stops_cons (hp d (isBreak_of_isSpace (ha d List.mem_cons_self)))

/-- A gap is not continued by a word. -/
theorem stops_word {t : List Char} (ht : Starts isWordStart t) (r : List Char) :
    Stops isBreak (t ++ r) :=
  (ht.append r).stops fun _ => isBreak_of_isWordStart

/-- What follows a pad, breaks dropped. -/
theorem dropWhile_pad (a : Pad) {c : Char} (hc : isBreak c = false) (r : List Char) :
    (a.1 ++ c :: r).dropWhile isBreak = c :: r :=
  dropWhile_run (fun d hd => isBreak_of_isSpace (a.2 d hd)) (stops_cons hc)

/-- What follows a gap, breaks dropped. -/
theorem dropWhile_gap (g : Gap) {r : List Char} (hr : Starts isWordStart r) :
    (g.1 ++ r).dropWhile isBreak = r :=
  dropWhile_run g.2.2 (hr.stops fun _ => isBreak_of_isWordStart)

/-! ## Scalars -/

/-- The blanks in front of a token end where it begins. -/
theorem stops_token (k : Token) (r : List Char) : Stops isSpace (k.1 ++ r) :=
  (k.starts.append r).stops fun _ hc => isSpace_of_isBreak (isBreak_of_isTokenChar hc)

/-- A comma ends with the blanks behind it. -/
theorem cuts_comma : Cuts comma (Stops isSpace) := by
  rintro ⟨a, b⟩ ⟨a', b'⟩ r s hr hs heq
  simp only [comma, List.append_assoc, List.cons_append] at heq
  obtain ⟨rfl, htail⟩ := cuts_pad (stops_cons rfl) (stops_cons rfl) heq
  obtain ⟨rfl, hrest⟩ := cuts_pad hr hs (List.cons.inj htail).2
  exact ⟨rfl, hrest⟩

/-- A comma is followed by another scalar, and what begins an entry or a section is no comma. -/
theorem separated_scalars :
    Series.Separated comma (Subtype.val : Token → List Char) (Stops isTokenChar) EntryEnd where
  next := by
    rintro ⟨a, b⟩ k r
    rw [comma, List.append_assoc]
    exact a.stops (fun _ => isTokenChar_of_isBreak) rfl _
  last := EntryEnd.stops
  ne := by
    rintro r ⟨a, b⟩ k t (rfl | ⟨g, t', ht', rfl⟩) heq
    · simp [comma] at heq
    · have hdrop := congrArg (List.dropWhile isBreak) heq
      rw [comma, List.append_assoc, List.cons_append, dropWhile_pad a rfl, dropWhile_gap g ht'] at hdrop
      rw [hdrop] at ht'
      exact absurd ht'.cons (by decide)

/-- The scalars of an entry are told from what can follow the entry. -/
theorem cuts_scalars :
    Cuts (Series.text comma (Subtype.val : Token → List Char)) EntryEnd :=
  separated_scalars.cuts cuts_token cuts_comma stops_token

/-! ## Entries -/

/-- The pieces of an entry, in front of any text. -/
theorem Entry.text_append (e : Entry) (r : List Char) :
    e.text ++ r = e.key.1 ++ (e.beforeColon.1 ++
      ':' :: (e.afterColon.1 ++ (e.values.text comma Subtype.val ++ r))) := by
  simp [Entry.text]

/-- A key ends at the blanks in front of the colon, or at the colon itself. -/
theorem stops_beforeColon (a : Pad) (r : List Char) : Stops isWordChar (a.1 ++ ':' :: r) :=
  a.stops (fun _ => isWordChar_of_isBreak) rfl r

/-- The blanks behind the colon end where the first scalar begins. -/
theorem stops_scalars (v : Series (Pad × Pad) Token) (r : List Char) :
    Stops isSpace (v.text comma Subtype.val ++ r) := by
  rw [Series.text, List.append_assoc]
  exact stops_token v.first _

/-- An entry is told from what can follow it, piece by piece: the key, the blanks on both sides of the
colon, and the scalars. -/
theorem cuts_entry : Cuts Entry.text EntryEnd := by
  rintro ⟨key, a, b, values⟩ ⟨key', a', b', values'⟩ r s hr hs heq
  simp only [Entry.text_append] at heq
  obtain ⟨rfl, hcolon⟩ := cuts_word (stops_beforeColon _ _) (stops_beforeColon _ _) heq
  obtain ⟨rfl, hafter⟩ := cuts_pad (stops_cons rfl) (stops_cons rfl) hcolon
  obtain ⟨rfl, hscalars⟩ :=
    cuts_pad (stops_scalars _ _) (stops_scalars _ _) (List.cons.inj hafter).2
  obtain ⟨rfl, hrest⟩ := cuts_scalars hr hs hscalars
  exact ⟨rfl, hrest⟩

/-- The pieces of a section, in front of any text. -/
theorem Section.text_append (s : Section) (r : List Char) :
    s.text ++ r = s.title.1 ++ (s.gap.1 ++ (s.entries.text Subtype.val Entry.text ++ r)) := by
  simp [Section.text]

/-- The entries of a section begin with a key. -/
theorem starts_entries (es : Series Gap Entry) :
    Starts isWordStart (es.text Subtype.val Entry.text) :=
  es.first.starts.append _

/-- A word is not continued by a gap. -/
theorem stops_gap (g : Gap) (r : List Char) : Stops isWordChar (g.1 ++ r) :=
  (g.starts.append r).stops fun _ => isWordChar_of_isBreak

/-- A key and a title look alike, but a colon follows a key, and another word follows a title. -/
theorem entry_ne_section (e : Entry) (s : Section) (r t : List Char) : e.text ++ r ≠ s.text ++ t := by
  rw [Entry.text_append, Section.text_append]
  intro heq
  obtain ⟨-, hafter⟩ := cuts_word (stops_beforeColon _ _) (stops_gap _ _) heq
  have hentries := (starts_entries s.entries).append t
  have hdrop := congrArg (List.dropWhile isBreak) hafter
  rw [dropWhile_pad e.beforeColon rfl, dropWhile_gap s.gap hentries] at hdrop
  rw [← hdrop] at hentries
  exact absurd hentries.cons (by decide)

/-- A gap is followed by another entry, unless it is a section that follows. -/
theorem separated_entries :
    Series.Separated (Subtype.val : Gap → List Char) Entry.text EntryEnd SectionEnd where
  next g e r := .inr ⟨g, _, e.starts.append r, rfl⟩
  last := SectionEnd.entryEnd
  ne := by
    rintro r g e t (rfl | ⟨g', s, t', rfl⟩) heq
    · exact (e.starts.append t).ne_nil (List.append_eq_nil_iff.1 heq.symm).2
    · have hdrop := congrArg (List.dropWhile isBreak) heq
      rw [dropWhile_gap g (e.starts.append t), dropWhile_gap g' (s.starts.append t')] at hdrop
      exact entry_ne_section e s t t' hdrop.symm

/-- The entries of a section are told from what can follow the section. -/
theorem cuts_entries : Cuts (Series.text (Subtype.val : Gap → List Char) Entry.text) SectionEnd :=
  separated_entries.cuts cuts_entry cuts_gap fun e => stops_word e.starts

/-! ## Sections -/

/-- A section is told from what can follow it: the title ends at the gap, and the gap at the first
key. -/
theorem cuts_section : Cuts Section.text SectionEnd := by
  rintro ⟨title, gap, entries⟩ ⟨title', gap', entries'⟩ r s hr hs heq
  simp only [Section.text_append] at heq
  obtain ⟨rfl, hgap⟩ := cuts_word (stops_gap _ _) (stops_gap _ _) heq
  obtain ⟨rfl, hentries⟩ :=
    cuts_gap (stops_word (starts_entries _) r) (stops_word (starts_entries _) s) hgap
  obtain ⟨rfl, hrest⟩ := cuts_entries hr hs hentries
  exact ⟨rfl, hrest⟩

/-- A gap is followed by another section. -/
theorem separated_sections :
    Series.Separated (Subtype.val : Gap → List Char) Section.text SectionEnd (· = []) where
  next g s r := .inr ⟨g, s, r, rfl⟩
  last := .inl
  ne := by
    rintro r g s t rfl heq
    exact (s.starts.append t).ne_nil (List.append_eq_nil_iff.1 heq.symm).2

/-- The sections of a text are told from each other up to its end. -/
theorem cuts_sections :
    Cuts (Series.text (Subtype.val : Gap → List Char) Section.text) (· = []) :=
  separated_sections.cuts cuts_section cuts_gap fun s => stops_word s.starts

/-- A text is written in at most one way. -/
theorem text_injective {w w' : Written} (h : w.text = w'.text) : w = w' := by
  have hne (s : Series Gap Section) : s.text Subtype.val Section.text ≠ [] :=
    (s.first.starts.append _).ne_nil
  cases w with
  | none =>
    cases w' with
    | none => rfl
    | some s' => exact absurd h.symm (hne s')
  | some s =>
    cases w' with
    | none => exact absurd h (hne s)
    | some s' =>
      obtain ⟨rfl, -⟩ := cuts_sections rfl rfl (congrArg (· ++ []) h)
      rfl

end Written

end GraphCalc
