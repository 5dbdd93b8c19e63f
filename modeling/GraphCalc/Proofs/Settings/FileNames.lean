import GraphCalc.Proofs.Decimal.Digits
import GraphCalc.Proofs.Settings.Orders

/-!
# File names in settings

A path in a document is read like any other scalar: its token is told to be an integer, a float, a truth
value or a string, and the path is the text of that (`Settings.path_of_token`). Strings and truth values
come back as they were written. A number is written anew, which changes the token unless it was spelt as
the number is (`Scalar.text_ofToken_eq_iff`): leading zeros and plus signs are lost, and exponents are
written out.

The entry that counts is found from the pieces that the document is written in, since these keep the
tokens (`Settings.value?_of_token`).
-/

namespace GraphCalc

/-! ## Tokens -/

namespace Scalar

open Decimal

/-- A token as integers are written: zero, or without a plus sign and without a zero in front. -/
def PlainInteger (token : List Char) : Prop :=
  token = ['0'] ∨ token.head? ≠ some '+' ∧ (splitSign token).2.head? ≠ some '0'

/-- A natural number is written with its digits only. -/
theorem toString_ofNat (n : Nat) : toString (n : Int) = String.ofList (Nat.toDigits 10 n) :=
  Nat.toString_eq_ofList_toDigits

/-- A negative number is written with a minus sign and the digits of its magnitude. -/
theorem toString_neg {n : Nat} (hn : 0 < n) :
    toString (-(n : Int)) = String.ofList ('-' :: Nat.toDigits 10 n) := by
  obtain ⟨m, rfl⟩ := Nat.exists_eq_succ_of_ne_zero (Nat.ne_of_gt hn)
  change "-" ++ toString (m + 1) = _
  rw [Nat.toString_eq_ofList_toDigits, ← List.singleton_append, String.ofList_append]

/-- The text of an integer is its token if the token is written as integers are. -/
theorem toString_eq_token_iff {token : List Char} {i : Int} (h : integer? token = some i) :
    toString i = String.ofList token ↔ PlainInteger token := by
  unfold PlainInteger
  rcases splitSign_cases token with ⟨ds, rfl, hsplit⟩ | ⟨ds, rfl, hsplit⟩ | ⟨hplus, hsplit⟩
  all_goals
    simp only [integer?, hsplit, Option.ite_none_right_eq_some, Option.some.injEq] at h
    obtain ⟨⟨hne, hds, -⟩, rfl⟩ := h
    rw [List.all_eq_true] at hds
    simp only [hsplit, Bool.false_eq_true, if_true, if_false]
  · rcases Nat.eq_zero_or_pos (digitsValue ds) with hzero | hpos
    · -- A negative zero is written without its sign, and begins with a zero.
      have hhead : ds.head? = some '0' := by
        by_contra hhead
        exact absurd (toDigits_digitsValue hne hds hhead).1 (by omega)
      have htext : toString (-(0 : Nat) : Int) = String.ofList ['0'] := rfl
      rw [hzero, htext, String.ofList_inj]
      simp [hhead]
    · have hzero : ds ≠ ['0'] := by
        rintro rfl
        exact absurd hpos (by decide)
      rw [toString_neg hpos, String.ofList_inj, List.cons_inj_right,
        toDigits_digitsValue_eq_iff hne hds]
      simp [hzero]
  · have hdigit : Nat.toDigits 10 (digitsValue ds) ≠ '+' :: ds := by
      intro hdigits
      have hplus : '+' ∈ Nat.toDigits 10 (digitsValue ds) := by simp [hdigits]
      exact absurd (Nat.isDigit_of_mem_toDigits (by decide) (by decide) hplus) (by decide)
    rw [toString_ofNat, String.ofList_inj]
    simp [hdigit]
  · rw [toString_ofNat, String.ofList_inj, toDigits_digitsValue_eq_iff hne hds]
    simp [hplus]

/-- Whether a token is written as what it stands for. -/
def AsWritten (token : List Char) : Prop :=
  match ofToken token with
  | string _ | boolean _ => True
  | integer _ => PlainInteger token
  | float v => Decimal.plain v = String.ofList token

/-- A token is an integer, a float, one of the two truth values as they are written, or a string, which
is the token itself. -/
theorem ofToken_cases (token : List Char) :
    (∃ i, integer? token = some i ∧ ofToken token = integer i) ∨
      (∃ v, ofToken token = float v) ∨
      (∃ b, String.ofList token = Text.truth b ∧ ofToken token = boolean b) ∨
      ofToken token = string (String.ofList token) := by
  simp only [ofToken]
  cases hi : integer? token with
  | some i => exact .inl ⟨i, rfl, rfl⟩
  | none =>
    cases hv : read? (String.ofList token) with
    | some v => exact .inr (.inl ⟨v, rfl⟩)
    | none =>
      by_cases htrue : String.ofList token = "true"
      · exact .inr (.inr (.inl ⟨true, htrue, if_pos htrue⟩))
      · simp only [if_neg htrue]
        by_cases hfalse : String.ofList token = "false"
        · exact .inr (.inr (.inl ⟨false, hfalse, if_pos hfalse⟩))
        · exact .inr (.inr (.inr (if_neg hfalse)))

/-- A scalar is written as its token just if the token is written as what it stands for. -/
theorem text_ofToken_eq_iff (token : List Char) :
    (ofToken token).text = String.ofList token ↔ AsWritten token := by
  unfold AsWritten
  rcases ofToken_cases token with ⟨i, hi, h⟩ | ⟨v, h⟩ | ⟨b, hb, h⟩ | h
  · rw [h]
    exact toString_eq_token_iff hi
  · rw [h]
    rfl
  · simp [h, text, hb]
  · simp [h, text]

end Scalar

/-! ## Written entries -/

namespace Written

open GraphCalc.Section (content isComment isTokenChar isWordStart Bare)

/-- What the last entry at a place has been written with. -/
def tokens? (w : Written) (p : Place) : Option (List (List Char)) :=
  (w.placed.reverse.find? fun e => e.1 == p).map Prod.snd

/-- The scalars that count at a place are those of the tokens that count there. -/
theorem values?_eq (w : Written) (p : Place) :
    w.values? p = (tokens? w p).map fun ks => ks.map Scalar.ofToken := by
  rw [tokens?, Option.map_map]
  rfl

/-- A single entry on a line of its own. -/
def line (title key : Word) (k : Token) : Written :=
  some ⟨⟨title, ⟨[' '], List.cons_ne_nil _ _, List.all_eq_true.1 rfl⟩,
    ⟨⟨key, ⟨[], nofun⟩, ⟨[' '], List.all_eq_true.1 rfl⟩, ⟨k, []⟩⟩, []⟩⟩, []⟩

variable (title key : Word) (k : Token)

/-- There is one blank behind the title and one behind the colon. -/
theorem text_line :
    (line title key k).text = title.1 ++ ' ' :: (key.1 ++ ':' :: ' ' :: k.1) := by
  simp [line, Written.text, Series.text, Series.tail, Section.text, Entry.text]

/-- There are no blanks in a token. -/
theorem isBlank_of_isTokenChar {c : Char} (h : isTokenChar c = true) : Text.isBlank c = false := by
  simp only [isTokenChar, Bool.and_eq_true, Bool.not_eq_true'] at h
  exact h.1.1

/-- There are no blanks in a word either. -/
theorem isBlank_of_isWordChar {c : Char} (h : Section.isWordChar c = true) :
    Text.isBlank c = false :=
  isBlank_of_isTokenChar (isTokenChar_of_isWordChar h)

/-- The line has no blanks at its ends: it begins with the title and ends with the token. -/
theorem bare_line : Bare (line title key k).text := by
  rw [text_line]
  constructor
  · exact (title.starts.append _).stops fun _ h =>
      isBlank_of_isWordChar (isWordChar_of_isWordStart h)
  · -- The last character is that of the token.
    have hback : Starts isTokenChar k.1.reverse :=
      starts_of_all (List.reverse_ne_nil_iff.2 k.2.1) fun c hc => k.2.2 c (List.mem_reverse.1 hc)
    simpa using (hback.append _).stops fun _ => isBlank_of_isTokenChar

/-- It is one line, as neither words nor tokens have line ends in them. -/
theorem newline_not_mem_line : '\n' ∉ (line title key k).text := by
  have hblank : Text.isBlank '\n' = true := rfl
  have hword (w : Word) : '\n' ∉ w.1 := fun h => by
    simp [isBlank_of_isWordChar (w.all _ h)] at hblank
  have htoken : '\n' ∉ k.1 := fun h => by
    simp [isBlank_of_isTokenChar (k.2.2 _ h)] at hblank
  simp [text_line, hword, htoken]

/-- A line that begins with a word is not a comment. -/
theorem isComment_of_starts {cs : List Char} (h : Starts isWordStart cs) : isComment cs = false := by
  obtain ⟨c, t, rfl, hc⟩ := h
  unfold isComment
  split
  case h_5 => rfl
  all_goals
    rename_i heq
    cases heq
    cases hc

/-- There is nothing to drop in front of a text that does not begin so. -/
theorem Stops.dropWhile_eq {p : Char → Bool} {r : List Char} (h : Stops p r) : r.dropWhile p = r := by
  cases r with
  | nil => rfl
  | cons c r => simp [h c rfl]

/-- A line that says something is its own content, if it has no blanks at its ends. -/
theorem content_of_bare {cs : List Char} (hne : cs ≠ []) (hline : '\n' ∉ cs) (hbare : Bare cs)
    (hcomment : isComment cs = false) : content cs = cs := by
  have hlines : Text.lines cs = [cs] := by
    clear hne hbare hcomment
    induction cs with
    | nil => rfl
    | cons c cs ih =>
      rw [List.mem_cons, not_or] at hline
      simp [Text.lines, ih hline.2, Ne.symm hline.1]
  have htrim : Text.trim cs = cs := by
    rw [Text.trim, hbare.1.dropWhile_eq, hbare.2.dropWhile_eq, List.reverse_reverse]
  simp [content, hlines, htrim, hne, hcomment]

/-- The line is its own content. -/
theorem content_line : content (line title key k).text = (line title key k).text := by
  have hstarts : Starts isWordStart (line title key k).text := by
    rw [text_line]
    exact title.starts.append _
  exact content_of_bare hstarts.ne_nil (newline_not_mem_line title key k) (bare_line title key k)
    (isComment_of_starts hstarts)

/-- The title of what can be set about a plot. -/
def plot : Word := ⟨"plot".toList, 'p', "lot".toList, rfl, rfl, List.all_eq_true.1 rfl⟩

/-- The key of the picture. -/
def output : Word := ⟨"output".toList, 'o', "utput".toList, rfl, rfl, List.all_eq_true.1 rfl⟩

/-- The key of the exported samples. -/
def csv : Word := ⟨"csv".toList, 'c', "sv".toList, rfl, rfl, List.all_eq_true.1 rfl⟩

end Written

/-! ## Paths -/

/-- The line is read as a document with one entry. -/
theorem Document.parse_line (title key : Written.Word) (k : Written.Token) :
    parse (String.ofList (Written.line title key k).text) =
      .ok ⟨[(⟨String.ofList title.1, String.ofList key.1⟩, [Scalar.ofToken k.1])]⟩ := by
  refine parse_eq_ok_iff.2 ⟨Written.line title key k, ?_, ?_⟩
  · rw [String.toList_ofList, Written.content_line]
  · rfl

namespace Settings

open Written (tokens?)

variable {text : String} {t : Settings} {w : Written}

/-- A setting that was written with a token has the value of its scalar. -/
theorem value?_of_token (hw : w.text = Section.content text.toList) (h : ofText text = .ok t)
    (s : Setting) {k : List Char} (hk : tokens? w s.place = some [k]) :
    s.value? (Scalar.ofToken k) = some (t.get s) := by
  unfold ofText at h
  obtain ⟨d, hd, h⟩ := ok_of_bind h
  obtain ⟨w', hw', rfl⟩ := Document.parse_eq_ok_iff.1 hd
  obtain rfl : w' = w := Written.text_injective (hw'.trans hw.symm)
  obtain ⟨hnodup, hvalues⟩ := Document.ofSections_read w'
  have hs := get_of_ofEntries hnodup (.refl _) h s
  rw [hvalues, Written.values?_eq, hk] at hs
  obtain ⟨-, v, hv, hvalue⟩ := hs
  cases hv
  exact hvalue

/-- A line with one entry is read as that entry. -/
theorem ofText_line (title key : Written.Word) (k : Written.Token)
    (h : text = String.ofList (Written.line title key k).text) :
    ofText text = default.apply ⟨String.ofList title.1, String.ofList key.1⟩
      [Scalar.ofToken k.1] := by
  subst h
  rw [ofText, Document.parse_line]
  simp only [ofDocument, ofEntries, bind, Except.bind, List.foldlM_cons, List.foldlM_nil]
  cases default.apply ⟨String.ofList title.1, String.ofList key.1⟩ [Scalar.ofToken k.1] <;> rfl

/-- A token is accepted as a path, and the path is the text of the scalar that the token stands for. So
it is in every document that is accepted, if the last entry was written with this token. The path is the
token itself if that is a string or a truth value, or a number written in just that way, and in no other
case. A float with an exponent or a plus sign is none of these. -/
theorem path_of_token (k : Written.Token) :
    ofText ("plot output: " ++ String.ofList k.1) =
      .ok { default with output := (Scalar.ofToken k.1).text } ∧
    ofText ("plot csv: " ++ String.ofList k.1) =
      .ok { default with csv := some (Scalar.ofToken k.1).text } ∧
    (∀ text t, ofText text = .ok t → ∃ w : Written, w.text = Section.content text.toList ∧
      (tokens? w Setting.output.place = some [k.1] → t.output = (Scalar.ofToken k.1).text) ∧
      (tokens? w Setting.csv.place = some [k.1] → t.csv = some (Scalar.ofToken k.1).text)) ∧
    ((Scalar.ofToken k.1).text = String.ofList k.1 ↔ Scalar.AsWritten k.1) ∧
    ∀ v, Scalar.ofToken k.1 = .float v → Scalar.AsWritten k.1 →
      String.ofList k.1 ∈ ["NaN", "inf", "-inf"] ∨ ∀ c ∈ k.1, Decimal.isPlainChar c = true := by
  refine ⟨?_, ?_, fun text t h => ?_, Scalar.text_ofToken_eq_iff k.1, fun v hv hplain => ?_⟩
  · refine ofText_line Written.plot Written.output k ?_
    rw [Written.text_line, ← String.toList_inj]
    simp [Written.plot, Written.output]
  · refine ofText_line Written.plot Written.csv k ?_
    rw [Written.text_line, ← String.toList_inj]
    simp [Written.plot, Written.csv]
  · obtain ⟨d, hd, -⟩ := ok_of_bind h
    obtain ⟨w, hw, -⟩ := Document.parse_eq_ok_iff.1 hd
    refine ⟨w, hw, fun hk => ?_, fun hk => ?_⟩
    · have hvalue := value?_of_token hw h .output hk
      exact (Option.some.inj hvalue).symm
    · have hvalue := value?_of_token hw h .csv hk
      exact (Option.some.inj hvalue).symm
  · simp only [Scalar.AsWritten, hv] at hplain
    rw [← hplain]
    rcases Decimal.plain_cases v with h | h | h | h
    · simp [h]
    · simp [h]
    · simp [h]
    · rw [hplain, String.toList_ofList] at h
      exact .inr h

/-- With zeros in front, the picture goes to another file. -/
theorem path_of_leading_zeros :
    ofText "plot output: 007" = .ok { default with output := "7" } ∧
    ofText "plot csv: 007" = .ok { default with csv := some "7" } ∧
    ¬ ∀ k : Written.Token, ofText ("plot output: " ++ String.ofList k.1) =
      .ok { default with output := String.ofList k.1 } := by
  have houtput : ofText "plot output: 007" = .ok { default with output := "7" } := rfl
  refine ⟨houtput, rfl, fun hall => ?_⟩
  have h := hall ⟨"007".toList, List.cons_ne_nil _ _, List.all_eq_true.1 rfl⟩
  have htext : "plot output: " ++ String.ofList "007".toList = "plot output: 007" := rfl
  rw [htext, houtput] at h
  simp at h

end Settings

end GraphCalc
