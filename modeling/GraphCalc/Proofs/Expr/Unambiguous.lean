import GraphCalc.Expr.Text
import GraphCalc.Proofs.Decimal.Distinct

/-!
# The text of an expression determines it

Infix form, calls, numbers and names share their characters: `-` is an operator, the name of a call with
any other number of operands, and the sign of a number. What tells them apart is where they stand. The
text of an expression begins with a run of characters other than parentheses, commas and blanks
(`lead`), which is empty for the infix form only, and a parenthesis after the run tells a call from a
number or a variable (`body`). So it is clear from the front of a text which expression is written there
and where it ends (`Readable.cut`), for all expressions that are `Readable`.
-/

namespace GraphCalc.Expr

open Written (Starts Stops)

/-! ## Names -/

/-- A letter or an underscore, and then letters, digits and underscores. -/
def isIdentifier (s : String) : Bool :=
  match s.toList with
  | [] => false
  | c :: r => (c.isAlpha || c == '_') && r.all fun d => d.isAlphanum || d == '_'

/-- An identifier that no number is written like. -/
def IsVariable (x : String) : Prop := isIdentifier x = true ∧ x ≠ "inf" ∧ x ≠ "NaN"

/-- An identifier or the symbol of an operator. -/
def IsOperation (f : String) : Prop := isIdentifier f = true ∨ f ∈ ["+", "-", "*", "/", "^"]

/-- All names in the expression are as they should be. Operations may have any number of operands. -/
inductive Readable : Expr → Prop where
  | number (v : Float) : Readable (number v)
  | var {x : String} (hx : IsVariable x) : Readable (var x)
  | operation {f : String} {es : List Expr} (hf : IsOperation f) (hes : ∀ e ∈ es, Readable e) :
    Readable (operation f es)

/-- What names and numbers are written with. -/
def isInner (c : Char) : Bool := c != '(' && c != ')' && c != ',' && c != ' '

/-- What may stand behind an expression. -/
def isAfter (c : Char) : Bool := c == ')' || c == ',' || c == ' '

/-- Nothing follows, or something that may stand behind an expression. -/
def Follows (r : List Char) : Prop := Stops (fun c => !isAfter c) r

section
variable {c : Char} {s x f : String}

/-- Characters of a kind that the separators are not of. -/
theorem isInner_of {p : Char → Bool} (hp : p '(' = false ∧ p ')' = false ∧ p ',' = false ∧ p ' ' = false)
    (h : p c = true) : isInner c = true := by
  obtain ⟨hopen, hclose, hcomma, hblank⟩ := hp
  simp only [isInner, Bool.and_eq_true, bne_iff_ne]
  refine ⟨⟨⟨?_, ?_⟩, ?_⟩, ?_⟩ <;>
  · rintro rfl
    simp_all

/-- What names and numbers are written with cannot stand behind an expression. -/
theorem isAfter_of_isInner (h : isInner c = true) : isAfter c = false := by
  simp only [isInner, Bool.and_eq_true, bne_iff_ne] at h
  simp [isAfter, h]

/-- No finite number is written with a letter or an underscore. -/
theorem isPlainChar_of_isAlpha (h : (c.isAlpha || c == '_') = true) :
    Decimal.isPlainChar c = false := by
  rw [← Bool.not_eq_true]
  simp only [Decimal.isPlainChar, Bool.or_eq_true, beq_iff_eq] at h ⊢
  rintro ((hdigit | rfl) | rfl)
  · rcases h with h | rfl
    · simp only [Char.isAlpha, Char.isUpper, Char.isLower, Char.isDigit, Bool.or_eq_true,
        Bool.and_eq_true, decide_eq_true_eq, UInt32.le_iff_toNat_le, ge_iff_le] at h hdigit
      change (65 ≤ c.toNat ∧ c.toNat ≤ 90) ∨ 97 ≤ c.toNat ∧ c.toNat ≤ 122 at h
      change 48 ≤ c.toNat ∧ c.toNat ≤ 57 at hdigit
      omega
    · cases hdigit
  · exact absurd h (by decide)
  · exact absurd h (by decide)

/-- An identifier begins with a character that numbers are not written with. -/
theorem starts_of_isIdentifier (h : isIdentifier s = true) :
    Starts (fun c => c.isAlpha || c == '_') s.toList ∧ ∀ c ∈ s.toList, isInner c = true := by
  unfold isIdentifier at h
  split at h
  · cases h
  · next c r heq =>
    rw [Bool.and_eq_true, List.all_eq_true] at h
    rw [heq]
    refine ⟨⟨c, r, rfl, h.1⟩, fun d hd =>
      isInner_of (p := fun d => d.isAlphanum || d == '_') ⟨rfl, rfl, rfl, rfl⟩ ?_⟩
    rcases List.mem_cons.1 hd with rfl | hd
    · simp only [Char.isAlphanum, Bool.or_eq_true] at h ⊢
      exact h.1.imp .inl id
    · exact h.2 d hd

/-- The name of an operation is not empty and has no parenthesis, comma or blank. -/
theorem IsOperation.inner (h : IsOperation f) :
    f.toList ≠ [] ∧ ∀ c ∈ f.toList, isInner c = true := by
  rcases h with h | h
  · exact ⟨(starts_of_isIdentifier h).1.ne_nil, (starts_of_isIdentifier h).2⟩
  · simp only [List.mem_cons, List.not_mem_nil, or_false] at h
    rcases h with rfl | rfl | rfl | rfl | rfl <;>
      exact ⟨List.cons_ne_nil _ _, List.all_eq_true.1 rfl⟩

/-- Numbers are written without parentheses, commas and blanks. -/
theorem inner_plain (v : Float) : ∀ c ∈ (Decimal.plain v).toList, isInner c = true := by
  rcases Decimal.plain_cases v with h | h | h | h
  · rw [h]
    exact List.all_eq_true.1 rfl
  · rw [h]
    exact List.all_eq_true.1 rfl
  · rw [h]
    exact List.all_eq_true.1 rfl
  · exact fun c hc => isInner_of ⟨rfl, rfl, rfl, rfl⟩ (h c hc)

/-- The text of a number is not empty. -/
theorem plain_ne_nil (v : Float) : (Decimal.plain v).toList ≠ [] := by
  rw [Decimal.plain_eq]
  exact List.append_ne_nil_of_right_ne_nil _ (Decimal.Reading.starts_unsigned _).ne_nil

/-- No number is written like a variable. -/
theorem IsVariable.ne_plain (hx : IsVariable x) (v : Float) : x ≠ Decimal.plain v := by
  rintro rfl
  obtain ⟨hx, hinf, hnan⟩ := hx
  obtain ⟨c, t, heq, hc⟩ := (starts_of_isIdentifier hx).1
  rcases Decimal.plain_cases v with h | h | h | h
  · exact hnan h
  · exact hinf h
  · rw [h] at hx
    cases hx
  · have hplain := h c (by simp [heq])
    rw [isPlainChar_of_isAlpha hc] at hplain
    cases hplain

end

/-! ## The front of a text -/

/-- The text up to the first parenthesis, comma or blank. -/
def lead : Expr → List Char
  | number v => (Decimal.plain v).toList
  | var x => x.toList
  | operation f es => if isInfix f es then [] else f.toList

/-- What is written after that. -/
def body : Expr → List Char → List Char
  | number _, rest | var _, rest => rest
  | operation f es, rest =>
    '(' :: writeList (if isInfix f es then ' ' :: f.toList ++ [' '] else [',', ' ']) es (')' :: rest)

/-- The expression is told from its text and from where that ends, in front of any text that can follow
an expression. -/
def Cut (e : Expr) : Prop :=
  ∀ ⦃f : Expr⦄ ⦃r s : List Char⦄, f.Readable → Follows r → Follows s → write e r = write f s →
    e = f ∧ r = s

section
variable {e f : Expr} {r s : List Char}

/-- The text of an expression is the run at the front and what is written after that. -/
theorem write_eq (e : Expr) (r : List Char) : write e r = lead e ++ body e r := by
  cases e with
  | number | var => rfl
  | operation f es => cases hbetween : isInfix f es <;> simp [write, lead, body, hbetween]

/-- The run at the front is made of the characters of names and numbers. -/
theorem Readable.inner_lead (h : e.Readable) : ∀ c ∈ lead e, isInner c = true := by
  cases h with
  | number v => exact inner_plain v
  | var hx => exact (starts_of_isIdentifier hx.1).2
  | @operation f es hf =>
    simp only [lead]
    split
    · exact fun c hc => absurd hc List.not_mem_nil
    · exact hf.inner.2

/-- A separator may stand behind an expression. -/
theorem follows_cons {c : Char} (h : isAfter c = true) (r : List Char) : Follows (c :: r) :=
  Written.stops_cons (by rw [h]; rfl)

/-- What may follow an expression does not continue a name or a number. -/
theorem Follows.stops (h : Follows r) : Stops isInner r :=
  h.imp fun c hc => by rw [isAfter_of_isInner hc]; rfl

/-- The run at the front ends where the rest begins, whatever kind of expression it is. -/
theorem Follows.body (h : Follows r) (e : Expr) : Stops isInner (body e r) := by
  cases e with
  | number | var => exact h.stops
  | operation => exact Written.stops_cons rfl

/-- What may follow an expression does not begin with the parenthesis of its operands. -/
theorem Follows.ne_body (h : Follows r) (name : String) (es : List Expr) :
    r ≠ Expr.body (operation name es) s := by
  rintro rfl
  cases h '(' rfl

/-- The run at the front is cut off from the rest. -/
theorem lead_body_inj (he : e.Readable) (hf : f.Readable) (hr : Follows r) (hs : Follows s)
    (h : write e r = write f s) : lead e = lead f ∧ body e r = body f s := by
  rw [write_eq, write_eq] at h
  obtain ⟨hlead, hbody⟩ := Written.cuts_run (p := isInner) (fun _ hcs => hcs)
    (a := ⟨lead e, he.inner_lead⟩) (b := ⟨lead f, hf.inner_lead⟩) (hr.body e) (hs.body f) h
  exact ⟨congrArg Subtype.val hlead, hbody⟩

/-- The text of an expression begins with an inner character or an opening parenthesis. -/
theorem Readable.starts_write (h : e.Readable) (r : List Char) :
    Starts (fun c => isInner c || c == '(') (write e r) := by
  have hinner : ∀ c, isInner c = true → (isInner c || c == '(') = true := fun c hc => by simp [hc]
  rw [write_eq]
  by_cases hlead : lead e = []
  · cases h with
    | number v => exact absurd hlead (plain_ne_nil v)
    | var hx => exact absurd hlead (starts_of_isIdentifier hx.1).1.ne_nil
    | operation =>
      rw [hlead]
      exact ⟨'(', _, rfl, rfl⟩
  · exact ((Written.starts_of_all hlead h.inner_lead).imp hinner).append _

/-! ## Operands -/

/-- Behind an operand there is a comma or the closing parenthesis. -/
theorem follows_writeTail (es : List Expr) (r : List Char) :
    Follows (writeTail [',', ' '] es (')' :: r)) := by
  cases es with
  | nil => exact follows_cons rfl _
  | cons e es => exact follows_cons rfl _

variable {es fs : List Expr}

/-- A comma is followed by an operand, a parenthesis is not. -/
theorem writeTail_inj (hes : ∀ e ∈ es, Cut e) (hfs : ∀ f ∈ fs, f.Readable)
    (h : writeTail [',', ' '] es (')' :: r) = writeTail [',', ' '] fs (')' :: s)) :
    es = fs ∧ r = s := by
  induction es generalizing fs with
  | nil =>
    cases fs with
    | nil => exact ⟨rfl, List.tail_eq_of_cons_eq h⟩
    | cons => cases h
  | cons e es ih =>
    cases fs with
    | nil => cases h
    | cons f fs =>
      simp only [writeTail, List.cons_append, List.nil_append, List.cons.injEq, true_and] at h
      rw [List.forall_mem_cons] at hes hfs
      obtain ⟨rfl, htail⟩ := hes.1 hfs.1 (follows_writeTail es r) (follows_writeTail fs s) h
      obtain ⟨rfl, hrest⟩ := ih hes.2 hfs.2 htail
      exact ⟨rfl, hrest⟩

/-- The operands of a call are told from its text. No operand begins with the closing parenthesis, so
an empty list is told from others. -/
theorem writeList_inj (hreadable : ∀ e ∈ es, e.Readable) (hes : ∀ e ∈ es, Cut e)
    (hfs : ∀ f ∈ fs, f.Readable)
    (h : writeList [',', ' '] es (')' :: r) = writeList [',', ' '] fs (')' :: s)) :
    es = fs ∧ r = s := by
  have hne {e : Expr} {t u : List Char} (he : e.Readable) : ')' :: t ≠ write e u := by
    intro heq
    have hstarts := he.starts_write u
    rw [← heq] at hstarts
    cases hstarts.cons
  cases es with
  | nil =>
    cases fs with
    | nil => exact ⟨rfl, List.tail_eq_of_cons_eq h⟩
    | cons f fs => exact absurd h (hne (hfs f List.mem_cons_self))
  | cons e es =>
    cases fs with
    | nil => exact absurd h.symm (hne (hreadable e List.mem_cons_self))
    | cons f fs =>
      rw [List.forall_mem_cons] at hes hfs
      obtain ⟨rfl, htail⟩ := hes.1 hfs.1 (follows_writeTail es r) (follows_writeTail fs s) h
      obtain ⟨rfl, hrest⟩ := writeTail_inj hes.2 hfs.2 htail
      exact ⟨rfl, hrest⟩

/-- The infix form is for two operands. -/
theorem exists_of_isInfix {name : String} (h : isInfix name es = true) : ∃ a b, es = [a, b] := by
  rw [isInfix, Bool.and_eq_true, beq_iff_eq] at h
  exact List.length_eq_two.1 h.2

/-- Between two operands the name ends at the blank. -/
theorem infix_inj {a b a' b' : Expr} {f g : String} (ha : Cut a) (hb : Cut b) (ha' : a'.Readable)
    (hb' : b'.Readable) (hf : ∀ c ∈ f.toList, isInner c = true)
    (hg : ∀ c ∈ g.toList, isInner c = true)
    (h : writeList (' ' :: f.toList ++ [' ']) [a, b] (')' :: r) =
      writeList (' ' :: g.toList ++ [' ']) [a', b'] (')' :: s)) :
    f = g ∧ [a, b] = [a', b'] ∧ r = s := by
  simp only [writeList, writeTail, List.cons_append, List.append_assoc, List.nil_append] at h
  have hblank (t : List Char) : Follows (' ' :: t) := follows_cons rfl t
  have hclose (t : List Char) : Follows (')' :: t) := follows_cons rfl t
  obtain ⟨rfl, hrest⟩ := ha ha' (hblank _) (hblank _) h
  obtain ⟨hname, hrest⟩ := Written.cuts_run (p := isInner) (fun _ hcs => hcs) (a := ⟨f.toList, hf⟩)
    (b := ⟨g.toList, hg⟩) (hblank _).stops (hblank _).stops
    (List.tail_eq_of_cons_eq hrest)
  obtain ⟨rfl, hend⟩ := hb hb' (hclose _) (hclose _) (List.tail_eq_of_cons_eq hrest)
  exact ⟨String.toList_inj.1 (congrArg Subtype.val hname), rfl, List.tail_eq_of_cons_eq hend⟩

/-- The infix form has no run in front, a call has its name. -/
theorem operation_inj {f g : String} (hf : IsOperation f) (hg : IsOperation g)
    (hreadable : ∀ e ∈ es, e.Readable) (hes : ∀ e ∈ es, Cut e) (hfs : ∀ e ∈ fs, e.Readable)
    (hlead : lead (operation f es) = lead (operation g fs))
    (hbody : body (operation f es) r = body (operation g fs) s) :
    operation f es = operation g fs ∧ r = s := by
  simp only [lead, body, List.cons.injEq, true_and] at hlead hbody
  cases hbetween : isInfix f es <;> cases hbetween' : isInfix g fs <;>
    simp only [hbetween, hbetween', if_true, if_false, Bool.false_eq_true] at hlead hbody
  · obtain rfl := String.toList_inj.1 hlead
    obtain ⟨rfl, hrest⟩ := writeList_inj hreadable hes hfs hbody
    exact ⟨rfl, hrest⟩
  · exact absurd hlead hf.inner.1
  · exact absurd hlead.symm hg.inner.1
  · obtain ⟨a, b, rfl⟩ := exists_of_isInfix hbetween
    obtain ⟨a', b', rfl⟩ := exists_of_isInfix hbetween'
    obtain ⟨rfl, hoperands, hrest⟩ := infix_inj (hes a (by simp)) (hes b (by simp))
      (hfs a' (by simp)) (hfs b' (by simp)) hf.inner.2 hg.inner.2 hbody
    exact ⟨by rw [hoperands], hrest⟩

/-! ## Expressions -/

/-- The induction is on the first expression. Numbers and variables end where the run in front does, and
what can follow an expression does not begin like the operands of a call. -/
theorem Readable.cut (h : e.Readable) : Cut e := by
  induction h with
  | number v =>
    intro f r s hf hr hs heq
    obtain ⟨hlead, hbody⟩ := lead_body_inj (.number v) hf hr hs heq
    cases hf with
    | number w => exact ⟨by rw [Decimal.plain_injective (String.toList_inj.1 hlead)], hbody⟩
    | var hx => exact absurd (String.toList_inj.1 hlead).symm (hx.ne_plain v)
    | operation => exact (hr.ne_body _ _ hbody).elim
  | var hx =>
    intro f r s hf hr hs heq
    obtain ⟨hlead, hbody⟩ := lead_body_inj (.var hx) hf hr hs heq
    cases hf with
    | number w => exact absurd (String.toList_inj.1 hlead) (hx.ne_plain w)
    | var => exact ⟨by rw [String.toList_inj.1 hlead], hbody⟩
    | operation => exact (hr.ne_body _ _ hbody).elim
  | operation hname hes ih =>
    intro f r s hf hr hs heq
    obtain ⟨hlead, hbody⟩ := lead_body_inj (.operation hname hes) hf hr hs heq
    cases hf with
    | number | var => exact (hs.ne_body _ _ hbody.symm).elim
    | operation hname' hfs => exact operation_inj hname hname' hes ih hfs hlead hbody

/-- Expressions with such names are told apart by their texts, whatever the number of operands and
however deep they are: equal texts have the same shape, names and order of operands, and the same
numbers. -/
theorem text_eq_iff (he : e.Readable) (hf : f.Readable) : e.text = f.text ↔ e = f := by
  refine ⟨fun h => ?_, congrArg text⟩
  exact (he.cut hf Written.stops_nil Written.stops_nil (String.ofList_inj.1 h)).1

/-- A minus sign with one operand is not a negative number. -/
theorem text_eq_iff_minus_one :
    (operation "-" [number 1]).Readable ∧ (number (-1)).Readable ∧
    (operation "-" [number 1]).text = "-(1)" ∧ (number (-1)).text = "-1" ∧
    ((operation "-" [number 1]).text = (number (-1)).text ↔ operation "-" [number 1] = number (-1)) := by
  have hcall : (operation "-" [number 1]).Readable := by
    refine .operation (.inr (by decide)) fun e he => ?_
    rw [List.mem_singleton.1 he]
    exact .number 1
  exact ⟨hcall, .number _, rfl, rfl, text_eq_iff hcall (.number _)⟩

/-- A variable may not be called like a number. -/
example : (var "inf").text = (number (1 / 0)).text := rfl

end

end GraphCalc.Expr
