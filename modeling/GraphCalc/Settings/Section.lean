import GraphCalc.Settings.Scalar
import GraphCalc.Text.Blank

/-!
# Sections

A settings document is a series of sections. A section is a title and entries, an entry a key, a
colon and scalars with commas between them: `plot width: 800 height: 600`. Nothing marks the end of
a section, so a title is told from a key by what follows it. Lines only matter for comments, which
are dropped before (`content`).

A reader takes what it can from the front of a text and gives the rest. A comma counts only if a
scalar follows it.
-/

namespace GraphCalc

/-- A key and the values that are given for it. -/
structure Entry where
  key : String
  values : List Scalar
  deriving DecidableEq, Repr

/-- A title and the entries under it. -/
structure Section where
  title : String
  entries : List Entry
  deriving DecidableEq, Repr

namespace Section

/-! ## Comments -/

/-- Whether a line is a comment. -/
def isComment : List Char → Bool
  | '/' :: '/' :: _ | '#' :: _ | '%' :: _ | ';' :: _ => true
  | _ => false

/-- The lines that say something, each without the blanks around it. -/
def content (text : List Char) : List Char :=
  List.intercalate ['\n']
    (((Text.lines text).map Text.trim).filter fun l => !l.isEmpty && !isComment l)

/-! ## Characters -/

/-- What a title or a key starts with. -/
def isWordStart (c : Char) : Bool := c.isAlpha || c == '_'

/-- What a title or a key consists of. -/
def isWordChar (c : Char) : Bool := c.isAlphanum || c == '_'

/-- What may stand around a colon or a comma. -/
def isSpace (c : Char) : Bool := c == ' ' || c == '\t'

/-- What stands between titles and entries. -/
def isBreak (c : Char) : Bool := isSpace c || c == '\r' || c == '\n'

/-- What a scalar consists of. -/
def isTokenChar (c : Char) : Bool := !Text.isBlank c && c != ',' && c != ';'

/-! ## Readers -/

/-- Reads the front of a text. -/
abbrev Reader (α : Type) := List Char → Option (α × List Char)

/-- At most so many items. -/
def manyWithin (read? : Reader α) : Nat → List Char → List α × List Char
  | 0, cs => ([], cs)
  | n + 1, cs =>
    match read? cs with
    | none => ([], cs)
    | some (a, cs) =>
      let (as, cs) := manyWithin read? n cs
      (a :: as, cs)

/-- As many items as there are. No item is empty, so there are at most as many as characters. -/
def many (read? : Reader α) (cs : List Char) : List α × List Char :=
  manyWithin read? cs.length cs

/-- A title or a key. -/
def word? : Reader String
  | [] => none
  | c :: cs =>
    if isWordStart c then
      some (String.ofList (c :: cs.takeWhile isWordChar), cs.dropWhile isWordChar)
    else none

/-- A scalar. -/
def scalar? : Reader Scalar := fun cs =>
  let token := cs.takeWhile isTokenChar
  if token.isEmpty then none else some (Scalar.ofToken token, cs.dropWhile isTokenChar)

/-- A comma and a scalar. -/
def furtherScalar? : Reader Scalar := fun cs =>
  match cs.dropWhile isSpace with
  | ',' :: cs => scalar? (cs.dropWhile isSpace)
  | _ => none

/-- An entry and the break after it. -/
def entry? : Reader Entry := fun cs => do
  let (key, cs) ← word? cs
  match cs.dropWhile isSpace with
  | ':' :: cs =>
    let (v, cs) ← scalar? (cs.dropWhile isSpace)
    let (vs, cs) := many furtherScalar? cs
    return (⟨key, v :: vs⟩, cs.dropWhile isBreak)
  | _ => none

/-- A title and at least one entry. The title has taken all characters of a word, so an entry can
only follow after a break. -/
def section? : Reader Section := fun cs => do
  let (title, cs) ← word? cs
  let (e, cs) ← entry? (cs.dropWhile isBreak)
  let (es, cs) := many entry? cs
  return (⟨title, e :: es⟩, cs)

/-- The sections of a text, and what is left where no further section can be read. -/
def readAll (text : List Char) : List Section × List Char :=
  many section? ((content text).dropWhile isBreak)

end Section

end GraphCalc
