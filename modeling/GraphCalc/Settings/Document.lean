import GraphCalc.Settings.Section
import GraphCalc.Settings.SettingsError

/-!
# Documents

A document says what its sections say, whatever their order: for a title and a key it holds the
values of the last entry with that title and key.
-/

namespace GraphCalc

/-- Where an entry belongs. -/
structure Place where
  title : String
  key : String
  deriving DecidableEq, Repr

/-- The values at each place, in the order in which the places came up first. -/
structure Document where
  entries : List (Place × List Scalar)
  deriving DecidableEq, Repr

namespace Document

/-- The document that says nothing. -/
def empty : Document := ⟨[]⟩

/-- The values at a place. -/
def values? (d : Document) (p : Place) : Option (List Scalar) :=
  (d.entries.find? fun e => e.1 == p).map Prod.snd

/-- Sets the values at a place, whatever they were. -/
def put (d : Document) (p : Place) (vs : List Scalar) : Document :=
  if d.entries.any fun e => e.1 == p then
    ⟨d.entries.map fun e => if e.1 == p then (p, vs) else e⟩
  else ⟨d.entries ++ [(p, vs)]⟩

/-- Every entry of the sections with its place, in order. -/
def placed (sections : List Section) : List (Place × List Scalar) :=
  sections.flatMap fun s => s.entries.map fun e => (⟨s.title, e.key⟩, e.values)

/-- What the sections say together. -/
def ofSections (sections : List Section) : Document :=
  (placed sections).foldl (fun d (p, vs) => d.put p vs) empty

/-- Reads a text. All of it must be sections. -/
def parse (text : String) : Except SettingsError Document :=
  match Section.readAll text.toList with
  | (sections, []) => .ok (ofSections sections)
  | (_, rest) => .error (.unparsed (String.ofList rest))

/-- The content with titles, and keys under a title, in ascending order. -/
def sorted (d : Document) : List (String × List (String × List Scalar)) :=
  let titles := (d.entries.map fun e => e.1.title).eraseDups.mergeSort
  titles.map fun t =>
    let here := d.entries.filter fun e => e.1.title == t
    (t, (here.map fun e => (e.1.key, e.2)).mergeSort fun a b => a.1 ≤ b.1)

end Document

end GraphCalc
