import GraphCalc.Text.Listing

/-!
# Stores

A store is a dictionary in an array of slots, of which the first `size` hold an entry. A key is
looked up by going through these slots. Putting a new key takes the next slot, and doubles the array
when there is none; removing a key moves the last entry into its slot. So `entries`, the content in
slot order, is the order of insertion until something is removed.

Keys are compared by `==`, which need not be reflexive: a key that differs from itself can be put,
and is never found.
-/

namespace GraphCalc

/-- The slots, and how many of them are live. -/
structure Store (κ : Type) (α : Type) where
  slots : Array (Option (κ × α))
  size : Nat

namespace Store

variable {κ : Type} {α : Type}

/-- What a look-up refuses. -/
inductive Error where
  | noSuchKey
  deriving DecidableEq, Repr

/-- The error in words. -/
def Error.message : Error → String
  | noSuchKey => "Specified key not in the dictionary"

/-- The slots of a store for which no number of slots is asked. -/
def defaultCapacity : Nat := 100

/-- An empty store with this many slots, and at least one. -/
def withCapacity (capacity : Nat) : Store κ α :=
  ⟨Array.replicate (max capacity 1) none, 0⟩

/-- An empty store with the default number of slots. -/
def empty : Store κ α := withCapacity defaultCapacity

/-- The number of slots. -/
def capacity (s : Store κ α) : Nat := s.slots.size

/-- Whether there are no entries. -/
def isEmpty (s : Store κ α) : Bool := s.size == 0

/-- The entries in slot order. -/
def entries (s : Store κ α) : List (κ × α) :=
  (s.slots.toList.take s.size).filterMap id

/-- An entry and the slot that holds it. -/
structure Hit (κ : Type) (α : Type) where
  slot : Nat
  key : κ
  value : α

section
variable [BEq κ]

/-- The first entry for `k` among `n` slots, from slot `i` on. -/
def scan (slots : Array (Option (κ × α))) (k : κ) : Nat → Nat → Option (Hit κ α)
  | 0, _ => none
  | n + 1, i =>
    match slots[i]? with
    | some (some (key, value)) => if key == k then some ⟨i, key, value⟩ else scan slots k n (i + 1)
    | _ => scan slots k n (i + 1)

/-- The entry for a key. -/
def find? (s : Store κ α) (k : κ) : Option (Hit κ α) := scan s.slots k s.size 0

/-- The value of a key, if it is there. -/
def get? (s : Store κ α) (k : κ) : Option α := (s.find? k).map Hit.value

/-- Whether a key is there. -/
def contains (s : Store κ α) (k : κ) : Bool := (s.find? k).isSome

/-- The value of a key, or the refusal. -/
def get (s : Store κ α) (k : κ) : Except Error α :=
  match s.get? k with
  | some v => .ok v
  | none => .error .noSuchKey

/-- Twice the slots, the new ones vacant. -/
def grow (s : Store κ α) : Store κ α :=
  { s with slots := s.slots ++ Array.replicate s.slots.size none }

/-- Puts an entry into the next slot. -/
def append (s : Store κ α) (k : κ) (v : α) : Store κ α :=
  let s := if s.size = s.slots.size then s.grow else s
  ⟨s.slots.setIfInBounds s.size (some (k, v)), s.size + 1⟩

/-- Binds a key. A key that is there keeps its slot, and the spelling it was first put with. -/
def put (s : Store κ α) (k : κ) (v : α) : Store κ α :=
  match s.find? k with
  | some hit => { s with slots := s.slots.setIfInBounds hit.slot (some (hit.key, v)) }
  | none => s.append k v

/-- Vacates a slot by moving the last entry there. -/
def vacate (s : Store κ α) (slot : Nat) : Store κ α :=
  let last := s.size - 1
  ⟨(s.slots.setIfInBounds slot (s.slots[last]?.join)).setIfInBounds last none, last⟩

/-- Takes a key out. -/
def remove? (s : Store κ α) (k : κ) : Option (α × Store κ α) :=
  (s.find? k).map fun hit => (hit.value, s.vacate hit.slot)

/-- Takes a key out, or refuses. -/
def remove (s : Store κ α) (k : κ) : Except Error (α × Store κ α) :=
  match s.remove? k with
  | some r => .ok r
  | none => .error .noSuchKey

end

/-- The entries in slot order, keys and values written by the given functions. -/
def text (key : κ → String) (value : α → String) (s : Store κ α) : String :=
  Text.braced (s.entries.map fun (k, v) => (key k, value v))

end Store

end GraphCalc
