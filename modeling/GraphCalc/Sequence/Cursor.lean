import GraphCalc.Sequence.Basic

/-!
# Going through a sequence

A cursor stands at both ends of what is left of a sequence and can take the next item from either.
It counts what is left, so the two ends never pass each other. `items` and everything that looks at
the whole content is defined by a cursor.
-/

namespace GraphCalc.Sequence

variable {α : Type}

/-- The slots at both ends of what is left, and how many items that are. -/
structure Cursor where
  head : Option Nat
  tail : Option Nat
  remaining : Nat
  deriving DecidableEq, Repr

/-- A cursor over the whole sequence. -/
def cursor (s : Sequence α) : Cursor := ⟨s.front, s.back, s.size⟩

/-- The slot where the cursor stands at an end. -/
def Cursor.position (c : Cursor) : End → Option Nat
  | .front => c.head
  | .back => c.tail

/-- The cursor moved on at an end, with one item less to go. -/
def Cursor.advance (c : Cursor) (link : Option Nat) : End → Cursor
  | .front => { c with head := link, remaining := c.remaining - 1 }
  | .back => { c with tail := link, remaining := c.remaining - 1 }

/-- The next item from an end, if any is left. -/
def Cursor.next (s : Sequence α) (e : End) (c : Cursor) : Except Error (Option α × Cursor) :=
  if c.remaining = 0 then .ok (none, c)
  else
    match c.position e with
    | none => .ok (none, c)
    | some slot => (s.node slot).map fun n => (some n.value, c.advance (onward n e) e)

/-- What the cursor yields from one end, at most `n` items. -/
def Cursor.take (s : Sequence α) (e : End) : Nat → Cursor → Except Error (List α)
  | 0, _ => .ok []
  | n + 1, c => do
    match ← c.next s e with
    | (none, _) => return []
    | (some a, c) => return a :: (← take s e n c)

/-! ## Iterators -/

/-- What an iterator is asked for: the next item from an end, or how many are left. -/
inductive Call where
  | next (e : End)
  | sizeHint
  deriving DecidableEq, Repr

/-- What an iterator answers. A hint is a lower bound and, where one is known, an upper bound. -/
inductive Answer (α : Type) where
  | item (a : Option α)
  | hint (low : Nat) (high : Option Nat)
  deriving DecidableEq, Repr

/-- The iterator that looks at a sequence is a cursor. -/
def Cursor.respond (s : Sequence α) : Call → Cursor → Except Error (Answer α × Cursor)
  | .next e, c => (c.next s e).map fun (a, c) => (.item a, c)
  | .sizeHint, c => .ok (.hint c.remaining (some c.remaining), c)

/-- The iterator that owns a sequence takes out every item that it gives. -/
def respond : Call → Sequence α → Except Error (Answer α × Sequence α)
  | .next e, s => (s.pop e).map fun (a, t) => (.item a, t)
  | .sizeHint, s => .ok (.hint s.size (some s.size), s)

/-! ## The content -/

/-- The content, from this end to the other. -/
def items (s : Sequence α) (e : End) : Except Error (List α) := s.cursor.take s e s.size

/-- The index of the first item that equals `a`. -/
def indexOf? [BEq α] (s : Sequence α) (a : α) : Except Error (Option Nat) :=
  (s.items .front).map fun l => l.findIdx? (· == a)

/-- Whether there is an item that equals `a`. -/
def contains [BEq α] (s : Sequence α) (a : α) : Except Error Bool :=
  (s.indexOf? a).map Option.isSome

/-- Whether two sequences have equal items in the same order, wherever their nodes lie. -/
def equal [BEq α] (s t : Sequence α) : Except Error Bool := do
  if s.size ≠ t.size then return false
  return (← s.items .front) == (← t.items .front)

/-- The content in brackets, items written by the given function. -/
def text (item : α → String) (s : Sequence α) : Except Error String :=
  (s.items .front).map fun l => Text.bracketed (l.map item)

end GraphCalc.Sequence
