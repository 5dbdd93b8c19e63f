import GraphCalc.Text.Listing

/-!
# Sequences

A sequence is a doubly linked list whose nodes live in an array of slots. Links are slot numbers,
and the slots that nodes have left are kept in a free list and taken again, the last one left first.
An item is reached by its index from whichever end is nearer (`route`).

Following a link into a vacant slot, releasing a slot twice, or finding the chain shorter than the
size would be a broken arena. These have errors of their own, so that the operations are total
without hiding them; no sequence that the operations build shows one.
-/

namespace GraphCalc

/-- An item with the slots of its neighbours. -/
structure Node (α : Type) where
  value : α
  prev : Option Nat
  next : Option Nat

/-- The slots with the nodes, the slots that are free, the slots at both ends, and how many items there
are. -/
structure Sequence (α : Type) where
  slots : Array (Option (Node α))
  free : List Nat
  front : Option Nat
  back : Option Nat
  size : Nat

namespace Sequence

variable {α : Type}

/-- What an operation refuses, and what would be a broken arena. -/
inductive Error where
  | empty
  | outOfRange (index size : Nat)
  | vacant (slot : Nat)
  | releasedTwice (slot : Nat)
  | shortChain
  deriving DecidableEq, Repr

/-- The error in words. -/
def Error.message : Error → String
  | empty => "Container is empty: no items to remove"
  | outOfRange index size =>
    "Index " ++ toString index ++ " out of boundary: the sequence holds " ++ toString size
      ++ " element(s)"
  | vacant slot => "slot " ++ toString slot ++ " is linked but vacant"
  | releasedTwice slot => "slot " ++ toString slot ++ " released twice"
  | shortChain => "chain shorter than size"

/-- No items and no slots. -/
def empty : Sequence α := ⟨#[], [], none, none, 0⟩

/-- Whether there are no items. -/
def isEmpty (s : Sequence α) : Bool := s.size == 0

/-! ## Slots -/

/-- The node in a slot that a link leads to. -/
def node (s : Sequence α) (slot : Nat) : Except Error (Node α) :=
  match s.slots[slot]? with
  | some (some n) => .ok n
  | _ => .error (.vacant slot)

/-- Puts a node into the slot freed last, or into a new one. -/
def allocate (s : Sequence α) (n : Node α) : Nat × Sequence α :=
  match s.free with
  | slot :: free => (slot, { s with slots := s.slots.setIfInBounds slot (some n), free })
  | [] => (s.slots.size, { s with slots := s.slots.push (some n) })

/-- Takes the node out of a slot and frees the slot. -/
def release (s : Sequence α) (slot : Nat) : Except Error (Node α × Sequence α) :=
  match s.slots[slot]? with
  | some (some n) =>
    .ok (n, { s with slots := s.slots.setIfInBounds slot none, free := slot :: s.free })
  | _ => .error (.releasedTwice slot)

/-- Changes the link of a node to the one that follows it. -/
def setNext (s : Sequence α) (slot : Nat) (link : Option Nat) : Except Error (Sequence α) := do
  let n ← s.node slot
  return { s with slots := s.slots.setIfInBounds slot (some { n with next := link }) }

/-- Changes the link of a node to the one that precedes it. -/
def setPrev (s : Sequence α) (slot : Nat) (link : Option Nat) : Except Error (Sequence α) := do
  let n ← s.node slot
  return { s with slots := s.slots.setIfInBounds slot (some { n with prev := link }) }

/-- Makes `link` what follows `prev`, or the front if nothing precedes it. -/
def linkAfter (s : Sequence α) (prev link : Option Nat) : Except Error (Sequence α) :=
  match prev with
  | some slot => s.setNext slot link
  | none => .ok { s with front := link }

/-- Makes `link` what precedes `next`, or the back if nothing follows it. -/
def linkBefore (s : Sequence α) (next link : Option Nat) : Except Error (Sequence α) :=
  match next with
  | some slot => s.setPrev slot link
  | none => .ok { s with back := link }

/-! ## Finding an index -/

/-- From where a sequence is looked at. -/
inductive End where
  | front
  | back
  deriving DecidableEq, Repr

/-- The slot at an end. -/
def first (s : Sequence α) : End → Option Nat
  | .front => s.front
  | .back => s.back

/-- The link of a node that leads away from an end. -/
def onward (n : Node α) : End → Option Nat
  | .front => n.next
  | .back => n.prev

/-- From which end an index is reached, and over how many links. -/
def route (size index : Nat) : End × Nat :=
  if index > size / 2 then (.back, size - index - 1) else (.front, index)

/-- Where a walk along the links has ended, and the slots that it left behind on the way, one for each
link, the last one first. -/
structure Walk where
  passed : List Nat
  slot : Nat
  deriving DecidableEq, Repr

/-- Follows this many links away from an end, with these slots left behind before. -/
def walk (s : Sequence α) (e : End) : Nat → Option Nat → List Nat → Except Error Walk
  | _, none, _ => .error .shortChain
  | 0, some slot, passed => .ok ⟨passed, slot⟩
  | n + 1, some slot, passed => do s.walk e n (onward (← s.node slot) e) (slot :: passed)

/-- The walk to the slot of the item at an index below the size. -/
def findSlot (s : Sequence α) (index : Nat) : Except Error Walk :=
  let (e, links) := route s.size index
  s.walk e links (s.first e) []

/-- Refuses an index at which there is no item. -/
def checkIndex (s : Sequence α) (index : Nat) : Except Error Unit :=
  if index < s.size then .ok () else .error (.outOfRange index s.size)

/-! ## Operations -/

/-- Appends an item. -/
def push (s : Sequence α) (a : α) : Except Error (Sequence α) := do
  let last := s.back
  let (slot, s) := s.allocate ⟨a, last, none⟩
  let s ← s.linkAfter last (some slot)
  return { s with back := some slot, size := s.size + 1 }

/-- Puts an item in front of the one in a slot. -/
def insertBefore (s : Sequence α) (here : Nat) (a : α) : Except Error (Sequence α) := do
  let n ← s.node here
  let (slot, s) := s.allocate ⟨a, n.prev, some here⟩
  let s ← s.linkAfter n.prev (some slot)
  let s ← s.linkBefore (some here) (some slot)
  return { s with size := s.size + 1 }

/-- Puts an item at an index up to the size, in front of the item that was there. -/
def insert (s : Sequence α) (index : Nat) (a : α) : Except Error (Sequence α) :=
  if s.size < index then .error (.outOfRange index s.size)
  else if index = s.size then s.push a
  else do s.insertBefore (← s.findSlot index).slot a

/-- Takes a node out of its slot and joins its neighbours. -/
def unlink (s : Sequence α) (slot : Nat) : Except Error (α × Sequence α) := do
  let (n, s) ← s.release slot
  let s ← s.linkAfter n.prev n.next
  let s ← s.linkBefore n.next n.prev
  return (n.value, { s with size := s.size - 1 })

/-- Takes out the item at an index. Taking out the only item drops all slots. -/
def delete (s : Sequence α) (index : Nat) : Except Error (α × Sequence α) := do
  s.checkIndex index
  let ⟨_, slot⟩ ← s.findSlot index
  if s.size = 1 then (s.release slot).map fun (n, _) => (n.value, empty)
  else s.unlink slot

/-- Takes out the last item. -/
def remove (s : Sequence α) : Except Error (α × Sequence α) :=
  if s.size = 0 then .error .empty else s.delete (s.size - 1)

/-- The item at an index. -/
def get (s : Sequence α) (index : Nat) : Except Error α := do
  s.checkIndex index
  let ⟨_, slot⟩ ← s.findSlot index
  return (← s.node slot).value

/-- Replaces the node in a slot by a new one with this item, and gives the old item. The new node is
allocated before the old one is released, so it never takes the same slot. -/
def replace (s : Sequence α) (old : Nat) (a : α) : Except Error (α × Sequence α) := do
  let n ← s.node old
  let (slot, s) := s.allocate ⟨a, n.prev, n.next⟩
  let s ← s.linkAfter n.prev (some slot)
  let s ← s.linkBefore n.next (some slot)
  let (n, s) ← s.release old
  return (n.value, s)

/-- Sets the item at an index, and gives the old one. -/
def set (s : Sequence α) (index : Nat) (a : α) : Except Error (α × Sequence α) := do
  s.checkIndex index
  s.replace (← s.findSlot index).slot a

/-- The item at an end. -/
def peek (s : Sequence α) (e : End) : Except Error (Option α) :=
  match s.first e with
  | none => .ok none
  | some slot => (s.node slot).map fun n => some n.value

/-- Takes out the item at an end, if there is one. -/
def pop (s : Sequence α) (e : End) : Except Error (Option α × Sequence α) :=
  if s.size = 0 then .ok (none, s)
  else
    (match e with
      | .front => s.delete 0
      | .back => s.remove).map fun (a, s) => (some a, s)

/-- Appends the items of a list. -/
def extend (s : Sequence α) (items : List α) : Except Error (Sequence α) :=
  items.foldlM push s

/-- A sequence with the items of a list. -/
def ofList (items : List α) : Except Error (Sequence α) := extend empty items

end Sequence

end GraphCalc
