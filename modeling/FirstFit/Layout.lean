/-
# Layouts: the occupied ranges of an arena

A layout lists the blocks that are in use, in address order. Free space is
not recorded: a gap is what lies before the first block, between neighbours,
or behind the last one, and is found again at each search. So a block is
given back by taking it off the list, and nothing is ever merged. A change of
the list asserts that no block reaches into its neighbours.

Key definitions: `Block`, `Layout`, `Layout.firstFit`, `Layout.assertFront`,
`Layout.assertBack`, `Layout.insertAt`, `Layout.insert`, `Layout.setLen`,
`Layout.position?`, `Layout.gapAfter`, `Layout.largestGap`.
-/
import FirstFit.Checked
import FirstFit.Text

namespace FirstFit

/-- An occupied range: `len` bytes from `start` on. -/
structure Block where
  start : Nat
  len : Nat
  deriving DecidableEq, Repr

namespace Block

/-- One past the last byte. -/
def stop (b : Block) : Nat := b.start + b.len

/-- One past the last byte, as a size. -/
@[inline] def checkedStop (b : Block) : Checked Nat := Size.add b.start b.len

def debug (b : Block) : String :=
  Text.record "BlockDescriptor" [("start", toString b.start), ("len", toString b.len)]

end Block

/-- The blocks in use, in address order. -/
structure Layout where
  blocks : List Block := []
  deriving DecidableEq, Repr

/-- Where a new block goes: its position among the blocks and its first byte. -/
structure Placement where
  index : Nat
  offset : Nat
  deriving DecidableEq, Repr

namespace Layout

def debug (l : Layout) : String :=
  Text.record "BlockRegistry" [("blocks", Text.list (l.blocks.map Block.debug))]

/-! ### Searching -/

/-- The first gap of `size` bytes in front of, between and behind `blocks`,
the first of which has position `index`; everything before `cursor` is taken. -/
def firstFitFrom (size capacity : Nat) : List Block → Nat → Nat → Checked (Option Placement)
  | [], index, cursor => do
    let gap ← Size.sub capacity cursor
    return if size ≤ gap then some ⟨index, cursor⟩ else none
  | b :: rest, index, cursor => do
    let gap ← Size.sub b.start cursor
    if size ≤ gap then
      return some ⟨index, cursor⟩
    else
      let stop ← b.checkedStop
      firstFitFrom size capacity rest (index + 1) stop

/-- The lowest place for `size` bytes in an arena of `capacity` bytes. -/
def firstFit (l : Layout) (size capacity : Nat) : Checked (Option Placement) :=
  if size = 0 ∨ capacity < size then return none
  else firstFitFrom size capacity l.blocks 0 0

/-- The last position at which a block starts at `start`; the search ends at
the first block that starts behind it. -/
def positionIn (start : Nat) : List Block → Option Nat
  | [] => none
  | b :: rest =>
    if b.start ≤ start then
      match positionIn start rest with
      | some i => some (i + 1)
      | none => if b.start = start then some 0 else none
    else none

/-- The position of the block that starts exactly at `start`. -/
def position? (l : Layout) (start : Nat) : Option Nat := positionIn start l.blocks

def get? (l : Layout) (index : Nat) : Option Block := l.blocks[index]?

def size (l : Layout) : Nat := l.blocks.length

/-! ### Changing -/

/-- Assert that the block in front of a position ends at `start` or before. -/
def assertFront (l : Layout) (index start : Nat) : Checked Unit :=
  if index = 0 then return ()
  else do
    let front ← Size.sub index 1
    match l.blocks[front]? with
    | none => .error .index
    | some a =>
      let stop ← a.checkedStop
      if stop ≤ start then return () else .error .order

/-- Assert that `b` ends where the block at a position starts, or before. There
is nothing to assert, and the end of `b` is not looked at, behind the last block. -/
def assertBack (l : Layout) (index : Nat) (b : Block) : Checked Unit :=
  if index = l.size then return ()
  else do
    let stop ← b.checkedStop
    match l.blocks[index]? with
    | none => .error .index
    | some c => if stop ≤ c.start then return () else .error .order

/-- Put a block at a given position, between blocks that leave room for it. -/
def insertAt (l : Layout) (index : Nat) (b : Block) : Checked Layout := do
  l.assertFront index b.start
  l.assertBack index b
  if index ≤ l.size then return ⟨l.blocks.insertIdx index b⟩ else .error .index

/-- Where address order puts a block that starts at `start`. -/
def rank (l : Layout) (start : Nat) : Nat :=
  (l.blocks.takeWhile fun b => b.start < start).length

/-- Put a block where address order wants it, and say where that is. -/
def insert (l : Layout) (b : Block) : Checked (Nat × Layout) := do
  let l' ← l.insertAt (l.rank b.start) b
  return (l.rank b.start, l')

/-- Insert blocks one after another. -/
def insertAll (l : Layout) : List Block → Checked Layout
  | [] => return l
  | b :: rest => do
    let (_, l) ← l.insert b
    l.insertAll rest

/-- Insert blocks one after another, the first into an empty layout. -/
def ofBlocks (blocks : List Block) : Checked Layout := insertAll {} blocks

/-- Change the length of the block at a position; it must not reach the next block. -/
def setLen (l : Layout) (index len : Nat) : Checked Layout :=
  match l.blocks[index]? with
  | none => .error .index
  | some b => do
    let behind ← Size.add index 1
    l.assertBack behind { b with len }
    return ⟨l.blocks.set index { b with len }⟩

/-- Take out the block at a position. -/
def removeAt (l : Layout) (index : Nat) : Checked (Block × Layout) :=
  match l.blocks[index]? with
  | some b => .ok (b, ⟨l.blocks.eraseIdx index⟩)
  | none => .error .index

/-- Where the block at position `i` is once another one was put in at `index`. -/
def shifted (index i : Nat) : Checked Nat := if index ≤ i then Size.add i 1 else .ok i

/-- Place `len` bytes at the lowest address that has room for them. -/
def place (l : Layout) (len capacity : Nat) : Checked (Option Placement × Layout) := do
  match ← l.firstFit len capacity with
  | none => return (none, l)
  | some p => return (some p, ← l.insertAt p.index ⟨p.offset, len⟩)

/-! ### Measuring -/

/-- The bytes between the block at a position and the next block, or the end
of the arena. -/
def gapAfter (l : Layout) (index capacity : Nat) : Checked Nat :=
  match l.blocks[index]? with
  | none => .error .index
  | some b => do
    let stop ← b.checkedStop
    let behind ← Size.add index 1
    let limit := match l.blocks[behind]? with
      | some next => next.start
      | none => capacity
    Size.sub limit stop

/-- The widest of `widest` and the gaps in front of, between and behind
`blocks`, where everything before `cursor` is taken. -/
def largestGapFrom (capacity : Nat) : List Block → Nat → Nat → Checked Nat
  | [], cursor, widest => do
    let gap ← Size.sub capacity cursor
    return max widest gap
  | b :: rest, cursor, widest => do
    let gap ← Size.sub b.start cursor
    let stop ← b.checkedStop
    largestGapFrom capacity rest stop (max widest gap)

/-- The length of the widest gap. -/
def largestGap (l : Layout) (capacity : Nat) : Checked Nat :=
  largestGapFrom capacity l.blocks 0 0

/-- The number of occupied bytes. -/
def used (l : Layout) : Checked Nat := l.blocks.foldlM (fun sum b => Size.add sum b.len) 0

end Layout

end FirstFit
