/-
# The space of a live pool

An arena, the layout of its blocks, and whether blocks are zeroed. Requests
are placed at the lowest address with room. A block that has to grow is first
looked after in its own place, then in another gap while it still counts as
occupied, and last with its own bytes counted as free; if all three fail it is
put back where it was.

Key definitions: `Space.locate?`, `Space.allocate`, `Space.free`,
`Space.resize`, `Space.read`, `Space.write`, `Space.stats`.
-/
import FirstFit.Layout
import FirstFit.Pool.Basic

namespace FirstFit

/-- An arena with the layout of its blocks. -/
structure Space where
  arena : Arena
  layout : Layout := {}
  zeroing : Bool := true
  deriving DecidableEq

namespace Space

open Pool (Error Handle Growth Stats)

def capacity (s : Space) : Nat := s.arena.capacity

def handle (s : Space) (b : Block) : Handle := ⟨s.arena.id, b.start, b.len⟩

/-- A request must be for at least one byte and at most the whole arena. -/
def assess (s : Space) (size : Nat) : Except Error Unit :=
  if size = 0 then .error .invalidSize
  else if s.capacity < size then .error (.insufficientCapacity size s.capacity)
  else .ok ()

/-- The position and the block that a handle names: the arena must be this
one and the block must start at the offset. The length of the handle plays no
part. -/
def locate? (s : Space) (h : Handle) : Option (Nat × Block) :=
  if h.arena = s.arena.id then
    match s.layout.position? h.offset with
    | some i => (s.layout.get? i).map fun b => (i, b)
    | none => none
  else none

/-- Zero bytes `first` to `last` of the block at `start`, if this space zeroes
blocks. -/
def zeroTail (s : Space) (start first last : Nat) : Checked Space :=
  if s.zeroing ∧ first < last then do
    let offset ← Size.add start first
    let len ← Size.sub last first
    let arena ← s.arena.fill offset len 0
    return { s with arena }
  else return s

/-! ### Allocating and freeing -/

/-- Place `size` bytes. -/
def allocate (s : Space) (size : Nat) : Checked (Except Error Handle × Space) :=
  match s.assess size with
  | .error e => return (.error e, s)
  | .ok () => do
    match ← s.layout.firstFit size s.capacity with
    | none =>
      let gap ← s.layout.largestGap s.capacity
      return (.error (.outOfSpace size gap), s)
    | some p =>
      let b : Block := ⟨p.offset, size⟩
      let layout ← s.layout.insertAt p.index b
      let s ← { s with layout }.zeroTail b.start 0 size
      return (.ok (s.handle b), s)

/-- Give back the block that a handle names. -/
def free (s : Space) (h : Handle) : Checked (Except Error Block × Space) :=
  match s.locate? h with
  | none => return (.error (.invalidHandle h.offset), s)
  | some (i, _) => do
    let (b, layout) ← s.layout.removeAt i
    return (.ok b, { s with layout })

/-! ### Resizing -/

/-- Write the old bytes of a block to its new place, and zero what it grew by. -/
def settle (s : Space) (old : List UInt8) (b : Block) : Checked Space := do
  let arena ← s.arena.store b.start old
  { s with arena }.zeroTail b.start old.length b.len

/-- Grow the block `b` at position `i` at another place: in a gap that is free
now, or in one that is free once the block is taken out. If neither has room,
the block goes back to its position. -/
def move (s : Space) (i : Nat) (b : Block) (size : Nat) :
    Checked (Except Error (Handle × Growth) × Space) := do
  let old ← s.arena.load b.start b.len
  match ← s.layout.firstFit size s.capacity with
  | some p =>
    let target : Block := ⟨p.offset, size⟩
    let layout ← s.layout.insertAt p.index target
    let s ← { s with layout }.settle old target
    let source ← Layout.shifted p.index i
    let (_, layout) ← s.layout.removeAt source
    return (.ok (s.handle target, .moved), { s with layout })
  | none =>
    let (source, without) ← s.layout.removeAt i
    match ← without.firstFit size s.capacity with
    | some p =>
      let target : Block := ⟨p.offset, size⟩
      let layout ← without.insertAt p.index target
      let s ← { s with layout }.settle old target
      return (.ok (s.handle target, .relocated), s)
    | none =>
      let gap ← without.largestGap s.capacity
      let layout ← without.insertAt i source
      return (.error (.outOfSpace size gap), { s with layout })

/-- Change the length of the block that a handle names. -/
def resize (s : Space) (h : Handle) (size : Nat) :
    Checked (Except Error (Handle × Growth) × Space) :=
  match s.locate? h with
  | none => return (.error (.invalidHandle h.offset), s)
  | some (i, b) =>
    match s.assess size with
    | .error e => return (.error e, s)
    | .ok () =>
      let resized : Block := ⟨b.start, size⟩
      if size ≤ b.len then do
        let layout ← s.layout.setLen i size
        return (.ok (s.handle resized, .shrunk), { s with layout })
      else do
        let gap ← s.layout.gapAfter i s.capacity
        let room ← Size.add b.len gap
        if size ≤ room then
          let layout ← s.layout.setLen i size
          let s ← { s with layout }.zeroTail b.start b.len size
          return (.ok (s.handle resized, .inPlace), s)
        else
          s.move i b size

/-! ### Reading and writing -/

/-- The bytes of the block that a handle names. -/
def read (s : Space) (h : Handle) : Checked (Except Error (List UInt8)) :=
  match s.locate? h with
  | none => return .error (.invalidHandle h.offset)
  | some (_, b) => do
    let bytes ← s.arena.load b.start b.len
    return .ok bytes

/-- Write bytes into the block that a handle names, from its byte `offset` on. -/
def write (s : Space) (h : Handle) (offset : Nat) (bytes : List UInt8) :
    Checked (Except Error Unit × Space) :=
  match s.locate? h with
  | none => return (.error (.invalidHandle h.offset), s)
  | some (_, b) =>
    let stop := Size.addCapped offset bytes.length
    if b.len < stop then return (.error (.outOfBounds b.start stop b.len), s)
    else do
      let first ← Size.add b.start offset
      let arena ← s.arena.store first bytes
      return (.ok (), { s with arena })

/-- How full the space is. -/
def stats (s : Space) : Checked Stats := do
  let used ← s.layout.used
  let free ← Size.sub s.capacity used
  let largestGap ← s.layout.largestGap s.capacity
  return ⟨s.capacity, used, free, s.layout.size, largestGap⟩

end Space

end FirstFit
