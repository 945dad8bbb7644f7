/-
# Why a pool refuses a call

Key definitions: `Pool.Error`, `Pool.Error.message`.
-/
import FirstFit.Text

namespace FirstFit
namespace Pool

/-- The reason for which a pool refuses a call. -/
inductive Error where
  /-- A pool needs at least one byte. -/
  | invalidCapacity (capacity : Nat)
  /-- The pool has an arena already. -/
  | alreadyInitialised
  /-- No arena of this capacity can be reserved. -/
  | arenaUnavailable (capacity : Nat)
  /-- The pool has no arena. -/
  | uninitialised
  /-- A block needs at least one byte. -/
  | invalidSize
  /-- The request is larger than the whole arena. -/
  | insufficientCapacity (requested capacity : Nat)
  /-- No gap is as long as the request. -/
  | outOfSpace (requested largestGap : Nat)
  /-- No block of this pool starts at the offset of the handle. -/
  | invalidHandle (offset : Nat)
  /-- A write to the block at offset `block` would reach byte `stop` of its `len`. -/
  | outOfBounds (block stop len : Nat)
  deriving DecidableEq, Repr

namespace Error

/-- The name of the kind of refusal. -/
def kind : Error → String
  | invalidCapacity _ => "InvalidCapacity"
  | alreadyInitialised => "AlreadyInitialized"
  | arenaUnavailable _ => "ArenaUnavailable"
  | uninitialised => "Uninitialized"
  | invalidSize => "InvalidSize"
  | insufficientCapacity _ _ => "InsufficientCapacity"
  | outOfSpace _ _ => "OutOfSpace"
  | invalidHandle _ => "InvalidHandle"
  | outOfBounds _ _ _ => "OutOfBounds"

/-- The numbers that a refusal carries, by name. -/
def details : Error → List (String × Nat)
  | invalidCapacity capacity => [("capacity", capacity)]
  | alreadyInitialised => []
  | arenaUnavailable capacity => [("capacity", capacity)]
  | uninitialised => []
  | invalidSize => []
  | insufficientCapacity requested capacity =>
    [("requested", requested), ("capacity", capacity)]
  | outOfSpace requested largestGap => [("requested", requested), ("largest_gap", largestGap)]
  | invalidHandle offset => [("offset", offset)]
  | outOfBounds block stop len => [("block", block), ("end", stop), ("len", len)]

def message : Error → String
  | invalidCapacity capacity => s!"invalid pool capacity: {capacity} bytes"
  | alreadyInitialised => "pool is already initialised"
  | arenaUnavailable capacity => s!"could not reserve {capacity} bytes for the arena"
  | uninitialised => "pool is not initialised"
  | invalidSize => "block size must be at least 1 byte"
  | insufficientCapacity requested capacity =>
    s!"request of {requested} bytes exceeds pool capacity of {capacity} bytes"
  | outOfSpace requested largestGap =>
    s!"no gap fits {requested} bytes (largest gap {largestGap} bytes)"
  | invalidHandle offset => s!"no live block at offset {offset}"
  | outOfBounds block stop len =>
    s!"access to byte {stop} of block at offset {block} exceeds its length {len}"

/-- The kind alone, or the kind as a record of its details. -/
def debug (e : Error) : String :=
  match e.details with
  | [] => e.kind
  | details => Text.record e.kind (details.map fun d => (d.1, toString d.2))

end Error

end Pool
end FirstFit
