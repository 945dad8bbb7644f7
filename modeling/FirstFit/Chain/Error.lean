/-
# Why a chain refuses a call

Key definitions: `Chain.Error`, `Chain.Error.message`, `Chain.Error.source?`.
-/
import FirstFit.Pool.Error

namespace FirstFit
namespace Chain

/-- The reason for which a chain refuses a call. -/
inductive Error where
  /-- A chain needs at least one byte, and offsets of 32 bits must reach all of them. -/
  | invalidCapacity (capacity : Nat)
  /-- The pool behind the chain refuses. -/
  | pool (error : Pool.Error)
  /-- The pool has no storage for another node. -/
  | allocationFailed (error : Pool.Error)
  /-- The reference is absent, or its node is no longer there. -/
  | nullReference
  /-- No node has the value, or the reference is not reached from the head. -/
  | notFound
  /-- There are no nodes. -/
  | empty
  deriving DecidableEq, Repr

namespace Error

/-- The name of the kind of refusal. -/
def kind : Error → String
  | invalidCapacity _ => "InvalidCapacity"
  | pool _ => "Pool"
  | allocationFailed _ => "AllocationFailed"
  | nullReference => "NullReference"
  | notFound => "NotFound"
  | empty => "EmptyList"

/-- The refusal of the pool that lies behind a refusal of the chain. -/
def source? : Error → Option Pool.Error
  | pool e => some e
  | allocationFailed e => some e
  | _ => none

def message : Error → String
  | invalidCapacity capacity => s!"invalid list capacity: {capacity} bytes"
  | pool e => "pool: " ++ e.message
  | allocationFailed e => "node allocation failed: " ++ e.message
  | nullReference => "node reference is null or stale"
  | notFound => "node not found"
  | empty => "list is empty"

def debug : Error → String
  | e@(invalidCapacity capacity) => Text.record e.kind [("capacity", toString capacity)]
  | e@(pool source) => Text.tuple e.kind source.debug
  | e@(allocationFailed source) => Text.tuple e.kind source.debug
  | e => e.kind

end Error

end Chain
end FirstFit
