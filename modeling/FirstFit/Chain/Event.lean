/-
# What a chain logs

Key definitions: `Chain.Event`, `Chain.Event.entry`.
-/
import FirstFit.Chain.Error
import FirstFit.Chain.NodeRef
import FirstFit.Pool.Event

namespace FirstFit
namespace Chain

/-- One thing that a chain, its nodes or its pool log. -/
inductive Event where
  | pool (event : Pool.Event)
  | initialised (capacity slots : Nat)
  | appended (data : UInt16) (node : NodeRef)
  | insertedAfter (data : UInt16) (after node : NodeRef)
  | insertedAtHead (data : UInt16) (before node : NodeRef)
  | insertedBefore (data : UInt16) (before node : NodeRef)
  | nothingBefore (before : NodeRef)
  | missingBefore (before : NodeRef)
  | deleted (data : UInt16) (node : NodeRef)
  | nothingToDelete (data : UInt16)
  | deleteMissed (data : UInt16)
  | searchMissed (data : UInt16)
  | cleanedUp (released : Nat)
  | staleReference (node : NodeRef)
  | freedAfterTearDown (node : NodeRef)
  | notFreed (node : NodeRef) (error : Pool.Error)
  deriving DecidableEq, Repr

/-- The event as a log entry. -/
def Event.entry : Event → LogEntry
  | pool event => event.entry
  | initialised capacity slots =>
    ⟨.info, "list initialised", [("capacity", toString capacity), ("slots", toString slots)]⟩
  | appended data node => ⟨.debug, "appended node", [value data, name node]⟩
  | insertedAfter data after node =>
    ⟨.debug, "inserted node after", [value data, ("after", after.text), name node]⟩
  | insertedAtHead data before node =>
    ⟨.debug, "inserted node at head", [value data, ("before", before.text), name node]⟩
  | insertedBefore data before node =>
    ⟨.debug, "inserted node before", [value data, ("before", before.text), name node]⟩
  | nothingBefore before =>
    ⟨.debug, "insert_before on an empty list", [("before", before.text)]⟩
  | missingBefore before =>
    ⟨.debug, "insert_before target not in list", [("before", before.text)]⟩
  | deleted data node => ⟨.debug, "deleted node", [value data, name node]⟩
  | nothingToDelete data => ⟨.debug, "delete on an empty list", [value data]⟩
  | deleteMissed data => ⟨.debug, "delete found no match", [value data]⟩
  | searchMissed data => ⟨.debug, "search found no match", [value data]⟩
  | cleanedUp released => ⟨.info, "list cleaned up", [("released", toString released)]⟩
  | staleReference node => ⟨.debug, "stale node reference", [name node]⟩
  | freedAfterTearDown node => ⟨.debug, "node freed after teardown", [name node]⟩
  | notFreed node error =>
    ⟨.warn, "node storage could not be freed", [name node, ("error", error.message)]⟩
where
  value (data : UInt16) : String × String := ("data", toString data.toNat)
  name (node : NodeRef) : String × String := ("node", node.text)

end Chain
end FirstFit
