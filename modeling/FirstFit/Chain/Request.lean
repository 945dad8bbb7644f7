/-
# Requests to a chain

A call on a chain as a value, so that a run of a chain is a list of requests.

Key definitions: `Chain.Request`, `Chain.Answer`, `Chain.serve`.
-/
import FirstFit.Chain.Range

namespace FirstFit
namespace Chain

/-- A call on a chain. -/
inductive Request where
  | insert (data : UInt16)
  | insertAfter (anchor : Option NodeRef) (data : UInt16)
  | insertBefore (anchor : Option NodeRef) (data : UInt16)
  | delete (data : UInt16)
  | search (data : UInt16)
  | get (node : NodeRef)
  | head
  | isEmpty
  | count
  | segment (first last : Option NodeRef)
  | stats
  | cleanUp
  deriving DecidableEq, Repr

/-- What a request that is granted gives. -/
inductive Answer where
  | done
  | node (node : NodeRef)
  | head (node : Option NodeRef)
  | value (data : UInt16)
  | values (data : List UInt16)
  | flag (b : Bool)
  | number (n : Nat)
  | stats (stats : Pool.Stats)
  deriving DecidableEq, Repr

/-- Carry out one request. -/
def serve (c : Chain) : Request → Checked (Reply Error Chain Event Answer)
  | .insert data => return (← c.insert data).map .node
  | .insertAfter anchor data => return (← c.insertAfter anchor data).map .node
  | .insertBefore anchor data => return (← c.insertBefore anchor data).map .node
  | .delete data => return (← c.delete data).map fun _ => .done
  | .search data => return (← c.search data).map .node
  | .get node => return (← c.get node).map .value
  | .head => return ⟨.ok (.head c.head), c, []⟩
  | .isEmpty => return ⟨.ok (.flag c.isEmpty), c, []⟩
  | .count => return ⟨.ok (.number (← c.count)), c, []⟩
  | .segment first last => do
    let (values, log) ← c.segment first last
    return ⟨.ok (.values values), c, log⟩
  | .stats => return ⟨(← c.stats).map .stats, c, []⟩
  | .cleanUp => return (← c.cleanUp).map fun _ => .done

end Chain
end FirstFit
