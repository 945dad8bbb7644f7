/-
# Walking along links

A walk starts at a node and follows links until a node meets a condition or
the links end. A chain that returns to a slot would never end, so a walk has
as many steps as its table has slots; one that needs more is a fault.

Key definitions: `NodeTable.last`, `NodeTable.walk`, `NodeTable.Stop`.
-/
import FirstFit.Chain.NodeTable

namespace FirstFit
namespace NodeTable

/-- The node at which the links from `node` on end, in at most `steps` steps. -/
def lastFrom (t : NodeTable) : (steps : Nat) → (node : NodeRef) → Checked NodeRef
  | 0, _ => .error .endless
  | steps + 1, node => do
    match ← t.next node with
    | none => return node
    | some next => t.lastFrom steps next

/-- The node at which the links from `first` on end. -/
def last (t : NodeTable) (first : NodeRef) : Checked NodeRef := t.lastFrom t.slots first

/-- Where a walk stops: a node, what it holds, and the node before it. -/
structure Stop where
  previous : Option NodeRef
  node : NodeRef
  record : Record
  deriving DecidableEq, Repr

/-- The first node from `node` on that meets a condition, in at most `steps`
steps; `previous` comes before `node`. -/
def walk (t : NodeTable) (meets : Record → Bool) :
    (steps : Nat) → (previous : Option NodeRef) → (node : NodeRef) → Checked (Option Stop)
  | 0, _, _ => .error .endless
  | steps + 1, previous, node => do
    let record ← t.record node
    if meets record then return some ⟨previous, node, record⟩
    else
      match record.next with
      | none => return none
      | some next => t.walk meets steps (some node) next

/-- The first node from `first` on that meets a condition. -/
def find (t : NodeTable) (meets : Record → Bool) (first : NodeRef) : Checked (Option Stop) :=
  t.walk meets t.slots none first

/-- The first node that holds a value. -/
def findValue (t : NodeTable) (data : UInt16) (first : NodeRef) : Checked (Option Stop) :=
  t.find (fun r => r.data == data) first

/-- The first node that leads to `target`. -/
def findBefore (t : NodeTable) (target : NodeRef) (first : NodeRef) : Checked (Option Stop) :=
  t.find (fun r => r.next == some target) first

end NodeTable
end FirstFit
