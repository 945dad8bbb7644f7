/-
# Ranges of a chain

A range yields values one after another, from a node up to and including
another one, or up to the end if that node does not come. It yields nothing
if the node to start from is not there, and nothing more once it has ended.

Key definitions: `Range`, `Range.pull`, `Range.drain`, `Chain.range`,
`Chain.values`, `Chain.render`.
-/
import FirstFit.Chain

namespace FirstFit

/-- The part of a chain still ahead: the node to come next, and the last one
wanted. -/
structure Range where
  next : Option NodeRef
  last : Option NodeRef
  deriving DecidableEq, Repr

namespace Range

/-- Take the next value. -/
def pull (r : Range) (t : NodeTable) : Checked (Option UInt16 × Range) :=
  match r.next with
  | none => return (none, r)
  | some node => do
    let record ← t.record node
    if r.last = some node then return (some record.data, { r with next := none })
    else
      let _ ← record.next.mapM t.slotOf
      return (some record.data, { r with next := record.next })

/-- All values still ahead, in at most `steps` steps. -/
def drain (r : Range) (t : NodeTable) : (steps : Nat) → Checked (List UInt16)
  | 0 => if r.next.isNone then return [] else .error .endless
  | steps + 1 => do
    match ← r.pull t with
    | (none, _) => return []
    | (some v, r) =>
      let rest ← r.drain t steps
      return v :: rest

def debug (r : Range) : String :=
  Text.record "Range"
    [("next", Text.option (r.next.map NodeRef.debug)),
      ("end", Text.option (r.last.map NodeRef.debug))]

end Range

namespace Chain

/-- The range from `first`, or from the head, to `last`. -/
def range (c : Chain) (first last : Option NodeRef) : Checked (Range × List Event) :=
  match first with
  | none => do
    let _ ← c.head.mapM c.table.slotOf
    return (⟨c.head, last⟩, [])
  | some node => do
    let (standing, log) ← c.table.checkLive node
    match standing with
    | .ok () => return (⟨some node, last⟩, log)
    | .error _ => return (⟨none, last⟩, log)

/-- The values from `first`, or from the head, to `last`. -/
def segment (c : Chain) (first last : Option NodeRef) : Checked (List UInt16 × List Event) := do
  let (r, log) ← c.range first last
  let values ← r.drain c.table c.table.slots
  return (values, log)

/-- All values, from the head to the end. -/
def values (c : Chain) : Checked (List UInt16) := do
  let (values, _) ← c.segment none none
  return values

/-- The number of nodes. -/
def count (c : Chain) : Checked Nat := do
  let values ← c.values
  return values.length

/-- Values in brackets. -/
def render (values : List UInt16) : String :=
  Text.list (values.map fun v => toString v.toNat)

end Chain

end FirstFit
