/-
# Chains

A chain is a sequence of 16-bit values whose nodes are linked in the arena of
a pool of its own. Nodes are added at the end, or next to a node that a
reference names; a value is removed where it occurs first. A chain that is
cleaned up is empty for good.

Key definitions: `Chain`, `Chain.linkLast`, `Chain.insert`,
`Chain.insertAfter`, `Chain.linkBefore`, `Chain.insertBefore`, `Chain.delete`,
`Chain.search`, `Chain.cleanUp`.
-/
import FirstFit.Chain.Walk

namespace FirstFit

/-- Nodes linked from a head. -/
structure Chain where
  table : NodeTable
  head : Option NodeRef := none
  deriving DecidableEq

namespace Chain

/-- An empty chain. -/
def initialise (supply : Supply) (c : Pool.Config) (available : Bool := true) :
    Reply Error Supply Event Chain :=
  let reply := NodeTable.initialise supply c available
  match reply.answer with
  | .error e => ⟨.error e, reply.state, reply.log⟩
  | .ok table =>
    ⟨.ok { table }, reply.state, reply.log ++ [.initialised c.capacity table.slots]⟩

/-! ### Looking -/

def isEmpty (c : Chain) : Bool := c.head.isNone

/-- The blocks of the nodes, in address order. -/
def blocks (c : Chain) : List Block := c.table.pool.blocks

/-- How full the pool behind the chain is. -/
def stats (c : Chain) : Checked (Except Error Pool.Stats) := do
  match ← c.table.pool.stats with
  | .ok stats => return .ok stats
  | .error e => return .error (.pool e)

/-- The value of the node that a reference names. -/
def get (c : Chain) (node : NodeRef) : Checked (Reply Error Chain Event UInt16) := do
  let (standing, log) ← c.table.checkLive node
  match standing with
  | .error e => return ⟨.error e, c, log⟩
  | .ok () =>
    let data ← c.table.data node
    return ⟨.ok data, c, log⟩

/-- The first node with a value. -/
def search (c : Chain) (data : UInt16) : Checked (Reply Error Chain Event NodeRef) :=
  match c.head with
  | none => return ⟨.error .empty, c, []⟩
  | some first => do
    match ← c.table.findValue data first with
    | some stop => return ⟨.ok stop.node, c, []⟩
    | none => return ⟨.error .notFound, c, [.searchMissed data]⟩

/-! ### Adding -/

/-- Take back a node that was created but not linked, and refuse the call. -/
def discard (c : Chain) (table : NodeTable) (node : NodeRef) (before after : List Event)
    (e : Error) : Checked (Reply Error Chain Event NodeRef) := do
  let (table, log) ← table.release node
  return ⟨.error e, { c with table }, before ++ log ++ after⟩

/-- Link a new node behind the last one. -/
def linkLast (c : Chain) (table : NodeTable) (node : NodeRef) (data : UInt16)
    (log : List Event) : Checked (Reply Error Chain Event NodeRef) :=
  let log := log ++ [.appended data node]
  match c.head with
  | none => return ⟨.ok node, { table, head := some node }, log⟩
  | some first => do
    let last ← table.last first
    let table ← table.setNext last (some node)
    return ⟨.ok node, { c with table }, log⟩

/-- Put a value at the end. A pool that was torn down after the node was created
takes it back. -/
def insert (c : Chain) (data : UInt16) : Checked (Reply Error Chain Event NodeRef) := do
  let made ← c.table.create data none
  let table := made.state
  match made.answer with
  | .error e => return ⟨.error e, { c with table }, made.log⟩
  | .ok node =>
    if table.pool.isLive then c.linkLast table node data made.log
    else c.discard table node made.log [] (.allocationFailed .uninitialised)

/-- Put a value directly behind the node that a reference names. -/
def insertAfter (c : Chain) (anchor : Option NodeRef) (data : UInt16) :
    Checked (Reply Error Chain Event NodeRef) :=
  match anchor with
  | none => return ⟨.error .nullReference, c, []⟩
  | some anchor => do
    let made ← c.table.create data none
    let table := made.state
    match made.answer with
    | .error e => return ⟨.error e, { c with table }, made.log⟩
    | .ok node =>
      let (standing, log) ← table.checkLive anchor
      match standing with
      | .error e => c.discard table node (made.log ++ log) [] e
      | .ok () =>
        let next ← table.next anchor
        let table ← table.setNext node next
        let table ← table.setNext anchor (some node)
        return ⟨.ok node, { c with table }, made.log ++ [.insertedAfter data anchor node]⟩

/-- Link a new node in front of the anchor, which it leads to already. -/
def linkBefore (c : Chain) (table : NodeTable) (anchor node : NodeRef) (data : UInt16)
    (log : List Event) : Checked (Reply Error Chain Event NodeRef) :=
  match c.head with
  | none => c.discard table node log [.nothingBefore anchor] .notFound
  | some first =>
    if first = anchor then
      let log := log ++ [.insertedAtHead data anchor node]
      return ⟨.ok node, { table, head := some node }, log⟩
    else do
      match ← table.findBefore anchor first with
      | none => c.discard table node log [.missingBefore anchor] .notFound
      | some stop =>
        let table ← table.setNext stop.node (some node)
        let log := log ++ [.insertedBefore data anchor node]
        return ⟨.ok node, { c with table }, log⟩

/-- Put a value directly in front of the node that a reference names. The
reference must be reached from the head. A pool that was torn down after the
node was created takes it back. -/
def insertBefore (c : Chain) (anchor : Option NodeRef) (data : UInt16) :
    Checked (Reply Error Chain Event NodeRef) :=
  match anchor with
  | none => return ⟨.error .nullReference, c, []⟩
  | some anchor => do
    let made ← c.table.create data (some anchor)
    let table := made.state
    match made.answer with
    | .error e => return ⟨.error e, { c with table }, made.log⟩
    | .ok node =>
      if table.pool.isLive then c.linkBefore table anchor node data made.log
      else c.discard table node made.log [] (.allocationFailed .uninitialised)

/-! ### Removing -/

/-- Remove the first node with a value. -/
def delete (c : Chain) (data : UInt16) : Checked (Reply Error Chain Event Unit) :=
  match c.head with
  | none => return ⟨.error .notFound, c, [.nothingToDelete data]⟩
  | some first => do
    match ← c.table.findValue data first with
    | none => return ⟨.error .notFound, c, [.deleteMissed data]⟩
    | some stop =>
      let (table, head) ← match stop.previous with
        | some previous => do
          let table ← c.table.setNext previous stop.record.next
          pure (table, c.head)
        | none => pure (c.table, stop.record.next)
      let (table, log) ← table.release stop.node
      return ⟨.ok (), { table, head }, log ++ [.deleted data stop.node]⟩

/-- Release a node and all that it leads to, in at most `steps` steps, and count
them. -/
def releaseAll : (steps : Nat) → NodeTable → Option NodeRef →
    Checked (NodeTable × List Event × Nat)
  | _, t, none => return (t, [], 0)
  | 0, _, some _ => .error .endless
  | steps + 1, t, some node => do
    let next ← t.next node
    let (t, log) ← t.release node
    let (t, rest, count) ← releaseAll steps t next
    return (t, log ++ rest, count + 1)

/-- Release every node and end the pool. -/
def cleanUp (c : Chain) : Checked (Reply Error Chain Event Unit) := do
  let (table, released, count) ← releaseAll c.table.slots c.table c.head
  let (table, torn) := table.tearDown
  return ⟨.ok (), { table, head := none }, released ++ torn ++ [.cleanedUp count]⟩

def debug (c : Chain) : String :=
  Text.record "ConcurrentList"
    [("head", Text.option (c.head.map NodeRef.debug)), ("store", c.table.debug)]

end Chain

end FirstFit
