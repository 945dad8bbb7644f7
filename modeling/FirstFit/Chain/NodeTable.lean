/-
# Node tables

A node table keeps nodes of sixteen bytes in the slots of an arena: storage
comes from a pool that serves requests of this one size, and every node gets a
stamp of its own. When the table is torn down its pool ends, but the bytes of
the arena stay as they are.

Key definitions: `NodeTable`, `NodeTable.create`, `NodeTable.standing`,
`NodeTable.record`, `NodeTable.release`.
-/
import FirstFit.Chain.Event
import FirstFit.Pool

namespace FirstFit

open Chain (Event Error)

/-- Nodes in the slots of an arena. -/
structure NodeTable where
  space : Space
  /-- The pool has not been torn down. -/
  isLive : Bool := true
  /-- The stamp of the next node. -/
  nextStamp : UInt32 := 1
  deriving DecidableEq

namespace NodeTable

/-- The largest arena that offsets of 32 bits reach. -/
def maxCapacity : Nat := UInt32.size - 1

@[inline] def arena (t : NodeTable) : Arena := t.space.arena

/-- The number of nodes that the arena has room for. -/
@[inline] def slots (t : NodeTable) : Nat := t.arena.capacity / Node.size

/-- The pool that the storage of the nodes comes from. -/
def pool (t : NodeTable) : Pool := if t.isLive then ⟨some t.space⟩ else {}

/-- The table once its pool has changed. -/
def withPool (t : NodeTable) (p : Pool) : NodeTable :=
  match p.space? with
  | some space => { t with space }
  | none => { t with space := { t.space with layout := {} }, isLive := false }

theorem pool_of_live {t : NodeTable} (h : t.isLive = true) : t.pool = ⟨some t.space⟩ := by
  rw [pool, if_pos h]

/-- A table of which nothing is used yet. -/
def initialise (supply : Supply) (c : Pool.Config) (available : Bool := true) :
    Reply Error Supply Event NodeTable :=
  if maxCapacity < c.capacity then ⟨.error (.invalidCapacity c.capacity), supply, []⟩
  else
    let reply := Pool.initialise {} supply c available
    let log := reply.log.map Event.pool
    let (p, supply) := reply.state
    match reply.answer, p.space? with
    | .error (.invalidCapacity capacity), _ => ⟨.error (.invalidCapacity capacity), supply, log⟩
    | .error e, _ => ⟨.error (.pool e), supply, log⟩
    | .ok (), some space => ⟨.ok { space }, supply, log⟩
    | .ok (), none => ⟨.error (.pool .uninitialised), supply, log⟩

/-! ### The fields of a node -/

/-- The first byte of the slot of a node; the slot must exist. -/
@[inline] def slotOf (t : NodeTable) (node : NodeRef) : Checked Nat :=
  let base := node.offset.toNat
  if base / Node.size < t.slots then .ok base else .error .index

/-- The value of the node at `base`. -/
@[inline] def dataAt (t : NodeTable) (base : Nat) : Checked UInt16 :=
  t.arena.load16 (base + Node.dataField)

/-- The stamp of the node at `base`. -/
@[inline] def stampAt (t : NodeTable) (base : Nat) : Checked UInt32 :=
  t.arena.load32 (base + Node.stampField)

/-- The successor of the node at `base`. -/
@[inline] def nextAt (t : NodeTable) (base : Nat) : Checked (Option NodeRef) := do
  let stamp ← t.arena.load32 (base + Node.nextStampField)
  if stamp = 0 then return none
  else
    let offset ← t.arena.load32 (base + Node.nextOffsetField)
    return some ⟨t.arena.id, offset, stamp⟩

/-- The table with another arena of the same identity and length. -/
def withArena (t : NodeTable) (arena : Arena) : NodeTable :=
  { t with space := { t.space with arena } }

/-- Write the value and the stamp of the node at `base`. -/
def writeHeader (t : NodeTable) (base : Nat) (data : UInt16) (stamp : UInt32) :
    Checked NodeTable := do
  let arena ← t.arena.store16 (base + Node.dataField) data
  let arena ← arena.store16 (base + Node.reservedField) 0
  let arena ← arena.store32 (base + Node.stampField) stamp
  return t.withArena arena

/-- Write the successor of the node at `base`. -/
def writeNext (t : NodeTable) (base : Nat) (next : Option NodeRef) : Checked NodeTable := do
  let (stamp, offset) := match next with
    | some n => (n.stamp, n.offset)
    | none => (0, 0)
  let arena ← t.arena.store32 (base + Node.nextStampField) stamp
  let arena ← arena.store32 (base + Node.nextOffsetField) offset
  return t.withArena arena

/-- Zero the node at `base`, word by word. -/
def erase (t : NodeTable) (base : Nat) : Checked NodeTable := do
  let arena ← [0, 4, 8, 12].foldlM (fun a word => a.store32 (base + word) 0) t.arena
  return t.withArena arena

/-! ### Creating, reading and releasing -/

/-- A number for the next node. Stamps count upward and leave out zero. -/
def takeStamp (t : NodeTable) : UInt32 × NodeTable :=
  let stamp := if t.nextStamp = 0 then 1 else t.nextStamp
  (stamp, { t with nextStamp := stamp + 1 })

/-- A new node that no other node leads to. -/
def create (t : NodeTable) (data : UInt16) (next : Option NodeRef) :
    Checked (Reply Error NodeTable Event NodeRef) := do
  let reply ← t.pool.allocate Node.size
  let log := reply.log.map Event.pool
  let t := t.withPool reply.state
  match reply.answer with
  | .error e => return ⟨.error (.allocationFailed e), t, log⟩
  | .ok h =>
    let offset ← Size.toWord h.offset
    let (stamp, t) := t.takeStamp
    let node : NodeRef := ⟨t.arena.id, offset, stamp⟩
    let base ← t.slotOf node
    let t ← t.writeHeader base data stamp
    let t ← t.writeNext base next
    return ⟨.ok node, t, log⟩

/-- The value of a node that a link leads to; such a node is live and needs no
check. -/
@[inline] def data (t : NodeTable) (node : NodeRef) : Checked UInt16 := do
  let base ← t.slotOf node
  t.dataAt base

/-- The successor of a node that a link leads to. -/
@[inline] def next (t : NodeTable) (node : NodeRef) : Checked (Option NodeRef) := do
  let base ← t.slotOf node
  t.nextAt base

/-- The value and the successor of a node. -/
structure Record where
  data : UInt16
  next : Option NodeRef
  deriving DecidableEq, Repr

/-- Read a node that a link leads to. -/
@[inline] def record (t : NodeTable) (node : NodeRef) : Checked Record := do
  let data ← t.data node
  let next ← t.next node
  return ⟨data, next⟩

/-- What a reference from outside stands for. -/
inductive Standing where
  /-- A node of this table. -/
  | live
  /-- A node of this table that is gone. -/
  | stale
  /-- Nothing that this table could hold. -/
  | foreign
  deriving DecidableEq, Repr

/-- Compare a reference with the slot it names. -/
def standing (t : NodeTable) (node : NodeRef) : Checked Standing :=
  let base := node.offset.toNat
  if node.arena = t.arena.id ∧ base % Node.size = 0 ∧ base / Node.size < t.slots then do
    let stamp ← t.stampAt base
    return if stamp = node.stamp then .live else .stale
  else return .foreign

/-- Whether a reference from outside may be used; one that is stale is logged. -/
def checkLive (t : NodeTable) (node : NodeRef) : Checked (Except Error Unit × List Event) := do
  match ← t.standing node with
  | .live => return (.ok (), [])
  | .stale => return (.error .nullReference, [.staleReference node])
  | .foreign => return (.error .nullReference, [])

/-- Set the successor of a node. -/
def setNext (t : NodeTable) (node : NodeRef) (next : Option NodeRef) : Checked NodeTable := do
  let base ← t.slotOf node
  t.writeNext base next

/-- Zero a node and give its storage back to the pool. -/
def release (t : NodeTable) (node : NodeRef) : Checked (NodeTable × List Event) := do
  let base ← t.slotOf node
  let t ← t.erase base
  let reply ← t.pool.free ⟨node.arena, base, Node.size⟩
  let log := reply.log.map Event.pool
  let t := t.withPool reply.state
  match reply.answer with
  | .ok () => return (t, log)
  | .error .uninitialised => return (t, log ++ [.freedAfterTearDown node])
  | .error e => return (t, log ++ [.notFreed node e])

/-- End the pool. The bytes of the nodes stay. -/
def tearDown (t : NodeTable) : NodeTable × List Event :=
  let reply := t.pool.tearDown
  (t.withPool reply.state, reply.log.map Event.pool)

def debug (t : NodeTable) : String :=
  Text.record "NodeStore"
    [("arena", t.arena.id.debug), ("slots", toString t.slots), ("pool", t.pool.debug)]

end NodeTable

end FirstFit
