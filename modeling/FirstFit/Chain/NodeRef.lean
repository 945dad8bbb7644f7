/-
# References to nodes

A node lives in a slot of an arena and is numbered by a stamp when it is
created. A reference names all three, so it never means a later node that
happens to lie in the same slot.

Key definitions: `NodeRef`, `Node.size`.
-/
import FirstFit.Arena

namespace FirstFit

/-- The name of a node: its arena, its first byte and its stamp. -/
structure NodeRef where
  arena : ArenaId
  offset : UInt32
  stamp : UInt32
  deriving DecidableEq, Repr

namespace NodeRef

def text (r : NodeRef) : String :=
  s!"Node({r.arena.text}, off={r.offset.toNat}, stamp={r.stamp.toNat})"

def debug (r : NodeRef) : String :=
  Text.record "NodeRef"
    [("arena", r.arena.debug), ("offset", toString r.offset.toNat),
      ("stamp", toString r.stamp.toNat)]

end NodeRef

namespace Node

/-- The number of bytes of a node: its value, two zero bytes, its stamp, and
the stamp and offset of its successor. -/
def size : Nat := 16

/-- Where the value is, counted from the first byte of the node. -/
def dataField : Nat := 0

/-- Where the two bytes are that are always zero. -/
def reservedField : Nat := 2

/-- Where the stamp is; no live node has stamp zero. -/
def stampField : Nat := 4

/-- Where the stamp of the successor is; zero if there is none. -/
def nextStampField : Nat := 8

/-- Where the offset of the successor is. -/
def nextOffsetField : Nat := 12

end Node

end FirstFit
