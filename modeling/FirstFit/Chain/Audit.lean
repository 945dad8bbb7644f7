/-
# Auditing a chain

A chain agrees with its pool if there is one block for each node, every block
is a slot of a node table, and the blocks describe the use of the arena.

Key definitions: `Chain.Flaw`, `Chain.audit`.
-/
import FirstFit.Chain.Range
import FirstFit.Layout.Audit

namespace FirstFit
namespace Chain

/-- Why a chain does not agree with its pool. -/
inductive Flaw where
  | noStats (error : Error)
  | miscounted (nodes liveBlocks : Nat)
  | misplaced (block : Block)
  | layout (flaw : Layout.Flaw)
  deriving DecidableEq, Repr

def Flaw.message : Flaw → String
  | noStats error => error.message
  | miscounted nodes liveBlocks => s!"{nodes} reachable nodes but {liveBlocks} live blocks"
  | misplaced block => s!"block {block.debug} is not a node slot"
  | layout flaw => flaw.message

/-- A block that a node can occupy. -/
def isSlot (b : Block) : Bool := b.len == Node.size && b.start % Node.size == 0

/-- The first disagreement between a chain and its pool. -/
def audit (c : Chain) : Checked (Except Flaw Unit) := do
  let nodes ← c.count
  match ← c.stats with
  | .error e => return .error (.noStats e)
  | .ok stats =>
    if stats.liveBlocks ≠ nodes then return .error (.miscounted nodes stats.liveBlocks)
    else
      match c.blocks.find? fun b => !isSlot b with
      | some b => return .error (.misplaced b)
      | none =>
        let result ← Layout.audit c.blocks stats.capacity
        return result.mapError Flaw.layout

end Chain
end FirstFit
