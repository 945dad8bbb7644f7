/-
# Auditing a list of blocks

A list of blocks describes the use of an arena if every block has at least one
byte, starts no earlier than the previous one ends, and ends inside the arena.
The audit reads the list once and names the first block that breaks the rule.

Key definitions: `Layout.Flaw`, `Layout.audit`.
-/
import FirstFit.Layout

namespace FirstFit
namespace Layout

/-- What is wrong with the block at position `index`. -/
inductive Flaw where
  | empty (index start : Nat)
  | overlap (index start previousStop : Nat)
  | overrun (index start stop capacity : Nat)
  deriving DecidableEq, Repr

namespace Flaw

def index : Flaw → Nat
  | empty i _ => i
  | overlap i _ _ => i
  | overrun i _ _ _ => i

def message : Flaw → String
  | empty i start => s!"block {i} at {start} is empty"
  | overlap i start previousStop =>
    s!"block {i} at {start} overlaps or precedes the previous end {previousStop}"
  | overrun i start stop capacity =>
    s!"block {i} [{start}, {stop}) runs past capacity {capacity}"

end Flaw

/-- Audit `blocks`, the first of which has position `index`, given that the
block before it ends at `cursor`. -/
def auditFrom (capacity : Nat) : List Block → Nat → Nat → Checked (Except Flaw Unit)
  | [], _, _ => return .ok ()
  | b :: rest, index, cursor =>
    if b.len = 0 then return .error (.empty index b.start)
    else if b.start < cursor then return .error (.overlap index b.start cursor)
    else do
      let stop ← b.checkedStop
      if capacity < stop then return .error (.overrun index b.start stop capacity)
      else auditFrom capacity rest (index + 1) stop

/-- The first flaw of a list of blocks in an arena of `capacity` bytes. -/
def audit (blocks : List Block) (capacity : Nat) : Checked (Except Flaw Unit) :=
  auditFrom capacity blocks 0 0

end Layout
end FirstFit
