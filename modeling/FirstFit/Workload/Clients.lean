/-
# Clients that share a pool or a chain

Each client works by itself: it marks the blocks it gets and later finds its
marks untouched, or it appends until it is refused. The order in which clients
have their turn is one after another.

Key definitions: `Pool.markBlocks`, `Pool.shareOut`, `Chain.appendAll`,
`Chain.serveClients`.
-/
import FirstFit.Workload.Op

namespace FirstFit

namespace Pool

/-- Try `tries` times to get a block of `size` bytes, and fill what is granted
with a mark. -/
def claim (p : Pool) (size : Nat) (mark : UInt8) : (tries : Nat) → Checked (List Handle × Pool)
  | 0 => return ([], p)
  | tries + 1 => do
    let reply ← p.allocate size
    match reply.answer with
    | .error _ => reply.state.claim size mark tries
    | .ok h =>
      let written ← reply.state.write h 0 (List.replicate size mark)
      let (handles, p) ← written.state.claim size mark tries
      return (h :: handles, p)

/-- Every block is full of the mark. -/
def allMarked (p : Pool) (size : Nat) (mark : UInt8) : List Handle → Checked Bool
  | [] => return true
  | h :: rest => do
    let others ← p.allMarked size mark rest
    match ← p.read h with
    | .ok bytes => return bytes == List.replicate size mark && others
    | .error _ => return false

/-- Give back blocks. -/
def freeAll (p : Pool) : List Handle → Checked Pool
  | [] => return p
  | h :: rest => do
    let reply ← p.free h
    reply.state.freeAll rest

/-- One client: get blocks, mark them, look at the marks, and give the blocks
back unless they are to be kept. -/
def markBlocks (p : Pool) (size tries : Nat) (keep : Bool) (mark : UInt8) :
    Checked (Bool × Pool) := do
  let (handles, p) ← p.claim size mark tries
  let intact ← p.allMarked size mark handles
  if keep then return (intact, p)
  else return (intact, ← p.freeAll handles)

/-- Several clients with marks of their own, the first of them `mark`. -/
def shareOut (p : Pool) (size tries : Nat) (keep : Bool) (mark : UInt8) :
    (clients : Nat) → Checked (List Bool × Pool)
  | 0 => return ([], p)
  | clients + 1 => do
    let (intact, p) ← p.markBlocks size tries keep mark
    let (others, p) ← p.shareOut size tries keep (mark + 1) clients
    return (intact :: others, p)

end Pool

namespace Chain

/-- Several clients, each with operations of its own. -/
def serveClients (c : Chain) :
    List (List Op) → Checked (List (List (Except Error Unit)) × Chain)
  | [] => return ([], c)
  | ops :: rest => do
    let (answers, c, _) ← c.applyAll ops
    let (others, c) ← c.serveClients rest
    return (answers :: others, c)

/-- Append a value again and again until that is refused, `tries` times at
most. -/
def appendAll (c : Chain) (data : UInt16) : (tries : Nat) → Checked (Option Error × Chain)
  | 0 => return (none, c)
  | tries + 1 => do
    let reply ← c.insert data
    match reply.answer with
    | .error e => return (some e, reply.state)
    | .ok _ => reply.state.appendAll data tries

/-- Several clients that append until they are refused. -/
def appendClients (c : Chain) : (clients : Nat) → Checked (List (Option Error) × Chain)
  | 0 => return ([], c)
  | clients + 1 => do
    let (refusal, c) ← c.appendAll 0 (c.table.slots + 1)
    let (others, c) ← c.appendClients clients
    return (refusal :: others, c)

end Chain

end FirstFit
