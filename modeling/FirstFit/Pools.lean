/-
# Several pools

Pools that draw the identities of their arenas from one supply. The arena of a
pool that is torn down or replaced is kept, since whoever held on to it can
still read and write its bytes.

Key definitions: `Pools`, `Pools.serve`, `Pools.arena?`.
-/
import FirstFit.Pool

namespace FirstFit

/-- Pools with a common supply of identities. -/
structure Pools where
  members : List Pool
  supply : Supply := {}
  /-- Arenas that no pool has any more. -/
  retired : List Arena := []
  deriving DecidableEq

namespace Pools

open Pool (Request Answer Error Event)

/-- `n` pools without an arena. -/
def ofCount (n : Nat) : Pools := { members := List.replicate n {} }

def get (ps : Pools) (i : Nat) : Pool := ps.members.getD i {}

/-- Put a pool at a place. An arena that this takes from its pool is retired. -/
def put (ps : Pools) (i : Nat) (p : Pool) : Pools :=
  let retired := match (ps.get i).arena? with
    | some a => if p.arena?.map Arena.id = some a.id then ps.retired else a :: ps.retired
    | none => ps.retired
  { ps with members := ps.members.set i p, retired }

/-- Carry out a request on the pool at a place. -/
def serve (ps : Pools) (i : Nat) (r : Request) : Checked (Reply Error Pools Event Answer) := do
  let reply ← (ps.get i).serve ps.supply r
  return reply.onState fun s => { ps.put i s.1 with supply := s.2 }

/-- The arena with an identity, whether a pool has it or it is retired. -/
def arena? (ps : Pools) (id : ArenaId) : Option Arena :=
  (ps.members.filterMap Pool.arena? ++ ps.retired).find? fun a => a.id = id

/-- Replace the arena with the identity of `a`, wherever it is, by `a`. -/
def putArena (ps : Pools) (a : Arena) : Pools :=
  let renewed (old : Arena) : Arena := if old.id = a.id then a else old
  let inPool (p : Pool) : Pool :=
    ⟨p.space?.map fun s => { s with arena := renewed s.arena }⟩
  { ps with members := ps.members.map inPool, retired := ps.retired.map renewed }

end Pools

end FirstFit
