/-
# Pools

A pool is without an arena until it is initialised and again after it is torn
down; in between it places blocks in its arena. Each arena has an identity of
its own, so a handle from an earlier arena is never taken for one of the
present arena.

Key definitions: `Pool`, `Pool.initialise`, `Pool.tearDown`, `Pool.Request`,
`Pool.serve`.
-/
import FirstFit.Pool.Event
import FirstFit.Pool.Space

namespace FirstFit

/-- A pool: its space while it is live, nothing before and after. -/
structure Pool where
  space? : Option Space := none
  deriving DecidableEq

namespace Pool

/-! ### Looking -/

def isLive (p : Pool) : Bool := p.space?.isSome

def arena? (p : Pool) : Option Arena := p.space?.map Space.arena

/-- The number of bytes of the arena; zero without one. -/
def capacity (p : Pool) : Nat :=
  match p.space? with
  | some s => s.capacity
  | none => 0

/-- The blocks in use, in address order. -/
def blocks (p : Pool) : List Block :=
  match p.space? with
  | some s => s.layout.blocks
  | none => []

def stats (p : Pool) : Checked (Except Error Stats) :=
  match p.space? with
  | some s => do
    let stats ← s.stats
    return .ok stats
  | none => return .error .uninitialised

/-- The bytes of the block that a handle names. -/
def read (p : Pool) (h : Handle) : Checked (Except Error (List UInt8)) :=
  match p.space? with
  | some s => s.read h
  | none => return .error .uninitialised

def debug (p : Pool) : String :=
  match p.space? with
  | some s =>
    Text.record "Pool" [("arena", s.arena.debug), ("blocks", toString s.layout.size)]
  | none => Text.record "Pool" [("arena", "\"uninitialised\"")]

/-! ### Beginning and ending -/

/-- Reserve an arena, if its bytes are available. It takes the next identity of
the supply; an initialisation that is refused takes none. -/
def initialise (p : Pool) (supply : Supply) (c : Config) (available : Bool := true) :
    Reply Error (Pool × Supply) Event Unit :=
  match c.validate with
  | .error e => ⟨.error e, (p, supply), []⟩
  | .ok () =>
    match p.space? with
    | some _ => ⟨.error .alreadyInitialised, (p, supply), [.alreadyLive]⟩
    | none =>
      match Arena.reserve? supply.next c.capacity available with
      | none =>
        let e : Error := .arenaUnavailable c.capacity
        ⟨.error e, (p, supply), [.reservationFailed c.capacity e]⟩
      | some arena =>
        let s : Space := ⟨arena, {}, c.zeroing⟩
        ⟨.ok (), (⟨some s⟩, supply.rest), [.initialised arena.id c.capacity]⟩

/-- Put a fresh pool with an arena of `capacity` bytes in the place of this
one, unless the arena cannot be had. -/
def renew (p : Pool) (supply : Supply) (capacity : Nat) (available : Bool := true) :
    Reply Error (Pool × Supply) Event Unit :=
  let fresh := initialise {} supply ⟨capacity, true⟩ available
  match fresh.answer with
  | .ok () => fresh
  | .error _ => fresh.onState fun s => (p, s.2)

/-- Let go of all blocks and of the arena. -/
def tearDown (p : Pool) : Reply Error Pool Event Unit :=
  match p.space? with
  | some s => ⟨.ok (), {}, [.tornDown s.arena.id s.layout.size]⟩
  | none => ⟨.ok (), p, [.notLive]⟩

/-! ### Placing blocks -/

/-- Place `size` bytes at the lowest address with room. -/
def allocate (p : Pool) (size : Nat) : Checked (Reply Error Pool Event Handle) :=
  match p.space? with
  | none => return ⟨.error .uninitialised, p, []⟩
  | some s => do
    let (answer, s) ← s.allocate size
    match answer with
    | .ok h => return ⟨.ok h, ⟨some s⟩, [.allocated h.offset size]⟩
    | .error e => return ⟨.error e, ⟨some s⟩, [.allocationRejected size e]⟩

/-- Give back the block that a handle names. -/
def free (p : Pool) (h : Handle) : Checked (Reply Error Pool Event Unit) :=
  match p.space? with
  | none => return ⟨.error .uninitialised, p, []⟩
  | some s => do
    let (answer, s) ← s.free h
    match answer with
    | .ok b => return ⟨.ok (), ⟨some s⟩, [.freed b.start b.len]⟩
    | .error e => return ⟨.error e, ⟨some s⟩, [.freeRejected h e]⟩

/-- Change the length of the block that a handle names; the handle in the
answer is the one to use from now on. -/
def resize (p : Pool) (h : Handle) (size : Nat) : Checked (Reply Error Pool Event Handle) :=
  match p.space? with
  | none => return ⟨.error .uninitialised, p, []⟩
  | some s => do
    let (answer, s) ← s.resize h size
    match answer with
    | .ok (new, how) => return ⟨.ok new, ⟨some s⟩, [.resized h.offset new.offset size how]⟩
    | .error e => return ⟨.error e, ⟨some s⟩, [.resizeRejected h size e]⟩

/-- Write bytes into the block that a handle names, from its byte `offset` on. -/
def write (p : Pool) (h : Handle) (offset : Nat) (bytes : List UInt8) :
    Checked (Reply Error Pool Event Unit) :=
  match p.space? with
  | none => return ⟨.error .uninitialised, p, []⟩
  | some s => do
    let (answer, s) ← s.write h offset bytes
    return ⟨answer, ⟨some s⟩, []⟩

/-! ### Requests -/

/-- A call on a pool, as a value: a run of a pool is a list of requests. Where
an arena is asked for it may be available or not. -/
inductive Request where
  | initialise (config : Config) (available : Bool := true)
  | renew (capacity : Nat) (available : Bool := true)
  | tearDown
  | allocate (size : Nat)
  | free (handle : Handle)
  | resize (handle : Handle) (size : Nat)
  | read (handle : Handle)
  | write (handle : Handle) (offset : Nat) (bytes : List UInt8)
  deriving DecidableEq, Repr

/-- What a request that is granted gives. -/
inductive Answer where
  | done
  | handle (handle : Handle)
  | bytes (bytes : List UInt8)
  deriving DecidableEq, Repr

/-- Carry out one request. -/
def serve (p : Pool) (supply : Supply) (r : Request) :
    Checked (Reply Error (Pool × Supply) Event Answer) :=
  match r with
  | .initialise c available => return (p.initialise supply c available).map fun _ => .done
  | .renew capacity available => return (p.renew supply capacity available).map fun _ => .done
  | .tearDown => return (p.tearDown.map fun _ => .done).onState (·, supply)
  | .allocate size => do
    let reply ← p.allocate size
    return (reply.map .handle).onState (·, supply)
  | .free h => do
    let reply ← p.free h
    return (reply.map fun _ => .done).onState (·, supply)
  | .resize h size => do
    let reply ← p.resize h size
    return (reply.map .handle).onState (·, supply)
  | .read h => do
    let answer ← p.read h
    return ⟨answer.map .bytes, (p, supply), []⟩
  | .write h offset bytes => do
    let reply ← p.write h offset bytes
    return (reply.map fun _ => .done).onState (·, supply)

end Pool

end FirstFit
