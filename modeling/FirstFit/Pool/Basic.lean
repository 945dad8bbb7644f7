/-
# Configurations, handles and statistics of a pool

Key definitions: `Pool.Config`, `Pool.Handle`, `Pool.Stats`.
-/
import FirstFit.Arena
import FirstFit.Pool.Error

namespace FirstFit
namespace Pool

/-- What a pool is built from. -/
structure Config where
  /-- The number of bytes of the arena. -/
  capacity : Nat
  /-- Blocks, and what they grow by, are zeroed before they are handed out. -/
  zeroing : Bool := true
  deriving DecidableEq, Repr

namespace Config

def validate (c : Config) : Except Error Unit :=
  if c.capacity = 0 then .error (.invalidCapacity c.capacity) else .ok ()

def debug (c : Config) : String :=
  Text.record "PoolConfig"
    [("capacity", toString c.capacity), ("zero_on_alloc", toString c.zeroing)]

end Config

/-- The name of a block: its arena, its first byte, and the length it had when
the handle was issued. Anyone can make one up. -/
structure Handle where
  arena : ArenaId
  offset : Nat
  len : Nat
  deriving DecidableEq, Repr

namespace Handle

def isEmpty (h : Handle) : Bool := h.len == 0

def text (h : Handle) : String := s!"BlockHandle({h.arena.text}, off={h.offset}, len={h.len})"

def debug (h : Handle) : String :=
  Text.record "BlockHandle"
    [("arena", h.arena.debug), ("offset", toString h.offset), ("len", toString h.len)]

end Handle

/-- How full an arena is. -/
structure Stats where
  capacity : Nat
  /-- Bytes covered by a block. -/
  used : Nat
  /-- Bytes covered by no block. -/
  free : Nat
  liveBlocks : Nat
  largestGap : Nat
  deriving DecidableEq, Repr

namespace Stats

def text (s : Stats) : String :=
  s!"{s.liveBlocks} blocks, {s.used}/{s.capacity} bytes used, largest gap {s.largestGap} bytes"

def debug (s : Stats) : String :=
  Text.record "PoolStats"
    [("capacity", toString s.capacity), ("used", toString s.used), ("free", toString s.free),
      ("live_blocks", toString s.liveBlocks), ("largest_gap", toString s.largestGap)]

end Stats

/-- How a resized block got its new length. -/
inductive Growth where
  /-- The new length is no longer than the old one. -/
  | shrunk
  /-- The gap behind the block took the growth. -/
  | inPlace
  /-- The block went to a gap that was free before. -/
  | moved
  /-- The block went to a gap that its own bytes belong to. -/
  | relocated
  deriving DecidableEq, Repr

def Growth.debug : Growth → String
  | .shrunk => "Shrunk"
  | .inPlace => "GrownInPlace"
  | .moved => "Moved"
  | .relocated => "Relocated"

end Pool
end FirstFit
