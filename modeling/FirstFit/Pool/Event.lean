/-
# What a pool logs

Key definitions: `Pool.Event`, `Pool.Event.entry`.
-/
import FirstFit.Pool.Basic
import FirstFit.Reply

namespace FirstFit
namespace Pool

/-- One thing that a pool logs. -/
inductive Event where
  | initialised (arena : ArenaId) (capacity : Nat)
  | alreadyLive
  | reservationFailed (capacity : Nat) (error : Error)
  | allocated (offset size : Nat)
  | allocationRejected (size : Nat) (error : Error)
  | freed (offset size : Nat)
  | freeRejected (handle : Handle) (error : Error)
  | resized (source target newSize : Nat) (how : Growth)
  | resizeRejected (handle : Handle) (newSize : Nat) (error : Error)
  | tornDown (arena : ArenaId) (liveBlocks : Nat)
  | notLive
  deriving DecidableEq, Repr

/-- The event as a log entry. -/
def Event.entry : Event → LogEntry
  | initialised arena capacity =>
    ⟨.info, "pool initialised", [("arena", arena.text), ("capacity", toString capacity)]⟩
  | alreadyLive => ⟨.warn, "init called on a live pool", []⟩
  | reservationFailed capacity error =>
    ⟨.warn, "arena reservation failed",
      [("capacity", toString capacity), ("error", error.message)]⟩
  | allocated offset size =>
    ⟨.debug, "allocated block", [("offset", toString offset), ("size", toString size)]⟩
  | allocationRejected size error =>
    ⟨.warn, "allocation rejected", [("size", toString size), ("error", error.message)]⟩
  | freed offset size =>
    ⟨.debug, "freed block", [("offset", toString offset), ("size", toString size)]⟩
  | freeRejected handle error =>
    ⟨.warn, "free rejected", [("handle", handle.text), ("error", error.message)]⟩
  | resized source target newSize how =>
    ⟨.debug, "resized block",
      [("from", toString source), ("to", toString target), ("new_size", toString newSize),
        ("how", how.debug)]⟩
  | resizeRejected handle newSize error =>
    ⟨.warn, "resize rejected",
      [("handle", handle.text), ("new_size", toString newSize), ("error", error.message)]⟩
  | tornDown arena liveBlocks =>
    ⟨.info, "pool torn down", [("arena", arena.text), ("live_blocks", toString liveBlocks)]⟩
  | notLive => ⟨.debug, "deinit on an uninitialised pool", []⟩

end Pool
end FirstFit
