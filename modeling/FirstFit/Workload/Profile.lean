/-
# Profiles and tallies

Key definitions: `Profile`, `Profile.prefilled`, `Tally`.
-/
import FirstFit.Chain.Build
import FirstFit.Workload.Op

namespace FirstFit

/-- The shape of a workload. -/
structure Profile where
  /-- The number of bytes of the arena. -/
  capacity : Nat
  /-- The number of values in the chain at the start. -/
  prefill : Nat
  workers : Nat
  opsPerWorker : Nat
  /-- Values are below this. -/
  distinct : UInt16
  deriving DecidableEq, Repr

namespace Profile

/-- Four workers on an arena of 4096 nodes. -/
def reference : Profile := ⟨Node.size * 4096, 256, 4, 512, 64⟩

/-- Sixteen workers on an arena of 16384 nodes. -/
def stress : Profile := ⟨Node.size * 16 * 1024, 4096, 16, 2048, 1024⟩

/-- A chain with the values that a workload starts from. -/
def prefilled (p : Profile) (supply : Supply) (words : WordStream) (available : Bool := true) :
    Checked (Reply Chain.Error Supply Chain.Event Chain) :=
  Chain.ofValues supply (drawValues words p.prefill p.distinct) p.capacity available

end Profile

/-- How many operations had which outcome. -/
structure Tally where
  /-- Inserts that added a node. -/
  inserted : Nat := 0
  /-- Deletes that removed a node. -/
  deleted : Nat := 0
  /-- Searches that found a node. -/
  found : Nat := 0
  /-- Deletes and searches that found nothing. -/
  missed : Nat := 0
  /-- Inserts for which there was no storage. -/
  rejected : Nat := 0
  deriving DecidableEq, Repr

namespace Tally

/-- Count one operation. -/
def record {ε : Type} (t : Tally) (op : Op) (answer : Except ε Unit) : Tally :=
  match op, answer with
  | .insert _, .ok _ => { t with inserted := t.inserted + 1 }
  | .insert _, .error _ => { t with rejected := t.rejected + 1 }
  | .delete _, .ok _ => { t with deleted := t.deleted + 1 }
  | .search _, .ok _ => { t with found := t.found + 1 }
  | .delete _, .error _ => { t with missed := t.missed + 1 }
  | .search _, .error _ => { t with missed := t.missed + 1 }

/-- The counts of two tallies together. -/
def merge (t u : Tally) : Tally :=
  ⟨t.inserted + u.inserted, t.deleted + u.deleted, t.found + u.found, t.missed + u.missed,
    t.rejected + u.rejected⟩

/-- The number of operations counted. -/
def total (t : Tally) : Nat := t.inserted + t.deleted + t.found + t.missed + t.rejected

/-- `after` nodes are what the operations make of `before` nodes. -/
def balances (t : Tally) (before after : Nat) : Bool :=
  after + t.deleted == before + t.inserted

end Tally

end FirstFit
