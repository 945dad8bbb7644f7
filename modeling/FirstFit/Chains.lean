/-
# Several chains

Places for chains that draw the identities of their arenas from one supply.

Key definitions: `Chains`, `Chains.initialise`, `Chains.build`, `Chains.serve`.
-/
import FirstFit.Chain.Build
import FirstFit.Chain.Request

namespace FirstFit

/-- Places for chains, some of them empty, with a common supply of identities. -/
structure Chains where
  places : List (Option Chain)
  supply : Supply := {}
  deriving DecidableEq

namespace Chains

open Chain (Request Answer Error Event)

/-- `n` empty places. -/
def ofCount (n : Nat) : Chains := { places := List.replicate n none }

def get? (cs : Chains) (i : Nat) : Option Chain := (cs.places[i]?).join

/-- The chains that there are, in the order of their places. -/
def present (cs : Chains) : List Chain := cs.places.filterMap id

def put (cs : Chains) (i : Nat) (c : Chain) : Chains :=
  { cs with places := cs.places.set i (some c) }

/-- Put a new chain at a place, if there is one. -/
def settle (cs : Chains) (i : Nat) (r : Reply Error Supply Event Chain) :
    Reply Error Chains Event Unit :=
  let cs := { cs with supply := r.state }
  match r.answer with
  | .ok c => ⟨.ok (), cs.put i c, r.log⟩
  | .error e => ⟨.error e, cs, r.log⟩

/-- Put an empty chain at a place. -/
def initialise (cs : Chains) (i : Nat) (c : Pool.Config) (available : Bool := true) :
    Reply Error Chains Event Unit :=
  cs.settle i (Chain.initialise cs.supply c available)

/-- Put a chain of values at a place. -/
def build (cs : Chains) (i : Nat) (values : List UInt16) (capacity : Nat)
    (available : Bool := true) : Checked (Reply Error Chains Event Unit) :=
  return cs.settle i (← Chain.ofValues cs.supply values capacity available)

/-- Carry out a request on the chain `c` of a place. -/
def serve (cs : Chains) (i : Nat) (c : Chain) (r : Request) :
    Checked (Reply Error Chains Event Answer) :=
  return (← c.serve r).onState (cs.put i)

end Chains

end FirstFit
