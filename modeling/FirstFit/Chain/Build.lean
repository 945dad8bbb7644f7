/-
# Building a chain from values

Key definition: `Chain.ofValues`.
-/
import FirstFit.Chain

namespace FirstFit
namespace Chain

/-- Put values at the end, one after another; the first refusal ends it. -/
def insertAll (c : Chain) : List UInt16 → Checked (Reply Error Chain Event Unit)
  | [] => return ⟨.ok (), c, []⟩
  | v :: rest => do
    let reply ← c.insert v
    match reply.answer with
    | .error e => return ⟨.error e, reply.state, reply.log⟩
    | .ok _ =>
      let others ← insertAll reply.state rest
      return { others with log := reply.log ++ others.log }

/-- A chain over an arena of `capacity` bytes that holds `values` in order. -/
def ofValues (supply : Supply) (values : List UInt16) (capacity : Nat)
    (available : Bool := true) : Checked (Reply Error Supply Event Chain) := do
  let reply := initialise supply ⟨capacity, true⟩ available
  match reply.answer with
  | .error e => return ⟨.error e, reply.state, reply.log⟩
  | .ok c =>
    let filled ← c.insertAll values
    let log := reply.log ++ filled.log
    return ⟨filled.answer.map fun _ => filled.state, reply.state, log⟩

end Chain
end FirstFit
