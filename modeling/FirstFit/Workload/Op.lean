/-
# Operations of a workload

An operation inserts, deletes or looks for a value; whether it succeeded is
all that is kept of it. Values and operations are drawn from a stream of
words.

Key definitions: `Op`, `Op.apply`, `Chain.applyAll`, `drawValues`, `drawOps`.
-/
import FirstFit.ChaCha
import FirstFit.Chain

namespace FirstFit

/-- An operation on a chain. -/
inductive Op where
  | insert (data : UInt16)
  | delete (data : UInt16)
  | search (data : UInt16)
  deriving DecidableEq, Repr

namespace Op

/-- Carry out the operation. -/
def apply (op : Op) (c : Chain) : Checked (Reply Chain.Error Chain Chain.Event Unit) :=
  match op with
  | insert data => return (← c.insert data).map fun _ => ()
  | delete data => c.delete data
  | search data => return (← c.search data).map fun _ => ()

end Op

/-- Carry out operations one after another and collect their answers. -/
def Chain.applyAll (c : Chain) :
    List Op → Checked (List (Except Chain.Error Unit) × Chain × List Chain.Event)
  | [] => return ([], c, [])
  | op :: rest => do
    let reply ← op.apply c
    let (answers, c, log) ← applyAll reply.state rest
    return (reply.answer :: answers, c, reply.log ++ log)

/-! ### Drawing -/

/-- A value below `distinct` that a word gives; zero if there is no such value. -/
def drawValue (distinct : UInt16) (w : UInt32) : UInt16 :=
  (w % max distinct.toUInt32 1).toUInt16

/-- An operation that two words give: the first its value, the second its
kind. Half of the operations insert, a quarter delete and a quarter search. -/
def drawOp (distinct : UInt16) (w kind : UInt32) : Op :=
  let v := drawValue distinct w
  if kind % 4 < 2 then .insert v
  else if kind % 4 = 2 then .delete v
  else .search v

/-- `len` values, each from a word of the stream. -/
def drawValues (words : WordStream) (len : Nat) (distinct : UInt16) : List UInt16 :=
  (List.range len).map fun i => drawValue distinct (words i)

/-- `len` operations, each from two words of the stream. -/
def drawOps (words : WordStream) (len : Nat) (distinct : UInt16) : List Op :=
  (List.range len).map fun i => drawOp distinct (words (2 * i)) (words (2 * i + 1))

end FirstFit
