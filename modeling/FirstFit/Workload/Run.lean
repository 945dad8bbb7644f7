/-
# Running a workload

Operations wait in batches in one queue. A worker that has nothing to do takes
the batch at the front and then carries out its operations in order; between
any two operations the turn may go to another worker. A schedule says whose
turn it is, and every schedule is admitted.

Key definitions: `Run`, `Run.step`, `Run.play`, `runWorkload`.
-/
import FirstFit.Workload.Profile

namespace FirstFit

/-- A worker: what is left of its batch, and what it has counted. -/
structure Worker where
  pending : List Op := []
  tally : Tally := {}
  deriving DecidableEq, Repr

/-- A chain, the batches that wait, and the workers on them. -/
structure Run where
  chain : Chain
  batches : List (List Op)
  workers : List Worker

namespace Run

/-- The number of operations in a batch that is full. -/
def batchSize : Nat := 64

/-- Operations cut into batches; only the last may be short. -/
def cut : List Op → List (List Op)
  | [] => []
  | op :: rest => (op :: rest.take (batchSize - 1)) :: cut (rest.drop (batchSize - 1))
termination_by ops => ops.length
decreasing_by simp only [List.length_drop, List.length_cons]; omega

/-- Cutting loses no operation and keeps their order. -/
theorem flatten_cut (ops : List Op) : (cut ops).flatten = ops := by
  fun_induction cut ops with
  | case1 => rfl
  | case2 op rest ih =>
    rw [List.flatten_cons, ih, List.cons_append, List.take_append_drop]

/-- The number of turns until nothing is left: one for each batch that waits
and one for each operation. -/
def turns (r : Run) : Nat :=
  r.batches.length + r.batches.flatten.length + (r.workers.flatMap Worker.pending).length

/-- A worker whose turn it can be. -/
def canAct (r : Run) (w : Worker) : Bool := !w.pending.isEmpty || !r.batches.isEmpty

/-- The positions of the workers whose turn it can be. -/
def active (r : Run) : List Nat :=
  (List.range r.workers.length).filter fun i => (r.workers[i]?.map r.canAct).getD false

/-- The turn of the worker at position `i`: it carries out its next operation,
or takes a batch. -/
def step (r : Run) (i : Nat) : Checked Run :=
  match r.workers[i]? with
  | none => return r
  | some w =>
    match w.pending with
    | op :: pending => do
      let reply ← op.apply r.chain
      let w : Worker := ⟨pending, w.tally.record op reply.answer⟩
      return { r with chain := reply.state, workers := r.workers.set i w }
    | [] =>
      match r.batches with
      | batch :: batches =>
        return { r with batches, workers := r.workers.set i { w with pending := batch } }
      | [] => return r

/-- Give turns as `pick` says, which chooses among the active workers by how
many turns are left, until none is active or all turns are taken. -/
def play (pick : Nat → Nat) : (turns : Nat) → Run → Checked Run
  | 0, r => return r
  | turns + 1, r =>
    match r.active with
    | [] => return r
    | first :: rest => do
      let r ← r.step ((first :: rest).getD (pick turns % (rest.length + 1)) first)
      play pick turns r

/-- What all workers have counted. -/
def tally (r : Run) : Tally := (r.workers.map Worker.tally).foldl Tally.merge {}

end Run

namespace Profile

/-- The operations meant for worker `w`. -/
def opsOf (p : Profile) (words : UInt64 → WordStream) (seed : UInt64) (w : Nat) : List Op :=
  drawOps (words (seed ^^^ (UInt64.ofNat w <<< 32))) p.opsPerWorker p.distinct

/-- The queue of a workload: the batches of all workers' operations. -/
def queue (p : Profile) (words : UInt64 → WordStream) (seed : UInt64) : List (List Op) :=
  (List.range p.workers).flatMap fun w => Run.cut (p.opsOf words seed w)

end Profile

/-- Run a workload on a chain under a schedule. -/
def runWorkload (c : Chain) (p : Profile) (words : UInt64 → WordStream) (seed : UInt64)
    (pick : Nat → Nat) : Checked (Tally × Chain) := do
  let start : Run := ⟨c, p.queue words seed, List.replicate p.workers {}⟩
  let finish ← Run.play pick start.turns start
  return (finish.tally, finish.chain)

end FirstFit
