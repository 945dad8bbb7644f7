/-
# Workloads under every schedule

Each turn of a worker takes a batch from the queue or carries out one
operation, so what was done and what is left are together the same operations
all the time, in whatever order and by whichever worker. What was done is what
the workers have counted, and the nodes of the chain are what these counts make
of those at the start. A turn is one turn less, so a run comes to an end, and
then nothing is left.

Key definitions: `Run.left`, `Run.Turn`, `Run.Books`, `Profile.launch`,
`Profile.ops`, `Accounts`.
Key theorems: `step_cases`, `Turn.books`, `Books.play`, `accounts_of_workload`.
-/
import Mathlib.Logic.Relation
import FirstFit.Proofs.Chain.Refusal
import FirstFit.Proofs.Workload.Tally

namespace FirstFit
namespace Run

open Chain (Sequence)

variable {r r' : Run} {i : Nat} {pre post : List Worker} {op : Op} {pending : List Op}
  {c c' chain chain' : Chain} {batch : List Op} {batches : List (List Op)} {t t' : Tally}

/-! ### What is left and what was counted -/

/-- The operations that nobody has carried out yet. -/
def left (r : Run) : List Op := r.batches.flatten ++ r.workers.flatMap Worker.pending

theorem turns_eq (r : Run) : r.turns = r.batches.length + r.left.length := by
  rw [turns, left, List.length_append, Nat.add_assoc]

/-- An operation that is carried out is no longer left. -/
theorem left_op : (left ⟨chain, batches, pre ++ ⟨op :: pending, t⟩ :: post⟩).Perm
    (op :: left ⟨chain', batches, pre ++ ⟨pending, t'⟩ :: post⟩) := by
  simp only [left, List.flatMap_append, List.flatMap_cons, List.cons_append]
  rw [← List.append_assoc, ← List.append_assoc]
  exact List.perm_middle

/-- A batch that is taken is still left. -/
theorem left_batch : (left ⟨chain, batch :: batches, pre ++ ⟨[], t⟩ :: post⟩).Perm
    (left ⟨chain, batches, pre ++ ⟨batch, t⟩ :: post⟩) := by
  have hswap : (batch ++ (batches.flatten ++ pre.flatMap Worker.pending)).Perm
      (batches.flatten ++ pre.flatMap Worker.pending ++ batch) := List.perm_append_comm
  simp only [left, List.flatMap_append, List.flatMap_cons, List.flatten_cons, List.nil_append]
  simpa only [List.append_assoc] using hswap.append_right (post.flatMap Worker.pending)

/-- What some of the workers have counted. -/
def tallyOf (workers : List Worker) : Tally := (workers.map Worker.tally).foldl Tally.merge {}

theorem tallyOf_cons (w : Worker) (ws : List Worker) :
    tallyOf (w :: ws) = w.tally.merge (tallyOf ws) := by
  have hassoc : (ws.map Worker.tally).foldl Tally.merge (w.tally.merge {}) =
      w.tally.merge (tallyOf ws) := List.foldl_assoc
  rw [tallyOf, List.map_cons, List.foldl_cons, Tally.empty_merge, ← hassoc, Tally.merge_empty]

theorem tallyOf_append (ws : List Worker) : ∀ pre : List Worker,
    tallyOf (pre ++ ws) = (tallyOf pre).merge (tallyOf ws)
  | [] => (Tally.empty_merge _).symm
  | w :: pre => by
    rw [List.cons_append, tallyOf_cons, tallyOf_cons, tallyOf_append ws pre, Tally.merge_assoc]

/-- Whichever worker counts an operation, all of them together have counted it. -/
theorem tallyOf_record {ε : Type} (answer : Except ε Unit) :
    tallyOf (pre ++ ⟨pending, t.record op answer⟩ :: post) =
      (tallyOf (pre ++ ⟨op :: pending, t⟩ :: post)).record op answer := by
  simp only [tallyOf_append, tallyOf_cons, Tally.merge_record]

theorem tallyOf_batch :
    tallyOf (pre ++ ⟨batch, t⟩ :: post) = tallyOf (pre ++ ⟨[], t⟩ :: post) := by
  simp only [tallyOf_append, tallyOf_cons]

/-! ### One turn -/

theorem split_of_getElem? {α : Type} {l : List α} {i : Nat} {a : α} (h : l[i]? = some a) :
    ∃ pre post, l = pre ++ a :: post ∧ ∀ b, l.set i b = pre ++ b :: post := by
  obtain ⟨hi, rfl⟩ := List.getElem?_eq_some_iff.1 h
  refine ⟨l.take i, l.drop (i + 1), ?_, fun b => ?_⟩
  · rw [← List.drop_eq_getElem_cons, List.take_append_drop]
  · rw [List.set_eq_take_append_cons_drop, if_pos hi]

theorem mem_active : i ∈ r.active ↔ ∃ w, r.workers[i]? = some w ∧ r.canAct w = true := by
  unfold active
  rw [List.mem_filter, List.mem_range]
  constructor
  · rintro ⟨hi, hact⟩
    rw [List.getElem?_eq_getElem hi] at hact ⊢
    exact ⟨_, rfl, hact⟩
  · rintro ⟨w, hw, hact⟩
    refine ⟨(List.getElem?_eq_some_iff.1 hw).1, ?_⟩
    rw [hw]
    exact hact

/-- What the turn of an active worker is. -/
theorem step_cases (hi : i ∈ r.active) :
    (∃ chain batches pre op pending t post,
      r = ⟨chain, batches, pre ++ ⟨op :: pending, t⟩ :: post⟩ ∧
      r.step i = (do
        let reply ← op.apply chain
        return ⟨reply.state, batches, pre ++ ⟨pending, t.record op reply.answer⟩ :: post⟩)) ∨
    (∃ chain batch batches pre t post,
      r = ⟨chain, batch :: batches, pre ++ ⟨[], t⟩ :: post⟩ ∧
      r.step i = .ok ⟨chain, batches, pre ++ ⟨batch, t⟩ :: post⟩) := by
  obtain ⟨⟨pending, t⟩, hw, hact⟩ := mem_active.1 hi
  obtain ⟨pre, post, hsplit, hset⟩ := split_of_getElem? hw
  obtain ⟨chain, batches, workers⟩ := r
  simp only at hw hset hsplit
  cases pending with
  | cons op pending =>
    refine .inl ⟨chain, batches, pre, op, pending, t, post, by rw [hsplit], ?_⟩
    simp only [step, hw, hset]
  | nil =>
    cases batches with
    | nil => exact nomatch hact
    | cons batch batches =>
      refine .inr ⟨chain, batch, batches, pre, t, post, by rw [hsplit], ?_⟩
      simp only [step, hw, hset]
      rfl

/-- The turn of some worker whose turn it can be. -/
def Turn (r r' : Run) : Prop := ∃ i ∈ r.active, r.step i = .ok r'

/-- Every turn is one turn less. -/
theorem Turn.turns (h : r.Turn r') : r.turns = r'.turns + 1 := by
  obtain ⟨i, hi, hstep⟩ := h
  rw [turns_eq, turns_eq]
  rcases step_cases hi with ⟨chain, batches, pre, op, pending, t, post, rfl, heq⟩ |
    ⟨chain, batch, batches, pre, t, post, rfl, heq⟩
  · obtain ⟨reply, -, hr⟩ := Checked.bind_eq_ok.1 (heq.symm.trans hstep)
    obtain rfl := Except.ok.inj hr
    rw [left_op.length_eq, List.length_cons]
    rfl
  · obtain rfl := Except.ok.inj (heq.symm.trans hstep)
    rw [left_batch.length_eq]
    exact Nat.add_right_comm _ _ _

/-- When nobody can have a turn nothing is left. -/
theorem left_eq_nil (h : r.active = []) (hstaffed : r.workers = [] → r.batches = []) :
    r.left = [] := by
  have hidle : ∀ w ∈ r.workers, r.canAct w = false := by
    intro w hw
    obtain ⟨i, hi⟩ := List.getElem?_of_mem hw
    refine Bool.eq_false_iff.2 fun hact => ?_
    have hm : i ∈ r.active := mem_active.2 ⟨w, hi, hact⟩
    rw [h] at hm
    exact nomatch hm
  have hbatches : r.batches = [] := by
    cases hworkers : r.workers with
    | nil => exact hstaffed hworkers
    | cons w ws =>
      have hw := hidle w (hworkers ▸ List.mem_cons_self)
      simp only [canAct, Bool.or_eq_false_iff, Bool.not_eq_false', List.isEmpty_iff] at hw
      exact hw.2
  have hpending : r.workers.flatMap Worker.pending = [] := by
    refine List.flatMap_eq_nil_iff.2 fun w hw => ?_
    have hw := hidle w hw
    simp only [canAct, Bool.or_eq_false_iff, Bool.not_eq_false', List.isEmpty_iff] at hw
    exact hw.1
  rw [left, hbatches, hpending]
  rfl

/-! ### What every turn keeps -/

/-- The books of a workload of `ops` on the chain `c` that held `s₀`: what was
done is what was counted, and the chain holds `s` on account of it. -/
structure Books (c : Chain) (s₀ : Sequence) (ops : List Op) (r : Run) (done : List Op)
    (s : Sequence) : Prop where
  holds : r.chain.Holds s
  capacity : r.chain.table.arena.capacity = c.table.arena.capacity
  live : r.chain.table.isLive = c.table.isLive
  shares : (done ++ r.left).Perm ops
  counts : r.tally.Counts done
  balance : s.length + r.tally.deleted = s₀.length + r.tally.inserted
  room : c.table.isLive = true → s₀.length + ops.countP Op.isInsert ≤ c.table.slots →
    r.tally.rejected = 0
  staffed : r.workers = [] → r.batches = []

variable {s₀ s : Sequence} {ops done : List Op}

/-- While an insert is left there is room for it, if there was room for all at the start. -/
theorem Books.lt_slots (hb : Books c s₀ ops r done s) {rest : List Op}
    (hleft : r.left.Perm (op :: rest)) (hop : op.isInsert = true)
    (hroom : s₀.length + ops.countP Op.isInsert ≤ c.table.slots) :
    s.length < r.chain.table.slots := by
  have hslots : r.chain.table.slots = c.table.slots := congrArg (· / Node.size) hb.capacity
  have hall : done.countP Op.isInsert + r.left.countP Op.isInsert = ops.countP Op.isInsert := by
    rw [← List.countP_append]
    exact hb.shares.countP_eq _
  have hrest : r.left.countP Op.isInsert = rest.countP Op.isInsert + 1 := by
    rw [hleft.countP_eq, List.countP_cons_of_pos hop]
  have hcounts := hb.counts.inserts
  have hbalance := hb.balance
  omega

/-- An operation that is carried out is entered once. -/
theorem Books.carryOut
    (hb : Books c s₀ ops ⟨chain, batches, pre ++ ⟨op :: pending, t⟩ :: post⟩ done s)
    {reply : Reply Chain.Error Chain Chain.Event Unit} {s' : Sequence}
    (he : op.Effect chain s reply s') :
    Books c s₀ ops ⟨reply.state, batches, pre ++ ⟨pending, t.record op reply.answer⟩ :: post⟩
      (op :: done) s' := by
  have htally : tally ⟨reply.state, batches, pre ++ ⟨pending, t.record op reply.answer⟩ :: post⟩ =
      (tally ⟨chain, batches, pre ++ ⟨op :: pending, t⟩ :: post⟩).record op reply.answer :=
    tallyOf_record reply.answer
  have hleft : (left ⟨chain, batches, pre ++ ⟨op :: pending, t⟩ :: post⟩).Perm
      (op :: left ⟨reply.state, batches, pre ++ ⟨pending, t.record op reply.answer⟩ :: post⟩) :=
    left_op
  refine ⟨he.holds, he.capacity.trans hb.capacity, he.live.trans hb.live, ?_, ?_, ?_, ?_, ?_⟩
  · calc
      ((op :: done) ++ left _).Perm (done ++ op :: left _) := List.perm_middle.symm
      List.Perm _ (done ++ left _) := hleft.symm.append_left done
      List.Perm _ ops := hb.shares
  · rw [htally]
    exact hb.counts.record op reply.answer
  · have hbalance := hb.balance
    have hone := he.balance
    rw [htally, Tally.record_eq_merge]
    simp only [Tally.merge]
    omega
  · intro hl hroom
    rw [htally, Tally.record_eq_merge]
    simp only [Tally.merge, hb.room hl hroom, Nat.zero_add]
    by_cases hop : op.isInsert = true
    · exact he.room (hb.live.trans hl) (hb.lt_slots hleft hop hroom)
    · cases op with
      | insert v => exact absurd rfl hop
      | delete v => cases reply.answer <;> rfl
      | search v => cases reply.answer <;> rfl
  · exact fun h => absurd h (by simp)

theorem Books.takeBatch
    (hb : Books c s₀ ops ⟨chain, batch :: batches, pre ++ ⟨[], t⟩ :: post⟩ done s) :
    Books c s₀ ops ⟨chain, batches, pre ++ ⟨batch, t⟩ :: post⟩ done s := by
  have htally : tally ⟨chain, batches, pre ++ ⟨batch, t⟩ :: post⟩ =
      tally ⟨chain, batch :: batches, pre ++ ⟨[], t⟩ :: post⟩ := tallyOf_batch
  refine ⟨hb.holds, hb.capacity, hb.live, ?_, ?_, ?_, ?_, ?_⟩
  · exact (left_batch.symm.append_left done).trans hb.shares
  · exact htally ▸ hb.counts
  · exact htally ▸ hb.balance
  · exact htally ▸ hb.room
  · exact fun h => absurd h (by simp)

/-- An active worker can take its turn, and the books are kept. -/
theorem Books.step (hb : Books c s₀ ops r done s) (hi : i ∈ r.active) :
    ∃ r' done' s', r.step i = .ok r' ∧ Books c s₀ ops r' done' s' := by
  rcases step_cases hi with ⟨chain, batches, pre, op, pending, t, post, rfl, heq⟩ |
    ⟨chain, batch, batches, pre, t, post, rfl, heq⟩
  · obtain ⟨reply, s', happly, he⟩ := Op.effect hb.holds op
    exact ⟨_, _, _, by rw [heq, happly]; rfl, hb.carryOut he⟩
  · exact ⟨_, _, _, heq, hb.takeBatch⟩

theorem Turn.books (h : r.Turn r') (hb : Books c s₀ ops r done s) :
    ∃ done' s', Books c s₀ ops r' done' s' := by
  obtain ⟨i, hi, hstep⟩ := h
  obtain ⟨r₁, done', s', hstep', hb'⟩ := hb.step hi
  obtain rfl := Except.ok.inj (hstep.symm.trans hstep')
  exact ⟨done', s', hb'⟩

/-! ### Whole runs -/

/-- The books are kept in whatever order the workers have their turns. -/
theorem Books.turns (hb : Books c s₀ ops r done s) (h : Relation.ReflTransGen Turn r r') :
    ∃ done' s', Books c s₀ ops r' done' s' := by
  induction h with
  | refl => exact ⟨done, s, hb⟩
  | tail _ hturn ih =>
    obtain ⟨done', s', hb'⟩ := ih
    exact hturn.books hb'

/-- Under a schedule the workers have their turns until nothing is left: the
induction is on the number of turns, which every turn lowers by one. -/
theorem Books.play (pick : Nat → Nat) : ∀ {turns : Nat} {r : Run} {done : List Op} {s : Sequence},
    Books c s₀ ops r done s → r.turns = turns →
    ∃ r' done' s', Run.play pick turns r = .ok r' ∧ Relation.ReflTransGen Turn r r' ∧
      Books c s₀ ops r' done' s' ∧ r'.left = []
  | 0, r, done, s, hb, hturns => by
    rw [turns_eq] at hturns
    have hleft : r.left.length = 0 := (Nat.eq_zero_of_add_eq_zero hturns).2
    exact ⟨r, done, s, rfl, .refl, hb, List.length_eq_zero_iff.1 hleft⟩
  | turns + 1, r, done, s, hb, hturns => by
    cases hactive : r.active with
    | nil =>
      exact ⟨r, done, s, by rw [Run.play, hactive]; rfl, .refl, hb,
        left_eq_nil hactive hb.staffed⟩
    | cons first rest =>
      have hpick : pick turns % (rest.length + 1) < (first :: rest).length :=
        Nat.mod_lt _ (Nat.succ_pos _)
      have hi : (first :: rest).getD (pick turns % (rest.length + 1)) first ∈ r.active := by
        rw [hactive, ← List.getElem_eq_getD (h := hpick) first]
        exact List.getElem_mem hpick
      obtain ⟨r₁, done₁, s₁, hstep, hb₁⟩ := hb.step hi
      have hturn : r.Turn r₁ := ⟨_, hi, hstep⟩
      obtain ⟨r', done', s', hplay, hreach, hb', hleft⟩ :=
        hb₁.play pick (Nat.succ.inj (hturn.turns.symm.trans hturns))
      refine ⟨r', done', s', ?_, .head hturn hreach, hb', hleft⟩
      rw [Run.play, hactive]
      simp only [hstep, Checked.ok_bind, hplay]

end Run

/-! ### Workloads -/

namespace Profile

/-- All operations of a workload. -/
def ops (p : Profile) (words : UInt64 → WordStream) (seed : UInt64) : List Op :=
  (List.range p.workers).flatMap (p.opsOf words seed)

/-- A workload that nobody has begun. -/
def launch (p : Profile) (words : UInt64 → WordStream) (seed : UInt64) (c : Chain) : Run :=
  ⟨c, p.queue words seed, List.replicate p.workers {}⟩

variable {p : Profile} {words : UInt64 → WordStream} {seed : UInt64}

theorem length_ops : (p.ops words seed).length = p.workers * p.opsPerWorker := by
  have hlength : ∀ w, (p.opsOf words seed w).length = p.opsPerWorker := by
    intro w
    rw [opsOf, drawOps, List.length_map, List.length_range]
  simp only [ops, List.length_flatMap, hlength, List.map_const', List.length_range,
    List.sum_replicate_nat]

/-- Nothing is lost in the queue, and nothing is in it twice. -/
theorem flatten_queue : (p.queue words seed).flatten = p.ops words seed := by
  unfold queue ops
  induction List.range p.workers with
  | nil => rfl
  | cons w ws ih =>
    rw [List.flatMap_cons, List.flatMap_cons, List.flatten_append, Run.flatten_cut, ih]

theorem left_launch (c : Chain) : (p.launch words seed c).left = p.ops words seed := by
  have hidle : (List.replicate p.workers ({} : Worker)).flatMap Worker.pending = [] :=
    List.flatMap_eq_nil_iff.2 fun w hw => by rw [List.eq_of_mem_replicate hw]
  rw [Run.left, launch, flatten_queue, hidle, List.append_nil]

theorem tally_launch (c : Chain) : (p.launch words seed c).tally = {} := by
  show Run.tallyOf (List.replicate p.workers {}) = {}
  induction p.workers with
  | zero => rfl
  | succ n ih =>
    rw [List.replicate_succ, Run.tallyOf_cons, ih]
    rfl

/-- The books are in order before the first turn. -/
theorem books_launch {c : Chain} {s : Chain.Sequence} (h : c.Holds s) :
    Run.Books c s (p.ops words seed) (p.launch words seed c) [] s where
  holds := h
  capacity := rfl
  live := rfl
  shares := by rw [left_launch, List.nil_append]
  counts := by rw [tally_launch]; exact .empty
  balance := by rw [tally_launch]
  room := by intro _ _; rw [tally_launch]
  staffed := by
    intro hworkers
    have hnone : p.workers = 0 := (List.replicate_eq_nil_iff _).1 hworkers
    show p.queue words seed = []
    rw [queue, hnone]
    rfl

end Profile

variable {p : Profile} {words : UInt64 → WordStream} {seed : UInt64} {c c' start : Chain}
  {s₀ s : Chain.Sequence} {past : List Chain.Exchange} {supply : Supply} {config : Pool.Config}

/-- What the tally `t` of a workload says of the chain `c` before and the chain
`c'` after it, if there was an arena of `capacity` bytes. -/
structure Accounts (c : Chain) (capacity : Nat) (p : Profile) (ops : List Op) (t : Tally)
    (c' : Chain) : Prop where
  total : t.total = p.workers * p.opsPerWorker
  counts : t.Counts ops
  balance : ∃ n n', c.count = .ok n ∧ c'.count = .ok n' ∧ n' + t.deleted = n + t.inserted
  room : ∀ n, c.count = .ok n → c.table.isLive = true →
    n + ops.countP Op.isInsert ≤ capacity / Node.size → t.rejected = 0

/-- When nothing is left, all was done. -/
theorem Run.Books.accounts {r : Run} {done : List Op}
    (hb : Run.Books c s₀ (p.ops words seed) r done s) (h₀ : c.Holds s₀) (hleft : r.left = []) :
    Accounts c c.table.arena.capacity p (p.ops words seed) r.tally r.chain := by
  have hdone : done.Perm (p.ops words seed) := by
    have hshares := hb.shares
    rw [hleft, List.append_nil] at hshares
    exact hshares
  have hcounts := hb.counts.perm hdone
  refine ⟨hcounts.total.trans Profile.length_ops, hcounts, ?_, ?_⟩
  · exact ⟨_, _, Chain.count_eq h₀, Chain.count_eq hb.holds, hb.balance⟩
  · intro n hn hlive hroom
    obtain rfl : s₀.length = n := Except.ok.inj ((Chain.count_eq h₀).symm.trans hn)
    exact hb.room hlive hroom

/-- A workload on any chain, live or cleaned up, comes to an end under every
schedule, and its tally accounts for every operation once and for every node of
the chain. So it does whenever nobody can have another turn, in whatever order
the turns were and the workers hand in their tallies. -/
theorem accounts_of_workload (hinit : (Chain.initialise supply config).answer = .ok start)
    (h : start.Run past c) (hreturn : ∀ x ∈ past, x.selfAnchored = false) (p : Profile)
    (words : UInt64 → WordStream) (seed : UInt64) :
    (∀ pick, ∃ t c', runWorkload c p words seed pick = .ok (t, c') ∧
      Accounts c config.capacity p (p.ops words seed) t c') ∧
    ∀ (r : Run) (ts : List Tally),
      Relation.ReflTransGen Run.Turn (p.launch words seed c) r → r.active = [] →
      ts.Perm (r.workers.map Worker.tally) →
      Accounts c config.capacity p (p.ops words seed) (ts.foldl Tally.merge {}) r.chain := by
  obtain ⟨rfl, hmax, -⟩ := Chain.initialise_ok hinit
  have hempty := Chain.ledger_empty supply.next hmax
  obtain ⟨s, hsteady, hlasting⟩ :=
    h.lasting ⟨hempty.holds, hempty.arena, fun n hn => nomatch hn⟩ hreturn
  have hcapacity : c.table.arena.capacity = config.capacity :=
    hlasting.capacity.trans hempty.capacity
  have hbooks : Run.Books c s (p.ops words seed) (p.launch words seed c) [] s :=
    Profile.books_launch hsteady.holds
  rw [← hcapacity]
  refine ⟨fun pick => ?_, fun r ts hreach hidle hperm => ?_⟩
  · obtain ⟨r, done, s', hplay, -, hb, hleft⟩ := hbooks.play pick rfl
    refine ⟨r.tally, r.chain, ?_, hb.accounts hsteady.holds hleft⟩
    show (Run.play pick (p.launch words seed c).turns (p.launch words seed c) >>= _) = _
    rw [hplay]
    rfl
  · obtain ⟨done, s', hb⟩ := hbooks.turns hreach
    rw [Tally.foldl_merge_perm hperm]
    exact hb.accounts hsteady.holds (Run.left_eq_nil hidle hb.staffed)

/-- Two workers, each to insert twice, delete once and search once. Whoever has
the turns, there is room for the four new nodes beside the one that is there. -/
theorem accounts_of_workload_room :
    let p : Profile := ⟨96, 1, 2, 4, 1⟩
    let words : UInt64 → WordStream := fun _ i => UInt32.ofNat (i / 2)
    ∃ start past c, (Chain.initialise {} ⟨96, true⟩).answer = .ok start ∧
      start.replay [] [.insert 0] = some (past, c) ∧ (∀ x ∈ past, x.selfAnchored = false) ∧
      c.count = .ok 1 ∧ ∀ pick, ∃ t c', runWorkload c p words 7 pick = .ok (t, c') ∧
        t.total = 8 ∧ t.rejected = 0 ∧ t.inserted = 4 ∧ t.deleted ≤ 2 ∧
        c'.count = .ok (5 - t.deleted) := by
  intro p words
  have hany : ((Chain.empty ⟨1⟩ ⟨96, true⟩).replay [] [.insert 0]).any (fun reached =>
      reached.1.all (fun x => !x.selfAnchored) &&
        decide (reached.2.count = .ok 1 ∧ reached.2.table.isLive = true)) = true := by decide
  obtain ⟨⟨past, c⟩, hreplay, hreached⟩ := (Option.any_eq_true _ _).1 hany
  obtain ⟨hall, hfacts⟩ := Bool.and_eq_true_iff.1 hreached
  obtain ⟨hcount, hlive⟩ := of_decide_eq_true hfacts
  have hreturn := Chain.Exchange.returned_of_all hall
  obtain ⟨hplay, -⟩ := @accounts_of_workload c (Chain.empty ⟨1⟩ ⟨96, true⟩) past {} ⟨96, true⟩ rfl
    (Chain.Run.nil.replay hreplay) hreturn p words 7
  refine ⟨_, past, c, rfl, hreplay, hreturn, hcount, fun pick => ?_⟩
  obtain ⟨t, c', hrun, haccounts⟩ := hplay pick
  have hinserts : (p.ops words 7).countP Op.isInsert = 4 := by decide
  have hdeletes : (p.ops words 7).countP Op.isDelete = 2 := by decide
  have hrejected := haccounts.room 1 hcount hlive (by rw [hinserts]; decide)
  obtain ⟨n, n', hn, hn', hbalance⟩ := haccounts.balance
  obtain rfl := Except.ok.inj (hcount.symm.trans hn)
  have hinserted := haccounts.counts.inserts
  have hdeleted := haccounts.counts.deletes
  rw [hinserts, hrejected, Nat.add_zero] at hinserted
  rw [hdeletes] at hdeleted
  refine ⟨t, c', hrun, haccounts.total, hrejected, hinserted, hdeleted, ?_⟩
  rw [hn']
  congr 1
  omega

end FirstFit
