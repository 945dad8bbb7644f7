/-
# Walks along a chain end

The loops of a chain go from node to node by links that they read from bytes,
and nothing bounds their rounds or tells them that they were at a node before.
Here they run without a bound, which a loop can only do where its rounds do not
go on for ever. On a chain that can be reached they do not: what is ahead of a
loop is the end of the chain, and every round leaves one node behind. A round
holds the lock of one node, so no more nodes are locked than the chain has.

Key definitions: `Loop`, `Loop.run`, `Loop.Along`, `Loop.Bounds`, `Loop.Ends`,
`Chain.Traversable`.
Key theorems: `Loop.Along.acc`, `Loop.Along.run_eq`, `Loop.Bounds.eq_of_run`,
`Loop.Along.ends`, `Holds.traversable`, `traversals_of_run`.
-/
import FirstFit.Proofs.Chain.CleanUp

namespace FirstFit

/-! ### Loops without a bound -/

/-- A loop that holds the lock of one node in each round. -/
structure Loop (σ ρ : Type) where
  node : σ → NodeRef
  /-- To the state of the next round, or out of the loop. -/
  round : σ → Checked (σ ⊕ ρ)

namespace Loop

variable {σ ρ : Type} {l : Loop σ ρ} {f : Nat → σ → Checked ρ} {nodes ahead locked : List NodeRef}
  {x y : σ} {r : ρ} {steps : Nat}

/-- The round from `x` leads to one from `y`. -/
def Next (l : Loop σ ρ) (y x : σ) : Prop := l.round x = .ok (.inl y)

/-- The nodes that the loop locks from `x` on, one after another, and what it
comes to. No number of rounds is given: it is enough that they do not go on
for ever. -/
def run (l : Loop σ ρ) (x : σ) (h : Acc l.Next x) : List NodeRef × Checked ρ :=
  match hround : l.round x with
  | .error fault => ([l.node x], .error fault)
  | .ok (.inr r) => ([l.node x], .ok r)
  | .ok (.inl y) =>
    let rest := l.run y (h.inv hround)
    (l.node x :: rest.1, rest.2)
termination_by (⟨x, h⟩ : {x // Acc l.Next x})
decreasing_by exact hround

/-- The nodes of `ahead` are ahead of the loop: it is at the first of them, and
after each round at the next, until a round is the last one. -/
def Along (l : Loop σ ρ) : List NodeRef → σ → Prop
  | [], _ => False
  | n :: ahead, x => l.node x = n ∧
      ((∃ r, l.round x = .ok (.inr r)) ∨ ∃ y, l.round x = .ok (.inl y) ∧ l.Along ahead y)

/-- `f steps x` is what the loop comes to from `x` on in at most `steps` rounds. -/
def Bounds (l : Loop σ ρ) (f : Nat → σ → Checked ρ) : Prop :=
  ∀ steps x, f (steps + 1) x = l.round x >>= fun next =>
    match next with
    | .inl y => f steps y
    | .inr r => .ok r

/-- From `x` on the loop goes along the last ones of `nodes`, and ends with
`result` before it locks more nodes than these. -/
def Ends (l : Loop σ ρ) (nodes : List NodeRef) (x : σ) (result : Checked ρ) : Prop :=
  ∃ ahead locked r, ∃ h : Acc l.Next x, ahead <:+ nodes ∧ l.Along ahead x ∧
    l.run x h = (locked, .ok r) ∧ locked <+: ahead ∧ locked.length ≤ nodes.length ∧
    result = .ok r

theorem run_fault {fault : Fault} (h : Acc l.Next x) (hround : l.round x = .error fault) :
    l.run x h = ([l.node x], .error fault) := by
  unfold run
  split <;> simp_all

theorem run_last (h : Acc l.Next x) (hround : l.round x = .ok (.inr r)) :
    l.run x h = ([l.node x], .ok r) := by
  unfold run
  split <;> simp_all

theorem run_next (h : Acc l.Next x) (hround : l.round x = .ok (.inl y)) :
    l.run x h = (l.node x :: (l.run y (h.inv hround)).1, (l.run y (h.inv hround)).2) := by
  rw [run]
  split
  · simp_all
  · simp_all
  · rename_i y' hround'
    obtain rfl : y' = y := Sum.inl.inj (Except.ok.inj (hround'.symm.trans hround))
    rfl

/-- What a loop that ended did first: its last round, or one that led to the next. -/
theorem run_cases {h : Acc l.Next x} (hrun : l.run x h = (locked, .ok r)) :
    (l.round x = .ok (.inr r) ∧ locked = [l.node x]) ∨
    ∃ y rest, ∃ hround : l.round x = .ok (.inl y),
      l.run y (h.inv hround) = (rest, .ok r) ∧ locked = l.node x :: rest := by
  obtain ⟨next, hround⟩ : ∃ next, l.round x = next := ⟨_, rfl⟩
  cases next with
  | error fault =>
    rw [run_fault h hround] at hrun
    simp at hrun
  | ok next =>
    cases next with
    | inr r' =>
      rw [run_last h hround] at hrun
      obtain ⟨rfl, rfl⟩ : [l.node x] = locked ∧ r' = r := by simpa using hrun
      exact .inl ⟨hround, rfl⟩
    | inl y =>
      rw [run_next h hround] at hrun
      obtain ⟨hlocked, hresult⟩ := Prod.mk.inj hrun
      exact .inr ⟨y, _, hround, Prod.ext rfl hresult, hlocked.symm⟩

/-- The rounds of a loop with nodes ahead come to an end: the induction is on
what is ahead. -/
theorem Along.acc : ∀ {ahead : List NodeRef} {x : σ}, l.Along ahead x → Acc l.Next x
  | n :: ahead, x, h => by
    obtain ⟨-, ⟨r, hr⟩ | ⟨y, hy, hahead⟩⟩ := h
    · refine Acc.intro x fun y (hy : l.round x = .ok (.inl y)) => ?_
      rw [hr] at hy
      exact nomatch hy
    · refine Acc.intro x fun z (hz : l.round x = .ok (.inl z)) => ?_
      obtain rfl : y = z := Sum.inl.inj (Except.ok.inj (hy.symm.trans hz))
      exact hahead.acc

theorem Along.run_eq : ∀ {ahead : List NodeRef} {x : σ} (hacc : Acc l.Next x),
    l.Along ahead x → ∃ locked r, l.run x hacc = (locked, .ok r) ∧ locked <+: ahead
  | n :: ahead, x, hacc, h => by
    obtain ⟨rfl, ⟨r, hr⟩ | ⟨y, hy, hahead⟩⟩ := h
    · exact ⟨[l.node x], r, run_last hacc hr, List.prefix_append [l.node x] ahead⟩
    · obtain ⟨locked, r, hrun, hlocked⟩ := hahead.run_eq (hacc.inv hy)
      refine ⟨l.node x :: locked, r, ?_, (List.prefix_cons_inj (l.node x)).2 hlocked⟩
      rw [run_next hacc hy, hrun]

/-- A bound that is no less than the number of nodes locked makes no difference. -/
theorem Bounds.eq_of_run (hf : l.Bounds f) {hacc : Acc l.Next x}
    (hrun : l.run x hacc = (locked, .ok r)) (hlen : locked.length ≤ steps) :
    f steps x = .ok r := by
  induction steps generalizing x locked with
  | zero =>
    rcases run_cases hrun with ⟨-, rfl⟩ | ⟨y, rest, -, -, rfl⟩ <;> simp at hlen
  | succ steps ih =>
    rw [hf]
    rcases run_cases hrun with ⟨hround, rfl⟩ | ⟨y, rest, hround, hy, rfl⟩
    · rw [hround]
      rfl
    · have hrest : rest.length ≤ steps := Nat.le_of_succ_le_succ hlen
      rw [hround]
      exact ih hy hrest

/-- A loop with the last ones of `nodes` ahead ends, and so does the one with a
bound that is no less than their number, with the same result. -/
theorem Along.ends (h : l.Along ahead x) (hf : l.Bounds f) (hnodes : ahead <:+ nodes)
    (hsteps : nodes.length ≤ steps) : l.Ends nodes x (f steps x) := by
  obtain ⟨locked, r, hrun, hlocked⟩ := h.run_eq h.acc
  have hlen : locked.length ≤ nodes.length := Nat.le_trans hlocked.length_le hnodes.length_le
  exact ⟨ahead, locked, r, h.acc, hnodes, h, hrun, hlocked, hlen,
    hf.eq_of_run hrun (Nat.le_trans hlen hsteps)⟩

end Loop

/-! ### The loops of a chain -/

namespace NodeTable

/-- Going on to the node at which the links end. -/
def lastLoop (t : NodeTable) : Loop NodeRef NodeRef where
  node n := n
  round n := do
    match ← t.next n with
    | none => return .inr n
    | some next => return .inl next

/-- Going on to a node that meets a condition, with the node before it at hand. -/
def findLoop (t : NodeTable) (meets : Record → Bool) :
    Loop (Option NodeRef × NodeRef) (Option Stop) where
  node x := x.2
  round x := do
    let record ← t.record x.2
    if meets record then return .inr (some ⟨x.1, x.2, record⟩)
    else
      match record.next with
      | none => return .inr none
      | some next => return .inl (some x.2, next)

/-- Taking the values of a range, with those at hand that were taken before. -/
def rangeLoop (t : NodeTable) (last : Option NodeRef) :
    Loop (List UInt16 × NodeRef) (List UInt16) where
  node x := x.2
  round x := do
    let (value, rest) ← Range.pull ⟨some x.2, last⟩ t
    let values := x.1 ++ value.toList
    match rest.next with
    | none => return .inr values
    | some next => return .inl (values, next)

theorem bounds_last (t : NodeTable) : t.lastLoop.Bounds t.lastFrom := by
  intro steps n
  simp only [lastFrom, lastLoop]
  cases t.next n with
  | error fault => rfl
  | ok next => cases next <;> rfl

theorem bounds_find (t : NodeTable) (meets : Record → Bool) :
    (t.findLoop meets).Bounds fun steps x => t.walk meets steps x.1 x.2 := by
  intro steps x
  simp only [walk, findLoop]
  cases t.record x.2 with
  | error fault => rfl
  | ok record =>
    simp only [Checked.ok_bind]
    by_cases hmeets : meets record
    · rw [if_pos hmeets, if_pos hmeets]
      rfl
    · rw [if_neg hmeets, if_neg hmeets]
      cases record.next <;> rfl

theorem bounds_range (t : NodeTable) (last : Option NodeRef) :
    (t.rangeLoop last).Bounds fun steps x =>
      (x.1 ++ ·) <$> Range.drain ⟨some x.2, last⟩ t steps := by
  intro steps x
  simp only [Range.drain, Range.pull, rangeLoop]
  cases t.record x.2 with
  | error fault => rfl
  | ok record =>
    simp only [Checked.ok_bind]
    by_cases hlast : last = some x.2
    · simp only [if_pos hlast, pure_bind, drain_ended, Checked.ok_bind]
      rfl
    · simp only [if_neg hlast]
      cases record.next.mapM t.slotOf with
      | error fault => rfl
      | ok bases =>
        simp only [Checked.ok_bind, pure_bind]
        cases record.next with
        | none =>
          rw [drain_ended]
          rfl
        | some next =>
          show (x.1 ++ ·) <$> (Range.drain ⟨some next, last⟩ t steps >>= _) =
            ((x.1 ++ [record.data]) ++ ·) <$> Range.drain ⟨some next, last⟩ t steps
          cases Range.drain ⟨some next, last⟩ t steps with
          | error fault => rfl
          | ok rest => exact congrArg Except.ok (List.append_assoc x.1 [record.data] rest).symm

end NodeTable

namespace Chain

open Sequence (Linked Owned first)

/-- Releasing a node and all that it leads to, with what came of those before
it at hand: the table, what was logged, and their number. -/
def releaseLoop :
    Loop ((NodeTable × List Event × Nat) × NodeRef) (NodeTable × List Event × Nat) where
  node x := x.2
  round x := do
    let next ← x.1.1.next x.2
    let (t, log) ← x.1.1.release x.2
    let released := (t, x.1.2.1 ++ log, x.1.2.2 + 1)
    match next with
    | none => return .inr released
    | some next => return .inl (released, next)

theorem bounds_release : releaseLoop.Bounds fun steps x => do
    let (t, log, count) ← releaseAll steps x.1.1 (some x.2)
    return (t, x.1.2.1 ++ log, x.1.2.2 + count) := by
  intro steps x
  obtain ⟨⟨t, log, count⟩, n⟩ := x
  simp only [releaseAll, releaseLoop]
  cases t.next n with
  | error fault => rfl
  | ok next =>
    simp only [Checked.ok_bind]
    cases t.release n with
    | error fault => rfl
    | ok released =>
      obtain ⟨t', log'⟩ := released
      simp only [Checked.ok_bind]
      cases next with
      | none =>
        rw [releaseAll_none, Checked.ok_bind, List.append_nil]
        rfl
      | some next =>
        simp only [pure_bind]
        cases releaseAll steps t' (some next) with
        | error fault => rfl
        | ok rest =>
          simp only [Checked.ok_bind, pure_bind, List.append_assoc, Nat.add_assoc,
            Nat.add_comm 1]

/-! ### What is ahead of a loop -/

variable {c start : Chain} {s : Sequence} {t : NodeTable} {node : NodeRef}
  {past : List Exchange} {supply : Supply} {config : Pool.Config}

theorem along_last : ∀ {s : Sequence} {p : NodeRef × UInt16}, Linked t.arena none (p :: s) →
    Owned t.arena.id (p :: s) → t.lastLoop.Along (Sequence.nodes (p :: s)) p.1
  | s, p, hl, ho => by
    have hnext := NodeTable.next_linked hl ho
    refine ⟨rfl, ?_⟩
    cases s with
    | nil =>
      refine .inl ⟨p.1, ?_⟩
      simp only [NodeTable.lastLoop, hnext, Checked.ok_bind]
      rfl
    | cons q s =>
      refine .inr ⟨q.1, ?_, along_last hl.2 ho.tail⟩
      simp only [NodeTable.lastLoop, hnext, Checked.ok_bind]
      rfl

theorem along_find (meets : NodeTable.Record → Bool) : ∀ {s : Sequence} {p : NodeRef × UInt16}
    (previous : Option NodeRef), Linked t.arena none (p :: s) → Owned t.arena.id (p :: s) →
    (t.findLoop meets).Along (Sequence.nodes (p :: s)) (previous, p.1)
  | s, p, previous, hl, ho => by
    have hrecord := NodeTable.record_linked hl ho
    refine ⟨rfl, ?_⟩
    simp only [NodeTable.findLoop, hrecord, Checked.ok_bind]
    by_cases hmeets : meets ⟨p.2, first none s⟩
    · rw [if_pos hmeets]
      exact .inl ⟨_, rfl⟩
    · rw [if_neg hmeets]
      cases s with
      | nil => exact .inl ⟨_, rfl⟩
      | cons q s => exact .inr ⟨_, rfl, along_find meets (some p.1) hl.2 ho.tail⟩

theorem along_range (last : Option NodeRef) : ∀ {s : Sequence} {p : NodeRef × UInt16}
    (values : List UInt16), Linked t.arena none (p :: s) → Owned t.arena.id (p :: s) →
    (t.rangeLoop last).Along (Sequence.nodes (p :: s)) (values, p.1)
  | s, p, values, hl, ho => by
    have hpull := NodeTable.pull_eq last hl ho
    refine ⟨rfl, ?_⟩
    simp only [NodeTable.rangeLoop, hpull, Checked.ok_bind]
    by_cases hlast : last = some p.1
    · rw [if_pos hlast]
      exact .inl ⟨_, rfl⟩
    · rw [if_neg hlast]
      cases s with
      | nil => exact .inl ⟨_, rfl⟩
      | cons q s => exact .inr ⟨_, rfl, along_range last _ hl.2 ho.tail⟩

/-- Each release leaves a table that stores the rest, and the rest is linked. -/
theorem along_release : ∀ {s : Sequence} {p : NodeRef × UInt16} {t : NodeTable}
    (released : List Event × Nat), t.Stored (p :: s) → Linked t.arena none (p :: s) →
    releaseLoop.Along (Sequence.nodes (p :: s)) ((t, released), p.1)
  | s, (node, v), t, released, hstored, hl => by
    have hnext := NodeTable.next_linked hl hstored.owned
    obtain ⟨t', hrelease, -, hstored', hl', -⟩ := release_unlinked hstored hl.2
    refine ⟨rfl, ?_⟩
    simp only [releaseLoop, hnext, hrelease, Checked.ok_bind]
    cases s with
    | nil => exact .inl ⟨_, rfl⟩
    | cons q s => exact .inr ⟨_, rfl, along_release _ hstored' hl'⟩

/-! ### Every walk ends -/

/-- All that is asked of a chain with the nodes of `s` ends. Every loop that
follows links, from wherever it starts, goes along the last nodes of the chain,
leaves one behind in each round, and locks no more than there are. What it comes
to is what the request takes from it. -/
structure Traversable (start c : Chain) (s : Sequence) : Prop where
  insert : ∀ v node t log head, c.table.create v none = .ok ⟨.ok node, t, log⟩ →
    c.head = some head → t.lastLoop.Ends s.nodes head (t.last head)
  insertBefore : ∀ v anchor node t log head,
    c.table.create v (some anchor) = .ok ⟨.ok node, t, log⟩ → c.head = some head →
    (t.findLoop fun r => r.next == some anchor).Ends s.nodes (none, head)
      (t.findBefore anchor head)
  /-- To delete a value, or to search for it. -/
  value : ∀ v head, c.head = some head →
    (c.table.findLoop fun r => r.data == v).Ends s.nodes (none, head) (c.table.findValue v head)
  cleanUp : ∀ head, c.head = some head →
    releaseLoop.Ends s.nodes ((c.table, [], 0), head)
      (releaseAll c.table.slots c.table (some head))
  /-- To whatever node the range is to go, also one that is not there. -/
  range : ∀ first last, (∀ n ∈ first, Genuine start n) →
    ∃ next log, c.range first last = .ok (⟨next, last⟩, log) ∧
      ∀ n, next = some n → (c.table.rangeLoop last).Ends s.nodes ([], n)
        (Range.drain ⟨next, last⟩ c.table c.table.slots)
  served : ∀ r : Request, (∀ n ∈ r.nodes, Genuine start n) → ∃ reply, c.serve r = .ok reply

theorem Holds.exists_head (h : c.Holds s) {head : NodeRef} (hhead : c.head = some head) :
    ∃ v rest, s = (head, v) :: rest := by
  rw [h.head] at hhead
  cases s with
  | nil => exact nomatch hhead
  | cons p rest => exact ⟨p.2, rest, by rw [← Option.some.inj hhead]⟩

/-- A range starts at a node of the chain, or has no values. -/
theorem Holds.range_cases (h : c.Holds s) (first last : Option NodeRef)
    (hstamp : ∀ n ∈ first, n.arena = c.table.arena.id → n.stamp ≠ 0) :
    ∃ next log, c.range first last = .ok (⟨next, last⟩, log) ∧
      ∀ n, next = some n → ∃ pre v post, s = pre ++ (n, v) :: post := by
  obtain ⟨log, hrange, -⟩ := h.range_eq first last hstamp
  refine ⟨_, log, hrange, fun n hn => ?_⟩
  obtain ⟨pre, hsplit⟩ := s.startingAt_suffix first
  cases hpart : s.startingAt first with
  | nil =>
    rw [hpart] at hn
    exact nomatch hn
  | cons p post =>
    rw [hpart] at hn hsplit
    obtain rfl : p.1 = n := Option.some.inj hn
    exact ⟨pre, p.2, post, hsplit.symm⟩

/-- There is a slot for each node. -/
theorem length_nodes_le (h : t.Stored s) : s.nodes.length ≤ t.slots :=
  Nat.le_trans (Nat.le_of_eq (List.length_map _)) h.length_le

/-- A table with one node more has a slot for each node from before. -/
theorem Extended.length_nodes_le {v : UInt16} {next : Option NodeRef}
    (he : c.Extended s v next node t) : s.nodes.length ≤ t.slots :=
  Nat.le_trans (Nat.le_succ _) (Chain.length_nodes_le he.stored)

theorem Holds.traversable (h : c.Holds s) (hid : c.table.arena.id = start.table.arena.id) :
    Traversable start c s where
  insert v node t log head hcreate hhead := by
    have he := h.extended hcreate
    have hsteps := he.length_nodes_le
    obtain ⟨w, rest, rfl⟩ := h.exists_head hhead
    have halong := along_last he.linked (he.same.id ▸ h.stored.owned)
    exact halong.ends t.bounds_last (List.suffix_refl _) hsteps
  insertBefore v anchor node t log head hcreate hhead := by
    have he := h.extended hcreate
    have hsteps := he.length_nodes_le
    obtain ⟨w, rest, rfl⟩ := h.exists_head hhead
    have halong := along_find (fun r => r.next == some anchor) none he.linked
      (he.same.id ▸ h.stored.owned)
    exact halong.ends (t.bounds_find _) (List.suffix_refl _) hsteps
  value v head hhead := by
    have hsteps := length_nodes_le h.stored
    obtain ⟨w, rest, rfl⟩ := h.exists_head hhead
    have halong := along_find (fun r => r.data == v) none h.linked h.stored.owned
    exact halong.ends (c.table.bounds_find _) (List.suffix_refl _) hsteps
  cleanUp head hhead := by
    have hsteps := length_nodes_le h.stored
    obtain ⟨w, rest, rfl⟩ := h.exists_head hhead
    have hends := (along_release ([], 0) h.stored h.linked).ends bounds_release
      (List.suffix_refl _) hsteps
    have hresult : (do
        let (t, log, count) ← releaseAll c.table.slots c.table (some head)
        return (t, [] ++ log, 0 + count)) = releaseAll c.table.slots c.table (some head) := by
      cases releaseAll c.table.slots c.table (some head) with
      | error fault => rfl
      | ok released => simp
    rw [← hresult]
    exact hends
  range first last hgenuine := by
    obtain ⟨next, log, hrange, hnext⟩ := h.range_cases first last fun n hn ha =>
      (hgenuine n hn).stamp_ne_zero (ha.trans hid)
    refine ⟨next, log, hrange, ?_⟩
    rintro n rfl
    have hsteps := length_nodes_le h.stored
    obtain ⟨pre, v, post, rfl⟩ := hnext n rfl
    have hlinked := (Sequence.linked_append.1 h.linked).2
    have howned : Owned c.table.arena.id ((n, v) :: post) := fun p hp =>
      h.stored.owned p (List.mem_append_right _ hp)
    have hsuffix : Sequence.nodes ((n, v) :: post) <:+ Sequence.nodes (pre ++ (n, v) :: post) :=
      ⟨Sequence.nodes pre, (List.map_append ..).symm⟩
    have hends := (along_range last [] hlinked howned).ends (c.table.bounds_range last)
      hsuffix hsteps
    have hresult : ([] ++ ·) <$> Range.drain ⟨some n, last⟩ c.table c.table.slots =
        Range.drain ⟨some n, last⟩ c.table c.table.slots := by
      cases Range.drain ⟨some n, last⟩ c.table c.table.slots <;> rfl
    rw [← hresult]
    exact hends
  served r hgenuine := by
    obtain ⟨reply, hserve, -⟩ := serve_cases h r fun n hn ha =>
      (hgenuine n hn).stamp_ne_zero (ha.trans hid)
    exact ⟨reply, hserve⟩

/-- Whatever was asked of a chain before, all that is asked of it now ends: each
loop without a bound has a result, the one that the bounded walk has, before it
has locked more nodes than the chain has. -/
theorem traversals_of_run (hinit : (initialise supply config).answer = .ok start)
    (h : start.Run past c) (hreturn : ∀ x ∈ past, x.selfAnchored = false) :
    ∃ s, c.sequence = .ok s ∧ c.count = .ok s.length ∧ s.nodes.length = s.length ∧
      s.length ≤ config.capacity / 16 ∧ Traversable start c s := by
  obtain ⟨rfl, hmax, -⟩ := initialise_ok hinit
  have hempty := ledger_empty supply.next hmax
  obtain ⟨s, hsteady, hlasting⟩ :=
    h.lasting ⟨hempty.holds, hempty.arena, fun n hn => nomatch hn⟩ hreturn
  have hholds := hsteady.holds
  have hcapacity : c.table.arena.capacity = config.capacity :=
    hlasting.capacity.trans hempty.capacity
  have hcount : s.length ≤ c.table.arena.capacity / 16 := hholds.stored.length_le
  rw [hcapacity] at hcount
  exact ⟨s, hholds.sequence_eq, count_eq hholds, List.length_map _, hcount,
    hholds.traversable hlasting.id⟩

/-- A range from the second of three nodes to one whose slot was used again. It
does not come there, goes on to the end, and locks no more than three nodes. -/
theorem traversals_of_run_stale :
    let gone : NodeRef := ⟨⟨1⟩, 0, 1⟩
    let second : NodeRef := ⟨⟨1⟩, 32, 3⟩
    let rs : List Request := [.insert 7, .insert 8, .insert 9, .delete 7, .insert 5]
    ∃ start past c, (initialise {} ⟨56, false⟩).answer = .ok start ∧
      start.replay [] rs = some (past, c) ∧ (∀ x ∈ past, x.selfAnchored = false) ∧
      c.count = .ok 3 ∧ Genuine start second ∧
      c.range (some second) (some gone) = .ok (⟨some second, some gone⟩, []) ∧
      ∃ locked h, (c.table.rangeLoop (some gone)).run ([], second) h = (locked, .ok [9, 5]) ∧
        locked.length ≤ 3 := by
  intro gone second rs
  let start := empty ⟨1⟩ ⟨56, false⟩
  have hmade : (start.replay [] [.insert 7, .insert 8]).any (fun reached =>
      decide (reached.2.creation (.insert 9) = some second)) = true := by decide
  have hlast : (start.replay [] rs).any (fun reached =>
      reached.1.all (fun x => !x.selfAnchored) && decide (reached.2.count = .ok 3 ∧
        reached.2.range (some second) (some gone) = .ok (⟨some second, some gone⟩, []) ∧
        Range.drain ⟨some second, some gone⟩ reached.2.table reached.2.table.slots =
          .ok [9, 5])) = true := by decide
  obtain ⟨⟨past₁, c₁⟩, hreplay₁, hcreation⟩ := (Option.any_eq_true _ _).1 hmade
  obtain ⟨⟨past, c⟩, hreplay, hreached⟩ := (Option.any_eq_true _ _).1 hlast
  obtain ⟨hall, hfacts⟩ := Bool.and_eq_true_iff.1 hreached
  obtain ⟨hthree, hrange, hdrain⟩ := of_decide_eq_true hfacts
  have hreturn := Exchange.returned_of_all hall
  have hgenuine : Genuine start second := fun _ =>
    ⟨past₁, c₁, .insert 9, Run.nil.replay hreplay₁, of_decide_eq_true hcreation⟩
  obtain ⟨s, -, hcount, hnodes, -, htraversable⟩ :=
    @traversals_of_run c start past {} ⟨56, false⟩ rfl (Run.nil.replay hreplay) hreturn
  obtain ⟨next, log, hrange', hends⟩ := htraversable.range (some second) (some gone) fun n hn =>
    Option.some.inj hn ▸ hgenuine
  obtain ⟨rfl, -⟩ : next = some second ∧ log = [] := by
    simpa using hrange'.symm.trans hrange
  obtain ⟨ahead, locked, r, hacc, -, -, hrun, -, hlen, hresult⟩ := hends second rfl
  obtain rfl : r = [9, 5] := Except.ok.inj (hresult.symm.trans hdrain)
  have hthree' : s.length = 3 := Except.ok.inj (hcount.symm.trans hthree)
  exact ⟨start, past, c, rfl, hreplay, hreturn, hthree, hgenuine, hrange, locked, hacc,
    hrun, by omega⟩

end Chain
end FirstFit
