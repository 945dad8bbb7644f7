/-
# The records of a node table

A table is a map from the nodes that were created and not released since to
what it shows of them. A new node shows what it was created with, one that is
led elsewhere shows that and is as before otherwise, and where a node was
released nothing is left to show. Each of these touches the slot of its own
node only, so all other nodes show what they showed.

Key definitions: `NodeTable.Act`, `NodeTable.Use`, `NodeTable.Shows`,
`NodeTable.Spares`, `NodeTable.Keeps`.
Key theorems: `Keeps.create`, `Keeps.setNext`, `Keeps.release`, `Use.keeps`,
`records_of_use`.
-/
import FirstFit.Proofs.Chain.Run

namespace FirstFit

/-- The successor that a cell in the arena `id` names. -/
def Cell.next (id : ArenaId) (c : Cell) : Option NodeRef :=
  if c.nextStamp = 0 then none else some ⟨id, c.nextOffset, c.nextStamp⟩

namespace NodeTable

open Chain (Event Error Sequence)

variable {t t' start : NodeTable} {live : List NodeRef} {s others : Sequence} {node : NodeRef}
  {v : UInt16} {next : Option NodeRef}

/-- A reference that the table can have given out: no node has stamp zero. -/
def Owns (t : NodeTable) (n : NodeRef) : Prop := n.arena = t.arena.id ∧ n.stamp ≠ 0

instance (t : NodeTable) (n : NodeRef) : Decidable (t.Owns n) :=
  inferInstanceAs (Decidable (n.arena = t.arena.id ∧ n.stamp ≠ 0))

/-! ### What is done with a table -/

/-- A call on a table, as a value. A node that was never linked is released like
any other. -/
inductive Act where
  | create (v : UInt16) (next : Option NodeRef)
  | setNext (node : NodeRef) (next : Option NodeRef)
  | release (node : NodeRef)
  deriving DecidableEq, Repr

/-- The nodes that must be live. -/
def Act.nodes : Act → List NodeRef
  | create _ _ => []
  | setNext node _ | release node => [node]

/-- The live nodes and the table after a call. -/
def act (t : NodeTable) (live : List NodeRef) : Act → Checked (List NodeRef × NodeTable)
  | .create v next => do
    let made ← t.create v next
    return (made.answer.toOption.toList ++ live, made.state)
  | .setNext node next => do
    let t ← t.setNext node next
    return (live, t)
  | .release node => do
    let (t, _) ← t.release node
    return (live.erase node, t)

/-- The nodes that are live and the table after any calls. -/
inductive Use (start : NodeTable) : List NodeRef → NodeTable → Prop
  | nil : Use start [] start
  | snoc {live live' : List NodeRef} {t t' : NodeTable} {a : Act} (h : Use start live t)
      (hlive : ∀ n ∈ a.nodes, n ∈ live) (hact : t.act live a = .ok (live', t')) :
      Use start live' t'

/-- Carry out calls. One on a node that is not live is not carried out. -/
def replay (t : NodeTable) (live : List NodeRef) : List Act → Option (List NodeRef × NodeTable)
  | [] => some (live, t)
  | a :: rest =>
    if ∀ n ∈ a.nodes, n ∈ live then
      match t.act live a with
      | .ok (live, t) => replay t live rest
      | .error _ => none
    else none

theorem Use.replay : ∀ {as : List Act} {live : List NodeRef} {t : NodeTable}, start.Use live t →
    ∀ {live' : List NodeRef} {t' : NodeTable}, t.replay live as = some (live', t') →
      start.Use live' t'
  | [], _, _, h, _, _, hreplay => by
    obtain ⟨rfl, rfl⟩ := Prod.mk.inj (Option.some.inj hreplay)
    exact h
  | a :: rest, live, t, h, live', t', hreplay => by
    unfold NodeTable.replay at hreplay
    split at hreplay
    · rename_i hlive
      cases hact : t.act live a with
      | error e => rw [hact] at hreplay; exact nomatch hreplay
      | ok after =>
        rw [hact] at hreplay
        exact (h.snoc hlive hact).replay hreplay
    · exact nomatch hreplay

/-! ### What is read -/

/-- What a table shows of a node that it accepts. -/
structure Shows (t : NodeTable) (node : NodeRef) (v : UInt16) (next : Option NodeRef) : Prop where
  data : t.data node = .ok v
  next : t.next node = .ok next
  stamp : t.stampAt node.offset.toNat = .ok node.stamp
  accepted : t.checkLive node = .ok (.ok (), [])

/-- The slot at `base` shows no node. -/
structure Blank (t : NodeTable) (base : Nat) : Prop where
  data : t.dataAt base = .ok 0
  next : t.nextAt base = .ok none
  stamp : t.stampAt base = .ok 0

/-- The table `t'` is `t` but for the slot of `node`, and shows the same of all
other nodes. -/
structure Spares (t t' : NodeTable) (node : NodeRef) (live : List NodeRef) : Prop where
  same : t.arena.SameOutside t'.arena node.offset.toNat Node.size
  shows : ∀ m ∈ live, m ≠ node → ∃ v next, t.Shows m v next ∧ t'.Shows m v next

theorem next_leadingTo {id : ArenaId} {stamp : UInt32}
    (hn : ∀ n ∈ next, n.arena = id ∧ n.stamp ≠ 0) :
    (Cell.leadingTo v stamp next).next id = next := by
  cases next with
  | none => rfl
  | some n =>
    obtain ⟨rfl, hs⟩ := hn n rfl
    exact if_neg hs

theorem nextAt_of_cell {base : Nat} {c : Cell} (h : t.arena.HasCell base c) :
    t.nextAt base = .ok (c.next t.arena.id) := by
  simp only [nextAt, load32_cell h c.nextStamp_mem, load32_cell h c.nextOffset_mem,
    Checked.ok_bind]
  unfold Cell.next
  split <;> rfl

/-- What a table shows of a node is what is in its cell. -/
theorem shows_of_cell (h : t.arena.HasCell node.offset.toNat (.leadingTo v node.stamp next))
    (ha : node.arena = t.arena.id) (halign : node.offset.toNat % Node.size = 0) :
    t.Shows node v ((Cell.leadingTo v node.stamp next).next t.arena.id) where
  data := by rw [data_eq h, Cell.data_leadingTo]
  next := by
    unfold NodeTable.next
    rw [slotOf_eq h.inside, Checked.ok_bind, nextAt_of_cell h]
  stamp := by rw [stampAt_cell h, Cell.stamp_leadingTo]
  accepted := checkLive_live h ha halign (Cell.stamp_leadingTo _ _ _)

theorem blank_of_cell {base : Nat} (h : t.arena.HasCell base {}) : t.Blank base where
  data := dataAt_cell h
  next := nextAt_of_cell h
  stamp := stampAt_cell h

/-- A slot that none of the nodes is in is blank. -/
theorem Stored.blank (h : t.Stored s) {base : Nat} (halign : base % Node.size = 0)
    (hin : base + Node.size ≤ t.arena.capacity) (hne : ∀ p ∈ s, p.1.offset.toNat ≠ base) :
    t.arena.HasCell base {} := by
  rcases h.tidy.slot_cases halign hin with ⟨b, hb, hstart⟩ | hblank
  · obtain ⟨p, hp, hoff⟩ := List.mem_map.1 (h.starts.mem_iff.2 (List.mem_map.2 ⟨b, hb, hstart⟩))
    exact absurd hoff (hne p hp)
  · exact hblank

/-! ### What a table keeps -/

/-- The live nodes are those of `s`, whatever their order, and each has its cell. -/
structure Keeps (t : NodeTable) (live : List NodeRef) (s : Sequence) : Prop where
  stored : t.Stored s
  isLive : t.isLive = true
  nodes : live.Perm s.nodes
  cell : ∀ p ∈ s, ∃ next, t.arena.HasCell p.1.offset.toNat (.leadingTo p.2 p.1.stamp next)

namespace Keeps

theorem perm {s' : Sequence} (h : t.Keeps live s) (hs : s.Perm s') : t.Keeps live s' :=
  ⟨h.stored.perm hs, h.isLive, h.nodes.trans (hs.map _), fun p hp => h.cell p (hs.mem_iff.2 hp)⟩

/-- Any live node may be taken for the first. -/
theorem front (h : t.Keeps live s) (hn : node ∈ live) :
    ∃ v others, t.Keeps live ((node, v) :: others) := by
  obtain ⟨pre, v, post, rfl, -⟩ := Sequence.exists_split (h.nodes.mem_iff.1 hn)
  exact ⟨v, pre ++ post, h.perm List.perm_middle⟩

theorem length_eq (h : t.Keeps live s) : live.length = s.length :=
  h.nodes.length_eq.trans (List.length_map _)

/-- A live node is the first, or one of the others. -/
theorem mem_others (h : t.Keeps live ((node, v) :: others)) {m : NodeRef} (hm : m ∈ live)
    (hne : m ≠ node) : m ∈ others.nodes :=
  (List.mem_cons.1 (h.nodes.mem_iff.1 hm)).resolve_left hne

theorem shows (h : t.Keeps live s) {p : NodeRef × UInt16} (hp : p ∈ s) {next : Option NodeRef}
    (hc : t.arena.HasCell p.1.offset.toNat (.leadingTo p.2 p.1.stamp next)) :
    t.Shows p.1 p.2 ((Cell.leadingTo p.2 p.1.stamp next).next t.arena.id) :=
  shows_of_cell hc (h.stored.owned p hp).1 (h.stored.aligned hp)

/-- What writing the slot of `node` leaves of the cells of the other nodes, which
share no byte with it in a table `u` that stores them all. -/
theorem frame (h : t.Keeps live s) {u : NodeTable} (hu : u.Stored ((node, v) :: others))
    (hsub : others ⊆ s) (hsame : t.arena.SameOutside t'.arena node.offset.toNat Node.size) :
    ∀ q ∈ others, ∃ next,
      t.arena.HasCell q.1.offset.toNat (.leadingTo q.2 q.1.stamp next) ∧
      t'.arena.HasCell q.1.offset.toNat (.leadingTo q.2 q.1.stamp next) := by
  intro q hq
  obtain ⟨next, hc⟩ := h.cell q (hsub hq)
  exact ⟨next, hc, hc.frame hsame (hu.apart hq)⟩

theorem spares (h : t.Keeps live s) {u : NodeTable} (hu : u.Stored ((node, v) :: others))
    (hsub : others ⊆ s) (hsame : t.arena.SameOutside t'.arena node.offset.toNat Node.size)
    (hothers : ∀ m ∈ live, m ≠ node → m ∈ others.nodes) : t.Spares t' node live := by
  refine ⟨hsame, fun m hm hne => ?_⟩
  obtain ⟨q, hq, rfl⟩ := List.mem_map.1 (hothers m hm hne)
  obtain ⟨next, hc, hc'⟩ := h.frame hu hsub hsame q hq
  have hshows := shows_of_cell hc' ((h.stored.owned q (hsub hq)).1.trans hsame.id.symm)
    (h.stored.aligned (hsub hq))
  rw [hsame.id] at hshows
  exact ⟨q.2, _, h.shows (hsub hq) hc, hshows⟩

/-- A table without a free slot refuses a node and is as before; another one has
a new node, which is apart from the live ones. -/
theorem create (h : t.Keeps live s) (v : UInt16) (next : Option NodeRef) :
    (t.slots ≤ live.length ∧ ∃ e log, t.create v next = .ok ⟨.error e, t, log⟩) ∨
    (live.length < t.slots ∧ ∃ node t' log, t.create v next = .ok ⟨.ok node, t', log⟩ ∧
      node ∉ live ∧ t.Owns node ∧ t.Spares t' node live ∧
      t'.arena.HasCell node.offset.toNat (.leadingTo v node.stamp next) ∧
      t'.Keeps (node :: live) ((node, v) :: s)) := by
  obtain ⟨reply, hcreate, hcase⟩ := h.stored.create v next
  rw [h.length_eq]
  cases hcase with
  | full hroom => exact .inl ⟨hroom h.isLive, _, _, hcreate⟩
  | @added node t' hlive hlive' hroom harena hstamp hnext hsame hcell hstored =>
    have hnew : node ∉ live := fun hm =>
      (List.nodup_cons.1 hstored.nodup_nodes).1 (h.nodes.mem_iff.1 hm)
    refine .inr ⟨hroom, node, t', _, hcreate, hnew, ⟨harena, ?_⟩, ?_, hcell, hstored, hlive',
      h.nodes.cons node, ?_⟩
    · rw [hstamp]
      exact takeStamp_ne_zero t
    · exact h.spares hstored (List.Subset.refl s) hsame fun m hm _ => h.nodes.mem_iff.1 hm
    · exact List.forall_mem_cons.2 ⟨⟨next, hcell⟩, fun q hq =>
        (h.frame hstored (List.Subset.refl s) hsame q hq).imp fun _ => And.right⟩

/-- A live node can be led anywhere. -/
theorem setNext (h : t.Keeps live ((node, v) :: others)) (next : Option NodeRef) :
    ∃ a, t.setNext node next = .ok (t.withArena a) ∧ t.Spares (t.withArena a) node live ∧
      a.HasCell node.offset.toNat (.leadingTo v node.stamp next) ∧
      (t.withArena a).Keeps live ((node, v) :: others) := by
  obtain ⟨old, hold⟩ := h.cell _ List.mem_cons_self
  obtain ⟨a, hset, hsame, hcell, hstored⟩ := h.stored.setNext hold next
  have hsame : t.arena.SameOutside (t.withArena a).arena node.offset.toNat Node.size := hsame
  refine ⟨a, hset, ?_, hcell, hstored, h.isLive, h.nodes, ?_⟩
  · exact h.spares h.stored (List.subset_cons_self _ _) hsame fun m => h.mem_others
  · exact List.forall_mem_cons.2 ⟨⟨next, hcell⟩, fun q hq =>
      (h.frame h.stored (List.subset_cons_self _ _) hsame q hq).imp fun _ => And.right⟩

/-- Where a live node is released its slot is blank. -/
theorem release (h : t.Keeps live ((node, v) :: others)) :
    ∃ t' log, t.release node = .ok (t', log) ∧ t.Spares t' node live ∧
      t'.arena.HasCell node.offset.toNat {} ∧ t'.Keeps (live.erase node) others := by
  obtain ⟨t', hrelease, hsame, hstored, hlive, -⟩ := h.stored.release h.isLive
  refine ⟨t', _, hrelease, ?_, ?_, hstored, hlive, ?_, fun q hq =>
    (h.frame h.stored (List.subset_cons_self _ _) hsame q hq).imp fun _ => And.right⟩
  · exact h.spares h.stored (List.subset_cons_self _ _) hsame fun m => h.mem_others
  · have hp : (node, v) ∈ (node, v) :: others := List.mem_cons_self
    refine hstored.blank (h.stored.aligned hp) ?_ fun q hq hoff => ?_
    · rw [hsame.capacity]
      exact h.stored.tidy.sound.wellFormed.inside _ (h.stored.mem_blocks hp)
    · exact (List.nodup_cons.1 h.stored.nodup).1 (List.mem_map.2 ⟨q, hq, hoff⟩)
  · have hperm := h.nodes.erase node
    rwa [Sequence.nodes, List.map_cons, List.erase_cons_head] at hperm

end Keeps

/-- After any calls on a table that was empty it keeps the live nodes. -/
theorem Use.keeps (h : start.Use live t) (hstart : start.Keeps [] []) : ∃ s, t.Keeps live s := by
  induction h with
  | nil => exact ⟨[], hstart⟩
  | @snoc live live' t t' a h hlive hact ih =>
    obtain ⟨s, hkeeps⟩ := ih
    cases a with
    | create v next =>
      rcases hkeeps.create v next with
        ⟨-, e, log, hcreate⟩ | ⟨-, node, t₁, log, hcreate, -, -, -, -, hkeeps'⟩
      · simp only [act, hcreate, Checked.ok_bind] at hact
        obtain ⟨rfl, rfl⟩ := Prod.mk.inj (Except.ok.inj hact)
        exact ⟨s, hkeeps⟩
      · simp only [act, hcreate, Checked.ok_bind] at hact
        obtain ⟨rfl, rfl⟩ := Prod.mk.inj (Except.ok.inj hact)
        exact ⟨_, hkeeps'⟩
    | setNext node next =>
      obtain ⟨v, others, hfront⟩ := hkeeps.front (hlive node (List.mem_singleton_self node))
      obtain ⟨a, hset, -, -, hkeeps'⟩ := hfront.setNext next
      simp only [act, hset, Checked.ok_bind] at hact
      obtain ⟨rfl, rfl⟩ := Prod.mk.inj (Except.ok.inj hact)
      exact ⟨_, hkeeps'⟩
    | release node =>
      obtain ⟨v, others, hfront⟩ := hkeeps.front (hlive node (List.mem_singleton_self node))
      obtain ⟨t₁, log, hrelease, -, -, hkeeps'⟩ := hfront.release
      simp only [act, hrelease, Checked.ok_bind] at hact
      obtain ⟨rfl, rfl⟩ := Prod.mk.inj (Except.ok.inj hact)
      exact ⟨_, hkeeps'⟩

/-- A table of which nothing is used yet keeps no node. -/
theorem keeps_of_initialise {supply : Supply} {config : Pool.Config}
    (hinit : (initialise supply config).answer = .ok start) : start.Keeps [] [] := by
  have hchain : (Chain.initialise supply config).answer = .ok { table := start } := by
    simp only [Chain.initialise, hinit]
  obtain ⟨hempty, hmax, -⟩ := Chain.initialise_ok hchain
  obtain rfl : start = (Chain.empty supply.next config).table := congrArg Chain.table hempty
  have hholds := (Chain.ledger_empty supply.next hmax).holds
  exact ⟨hholds.stored, rfl, .refl _, List.forall_mem_nil _⟩

/-- Whatever was done with a table before, a call on a live node or for a new
one is carried out on the slot of this node only: the table shows of it what it
was created with or is led to, blank if it was released, and of all other nodes
what it showed before. -/
theorem records_of_use {supply : Supply} {config : Pool.Config}
    (hinit : (initialise supply config).answer = .ok start) (h : start.Use live t)
    (hnext : ∀ n ∈ next, t.Owns n) :
    (∀ v, ∃ reply, t.create v next = .ok reply ∧
      ((∃ e, reply.answer = .error e) ↔ t.slots ≤ live.length) ∧
      (∀ e, reply.answer = .error e → reply.state = t) ∧
      ∀ node, reply.answer = .ok node → node ∉ live ∧ t.Owns node ∧
        reply.state.Shows node v next ∧ t.Spares reply.state node live) ∧
    ∀ node ∈ live,
      (∃ t' v old, t.setNext node next = .ok t' ∧ t.Shows node v old ∧ t'.Shows node v next ∧
        t.Spares t' node live) ∧
      ∃ t' log, t.release node = .ok (t', log) ∧ t'.Blank node.offset.toNat ∧
        t.Spares t' node live := by
  obtain ⟨s, hkeeps⟩ := h.keeps (keeps_of_initialise hinit)
  refine ⟨fun v => ?_, fun node hn => ?_⟩
  · rcases hkeeps.create v next with ⟨hfull, e, log, hcreate⟩ |
      ⟨hroom, node, t', log, hcreate, hnew, howns, hspares, hcell, hkeeps'⟩
    · exact ⟨_, hcreate, iff_of_true ⟨_, rfl⟩ hfull, fun _ _ => rfl,
        fun node hnode => nomatch hnode⟩
    · have hmade : ∀ e : Error, (.ok node : Except Error NodeRef) ≠ .error e :=
        fun e he => nomatch he
      refine ⟨_, hcreate, iff_of_false (not_exists.2 hmade) (Nat.not_le_of_lt hroom),
        fun e he => absurd he (hmade e), fun node' hnode => ?_⟩
      obtain rfl := Except.ok.inj hnode
      have hshows := hkeeps'.shows List.mem_cons_self hcell
      rw [hspares.same.id, next_leadingTo hnext] at hshows
      exact ⟨hnew, howns, hshows, hspares⟩
  · obtain ⟨v, others, hfront⟩ := hkeeps.front hn
    obtain ⟨old, hold⟩ := hfront.cell _ List.mem_cons_self
    obtain ⟨a, hset, hspares, hcell, hkeeps'⟩ := hfront.setNext next
    have hshows := hkeeps'.shows List.mem_cons_self hcell
    have hid : (t.withArena a).arena.id = t.arena.id := hspares.same.id
    rw [hid, next_leadingTo hnext] at hshows
    obtain ⟨t', log, hrelease, hspares', hblank, -⟩ := hfront.release
    exact ⟨⟨_, v, _, hset, hfront.shows List.mem_cons_self hold, hshows, hspares⟩,
      t', log, hrelease, blank_of_cell hblank, hspares'⟩

/-- A node was led elsewhere and another one released: a new node is in the slot
that is free again, and leads to the one that is left. -/
theorem records_of_use_reused :
    let a : NodeRef := ⟨⟨1⟩, 0, 1⟩
    let b : NodeRef := ⟨⟨1⟩, 16, 2⟩
    let d : NodeRef := ⟨⟨1⟩, 0, 3⟩
    let as : List Act := [.create 7 none, .create 8 (some a), .setNext a (some b), .release a]
    ∃ start live t, (initialise {} ⟨40, false⟩).answer = .ok start ∧
      start.replay [] as = some (live, t) ∧ live = [b] ∧ t.Owns b ∧
      ∃ reply, t.create 9 (some b) = .ok reply ∧ reply.answer = .ok d ∧
        reply.state.Shows d 9 (some b) ∧ t.Spares reply.state d live := by
  intro a b d as
  have hany : ((Chain.empty ⟨1⟩ ⟨40, false⟩).table.replay [] as).any (fun last =>
      decide (last.1 = [b] ∧ last.2.Owns b) &&
      (last.2.create 9 (some b)).toOption.any fun reply => reply.answer.toOption == some d) =
        true := by decide
  obtain ⟨⟨live, t⟩, hreplay, hlast⟩ := (Option.any_eq_true _ _).1 hany
  obtain ⟨hstate, hmade⟩ := Bool.and_eq_true_iff.1 hlast
  obtain ⟨hlive, howns⟩ := of_decide_eq_true hstate
  have hnext : ∀ n ∈ some b, t.Owns n := fun n hn => by
    obtain rfl := Option.some.inj hn
    exact howns
  obtain ⟨hcreate, -⟩ := @records_of_use t _ live (some b) {} ⟨40, false⟩ rfl
    (Use.nil.replay hreplay) hnext
  obtain ⟨reply, hreply, -, -, hok⟩ := hcreate 9
  rw [hreply] at hmade
  have hanswer : reply.answer = .ok d := by
    cases hr : reply.answer with
    | error e => simp [Except.toOption, hr] at hmade
    | ok n => simpa [Except.toOption, hr] using hmade
  obtain ⟨-, -, hshows, hspares⟩ := hok d hanswer
  exact ⟨_, live, t, rfl, hreplay, hlive, howns, reply, hreply, hanswer, hshows, hspares⟩

end NodeTable
end FirstFit
