/-
# Slots that exist

A request touches a node through the lock of its slot, at an offset that is
taken from the pool, from the head, from a reference, or from the bytes of
another node. Bytes are trusted: nothing checks an offset that a link gives.
Yet every such offset is that of a slot that the arena has, whether the chain
is live or cleaned up, and a node that is released is one that the pool takes
back.

Key definitions: `NodeTable.Leads`, `NodeTable.Releases`, `Chain.Locks`,
`NodeTable.Lockable`, `Chain.Secure`.
Key theorems: `Leads.mem_nodes`, `Releases.mem_nodes`, `Holds.lockable`,
`Run.lossless`, `secure_of_run`.
-/
import FirstFit.Proofs.Chain.References

namespace FirstFit

/-! ### Where links lead -/

namespace NodeTable

open Chain (Sequence Event)
open Chain.Sequence (Linked Owned first)

variable {t : NodeTable} {s : Sequence} {head : Option NodeRef} {node : NodeRef}

/-- The links from `head` on lead to the node. -/
inductive Leads (t : NodeTable) : Option NodeRef → NodeRef → Prop
  | here (n : NodeRef) : Leads t (some n) n
  | step {n m : NodeRef} {next : Option NodeRef} (hnext : t.next n = .ok next)
      (h : Leads t next m) : Leads t (some n) m

/-- Nodes are released from `head` on, each after its link was read, and the
node is one of them. -/
inductive Releases : NodeTable → Option NodeRef → NodeRef → Prop
  | here (t : NodeTable) (n : NodeRef) : Releases t (some n) n
  | step {t t' : NodeTable} {n m : NodeRef} {next : Option NodeRef} {log : List Event}
      (hnext : t.next n = .ok next) (hrelease : t.release n = .ok (t', log))
      (h : Releases t' next m) : Releases t (some n) m

/-- Links between the nodes of a sequence lead to nothing else. -/
theorem Leads.mem_nodes (h : t.Leads head node) : ∀ {s : Sequence}, head = first none s →
    Linked t.arena none s → Owned t.arena.id s → node ∈ s.nodes := by
  induction h with
  | here n =>
    intro s hs hl ho
    cases s with
    | nil => exact nomatch hs
    | cons p s => exact Option.some.inj hs ▸ List.mem_cons_self
  | @step n m next hnext h ih =>
    intro s hs hl ho
    cases s with
    | nil => exact nomatch hs
    | cons p s =>
      obtain rfl : n = p.1 := Option.some.inj hs
      have hfirst := Except.ok.inj (hnext.symm.trans (next_linked hl ho))
      exact List.mem_cons_of_mem _ (ih hfirst hl.2 ho.tail)

/-- The nodes that are released are those of the sequence: each release leaves a
table that stores the rest of it. -/
theorem Releases.mem_nodes (h : Releases t head node) : ∀ {s : Sequence}, head = first none s →
    t.Stored s → Linked t.arena none s → node ∈ s.nodes := by
  induction h with
  | here t n =>
    intro s hs hstored hl
    cases s with
    | nil => exact nomatch hs
    | cons p s => exact Option.some.inj hs ▸ List.mem_cons_self
  | @step t t' n m next log hnext hrelease h ih =>
    intro s hs hstored hl
    cases s with
    | nil => exact nomatch hs
    | cons p s =>
      obtain rfl : n = p.1 := Option.some.inj hs
      have hfirst := Except.ok.inj (hnext.symm.trans (next_linked hl hstored.owned))
      obtain ⟨t₁, hrelease₁, -, hstored₁, hlinked₁, -⟩ := Chain.release_unlinked hstored hl.2
      obtain ⟨rfl, -⟩ := Prod.mk.inj (Except.ok.inj (hrelease₁.symm.trans hrelease))
      exact List.mem_cons_of_mem _ (ih hfirst hstored₁ hlinked₁)

/-- The slot of a node has a lock, and all its bytes are in the arena. -/
structure Lockable (t : NodeTable) (node : NodeRef) : Prop where
  entry : t.slotOf node = .ok node.offset.toNat
  aligned : node.offset.toNat % Node.size = 0
  inside : node.offset.toNat + Node.size ≤ t.arena.capacity

theorem lockable_of_inside (haligned : node.offset.toNat % Node.size = 0)
    (hinside : node.offset.toNat + Node.size ≤ t.arena.capacity) : t.Lockable node :=
  ⟨slotOf_eq hinside, haligned, hinside⟩

theorem Stored.lockable (h : t.Stored s) (hn : node ∈ s.nodes) : t.Lockable node := by
  obtain ⟨p, hp, rfl⟩ := List.mem_map.1 hn
  exact lockable_of_inside (h.aligned hp) (h.tidy.sound.wellFormed.inside _ (h.mem_blocks hp))

theorem Lockable.congr {t' : NodeTable} (h : t'.Lockable node)
    (hcapacity : t'.arena.capacity = t.arena.capacity) : t.Lockable node :=
  lockable_of_inside h.aligned (Nat.le_trans h.inside (Nat.le_of_eq hcapacity))

/-- A reference whose slot is looked at passed the check of its offset. -/
theorem lockable_of_standing (h : t.standing node ≠ .ok .foreign) : t.Lockable node := by
  by_cases hslot : node.arena = t.arena.id ∧ node.offset.toNat % Node.size = 0 ∧
      node.offset.toNat / Node.size < t.slots
  · exact lockable_of_inside hslot.2.1 (add_le_of_lt_slots hslot.2.1 hslot.2.2)
  · exact absurd (by rw [standing, if_neg hslot]; rfl) h

/-- A node of a sequence can be released, and the pool takes its slot back. -/
theorem Stored.release_mem (h : t.Stored s) (hn : node ∈ s.nodes) :
    ∃ t', t.release node = .ok (t', [.pool (.freed node.offset.toNat Node.size)]) := by
  obtain ⟨p, hp, rfl⟩ := List.mem_map.1 hn
  obtain ⟨pre, post, rfl⟩ := List.append_of_mem hp
  obtain ⟨t', hrelease, -⟩ := (h.perm List.perm_middle).release (h.live hp)
  exact ⟨t', hrelease⟩

/-- The pool of a table never gives an offset that is no word. -/
theorem Tidy.toWord_eq (ht : t.Tidy) {h : Pool.Handle} {p : Pool} {log : List Pool.Event}
    (halloc : t.pool.allocate Node.size = .ok ⟨.ok h, p, log⟩) :
    ∃ w, Size.toWord h.offset = .ok w ∧ w.toNat = h.offset := by
  cases hlive : t.isLive with
  | false =>
    rw [pool_of_ended hlive] at halloc
    exact nomatch congrArg Reply.answer (Except.ok.inj halloc)
  | true =>
    obtain ⟨r, hr, hcase⟩ := Space.allocate_cases ht.sound Node.size
    rw [pool_of_live hlive, Pool.allocate_some hr] at halloc
    have hanswer := congrArg Reply.answer (Except.ok.inj halloc)
    cases hcase with
    | refused => exact nomatch hanswer
    | outOfSpace => exact nomatch hanswer
    | @placed pre post offset arena ha hsplit hfit hbytes =>
      obtain rfl := Except.ok.inj hanswer
      have hword := ht.lt_size hfit.inside
      exact ⟨_, Size.toWord_of_lt hword, UInt32.toNat_ofNat_of_lt' hword⟩

end NodeTable

/-! ### What a request locks -/

namespace Chain

variable {c start : Chain} {s : Sequence} {r : Request} {past : List Exchange} {node : NodeRef}
  {t : NodeTable} {id : ArenaId} {capacity : Nat} {config : Pool.Config}
  {reply : Reply Error Chain Event Answer}

/-- A table whose links a request follows: the one from before it, or the one
with the node that it created. -/
inductive Stage (c : Chain) (r : Request) : NodeTable → Prop
  | before : Stage c r c.table
  | created {v : UInt16} {next : Option NodeRef} {node : NodeRef} {t : NodeTable}
      {log : List Event} (hwants : r.wants = some (v, next))
      (hcreate : c.table.create v next = .ok ⟨.ok node, t, log⟩) : Stage c r t

/-- The request locks the slot at the offset of the node, if it does not stop before. -/
inductive Locks (c : Chain) (r : Request) : NodeRef → Prop
  /-- The node was just created. -/
  | created {n : NodeRef} (h : c.creation r = some n) : Locks c r n
  /-- It is the head, or a link leads there on the way from the head. -/
  | walked {t : NodeTable} {n : NodeRef} (ht : Stage c r t) (h : t.Leads c.head n) : Locks c r n
  /-- It is named from outside, and its offset is that of a slot. -/
  | named {t : NodeTable} {n : NodeRef} (ht : Stage c r t) (hn : n ∈ r.nodes)
      (h : t.standing n ≠ .ok .foreign) : Locks c r n
  /-- A link leads there on the way from a node that is named from outside. -/
  | ranged {n m : NodeRef} (hn : n ∈ r.nodes) (hlive : c.table.standing n = .ok .live)
      (h : c.table.Leads (some n) m) : Locks c r m
  /-- It is released with all the others. -/
  | released {n : NodeRef} (hr : r.ends = true) (h : c.table.Releases c.head n) : Locks c r n

/-- What a request finds in the table with the node that it created. -/
theorem Holds.extended (h : c.Holds s) {v : UInt16} {next : Option NodeRef} {log : List Event}
    (hcreate : c.table.create v next = .ok ⟨.ok node, t, log⟩) : c.Extended s v next node t := by
  rcases h.create v next with ⟨e, log', hcreate', -⟩ | ⟨node', t', hcreate', he⟩
  · exact nomatch hcreate.symm.trans hcreate'
  · obtain ⟨hnode, rfl, -⟩ := Reply.mk.inj (Except.ok.inj (hcreate.symm.trans hcreate'))
    obtain rfl := Except.ok.inj hnode
    exact he

/-- A node that the storage gave to a request was created with what it wants. -/
theorem exists_create (h : c.creation r = some node) :
    ∃ v next t log, r.wants = some (v, next) ∧
      c.table.create v next = .ok ⟨.ok node, t, log⟩ := by
  unfold creation at h
  split at h
  · rename_i v next hwants
    obtain ⟨⟨answer, t, log⟩, hmade, hanswer⟩ := Option.bind_eq_some_iff.1 h
    cases hcreate : c.table.create v next with
    | error e => rw [hcreate] at hmade; exact nomatch hmade
    | ok made =>
      rw [hcreate] at hmade
      obtain rfl := Option.some.inj hmade
      cases answer with
      | error e => exact nomatch hanswer
      | ok n =>
        obtain rfl := Option.some.inj hanswer
        exact ⟨v, next, t, log, hwants, hcreate⟩
  · exact nomatch h

/-- A stage has the links of the sequence, and as many slots as the table before. -/
theorem Stage.linked (ht : Stage c r t) (h : c.Holds s) :
    Sequence.Linked t.arena none s ∧ t.arena.id = c.table.arena.id ∧
      t.arena.capacity = c.table.arena.capacity := by
  cases ht with
  | before => exact ⟨h.linked, rfl, rfl⟩
  | created _ hcreate =>
    have he := h.extended hcreate
    exact ⟨he.linked, he.same.id, he.same.capacity⟩

/-- Every slot that a request locks is one that the arena has. -/
theorem Holds.lockable (h : c.Holds s)
    (hstamp : ∀ n ∈ r.nodes, n.arena = c.table.arena.id → n.stamp ≠ 0)
    (hlocks : c.Locks r node) : c.table.Lockable node := by
  cases hlocks with
  | created hcreation =>
    obtain ⟨v, next, t, log, -, hcreate⟩ := exists_create hcreation
    have he := h.extended hcreate
    exact (he.stored.lockable List.mem_cons_self).congr he.same.capacity
  | walked ht hleads =>
    obtain ⟨hlinked, hid, -⟩ := ht.linked h
    exact h.stored.lockable (hleads.mem_nodes h.head hlinked (hid ▸ h.stored.owned))
  | named ht hn hstanding =>
    obtain ⟨-, -, hcapacity⟩ := ht.linked h
    exact (NodeTable.lockable_of_standing hstanding).congr hcapacity
  | @ranged n m hn hlive hleads =>
    rcases h.checkLive_cases n (hstamp n hn) with ⟨hm, -⟩ | ⟨-, log, hrefused, -⟩
    · obtain ⟨pre, v, post, rfl, -⟩ := Sequence.exists_split hm
      have hlinked := (Sequence.linked_append.1 h.linked).2
      have hmem := hleads.mem_nodes (s := (n, v) :: post) rfl hlinked fun p hp =>
        h.stored.owned p (List.mem_append_right _ hp)
      refine h.stored.lockable ?_
      rw [Sequence.nodes, List.map_append]
      exact List.mem_append_right _ hmem
    · rw [NodeTable.checkLive, hlive] at hrefused
      cases hrefused
  | released _ hreleases =>
    exact h.stored.lockable (hreleases.mem_nodes h.head h.stored h.linked)

/-! ### Storage that is given back -/

theorem lost_of_serve (h : c.Holds s) (hserve : c.serve r = .ok reply)
    (hstamp : ∀ n ∈ r.nodes, n.arena = c.table.arena.id → n.stamp ≠ 0) :
    lost reply.log = 0 := by
  obtain ⟨reply', hserve', hcase⟩ := serve_cases h r hstamp
  obtain rfl := Except.ok.inj (hserve.symm.trans hserve')
  rcases hcase with ⟨_, hs⟩ | ⟨hlogged, -⟩
  · exact hs.logged.lost
  · exact hlogged.lost

theorem lost_concat {x : Exchange} :
    lost ((past ++ [x]).flatMap Exchange.log) = lost (past.flatMap Exchange.log) + lost x.log := by
  rw [List.flatMap_append, List.flatMap_singleton]
  exact List.countP_append

/-- No node of a run lost its storage. -/
theorem Run.lossless (hstart : Ledger id capacity [] start []) (h : start.Run past c)
    (hmade : made past < UInt32.size) : lost (past.flatMap Exchange.log) = 0 := by
  induction h with
  | nil => rfl
  | @snoc past c r reply h hknown hserve ih =>
    rw [made_concat] at hmade
    have hbefore : made past < UInt32.size := Nat.lt_of_le_of_lt (Nat.le_add_right _ _) hmade
    obtain ⟨s, -, hledger⟩ := h.ledger hstart hbefore
    rw [lost_concat, ih hbefore]
    refine (Nat.zero_add _).trans (lost_of_serve hledger.holds hserve ?_)
    intro n hn ha
    exact (hledger.bounded n (hknown n hn ha)).2.1

/-- Whatever is asked next, nothing is locked that does not exist, and nothing
is lost. -/
structure Secure (past : List Exchange) (c : Chain) : Prop where
  lossless : lost (past.flatMap Exchange.log) = 0
  served : ∀ r : Request, (∀ n ∈ r.nodes, n.arena = c.table.arena.id → n ∈ issued past) →
    ∃ reply, c.serve r = .ok reply ∧ lost reply.log = 0
  locked : ∀ r : Request, (∀ n ∈ r.nodes, n.arena = c.table.arena.id → n ∈ issued past) →
    ∀ n, c.Locks r n → c.table.Lockable n
  /-- The offset of a new node is the one that the pool gave. -/
  exact : ∀ h p log, c.table.pool.allocate Node.size = .ok ⟨.ok h, p, log⟩ →
    ∃ w, Size.toWord h.offset = .ok w ∧ w.toNat = h.offset
  /-- The pool takes back a node that was created and not put in. -/
  discarded : ∀ v next n t log, c.table.create v next = .ok ⟨.ok n, t, log⟩ →
    ∃ t', t.release n = .ok (t', [.pool (.freed n.offset.toNat Node.size)])
  /-- The pool takes back any node of the chain. -/
  released : ∃ s, c.sequence = .ok s ∧ ∀ n ∈ s.nodes,
    ∃ t, c.table.release n = .ok (t, [.pool (.freed n.offset.toNat Node.size)])

theorem Ledger.secure (h : Ledger id capacity past c s)
    (hlossless : lost (past.flatMap Exchange.log) = 0) : Secure past c where
  lossless := hlossless
  served := by
    intro r hknown
    obtain ⟨reply, hserve, -⟩ := h.serve fun n hn ha => hknown n hn (ha.trans h.arena.symm)
    refine ⟨reply, hserve, lost_of_serve h.holds hserve ?_⟩
    intro n hn ha
    exact (h.bounded n (hknown n hn ha)).2.1
  locked r hknown n hlocks :=
    h.holds.lockable (fun n hn ha => (h.bounded n (hknown n hn ha)).2.1) hlocks
  exact _ _ _ halloc := h.holds.stored.tidy.toWord_eq halloc
  discarded _ _ _ _ _ hcreate :=
    (h.holds.extended hcreate).stored.release_mem List.mem_cons_self
  released := ⟨s, h.holds.sequence_eq, fun _ hn => h.holds.stored.release_mem hn⟩

/-- Over an arena of any length, also one that is not a whole number of slots,
no request locks a slot that does not exist, and no node loses its storage, in
any run in which fewer than `2 ^ 32` nodes are created. -/
theorem secure_of_run (supply : Supply) {config : Pool.Config} (hpos : 1 ≤ config.capacity)
    (hmax : config.capacity ≤ NodeTable.maxCapacity) :
    ∃ start, (initialise supply config).answer = .ok start ∧
      ∀ past c, start.Run past c → made past < UInt32.size → Secure past c := by
  refine ⟨_, initialise_eq supply hpos hmax, ?_⟩
  intro past c h hmade
  have hstart := ledger_empty supply.next hmax
  obtain ⟨s, -, hledger⟩ := h.ledger hstart hmade
  exact hledger.secure (h.lossless hstart hmade)

/-- The last slot ends where the odd bytes begin. A link leads there from the
slot that was used twice, and both nodes are given back. -/
theorem secure_of_run_linked :
    let first : NodeRef := ⟨⟨1⟩, 0, 3⟩
    let last : NodeRef := ⟨⟨1⟩, 16, 2⟩
    let rs : List Request :=
      [.insert 7, .insert 8, .delete 7, .insertBefore (some last) 9]
    ∃ start past c, (initialise {} ⟨40, false⟩).answer = .ok start ∧
      start.replay [] rs = some (past, c) ∧ made past < UInt32.size ∧
      c.head = some first ∧ c.Locks (.search 8) last ∧ c.table.Lockable last ∧
      (∃ t, c.table.release last = .ok (t, [.pool (.freed 16 16)])) ∧
      ∃ reply, c.serve .cleanUp = .ok reply ∧ lost reply.log = 0 := by
  intro first last rs
  have hany : ((empty ⟨1⟩ ⟨40, false⟩).replay [] rs).any (fun reached =>
      decide (made reached.1 = 3 ∧ reached.2.head = some first ∧
        reached.2.table.next first = .ok (some last) ∧
        reached.2.sequence = .ok [(first, 9), (last, 8)])) = true := by decide
  obtain ⟨⟨past, c⟩, hreplay, hlast⟩ := (Option.any_eq_true _ _).1 hany
  obtain ⟨hcount, hhead, hnext, hsequence⟩ := of_decide_eq_true hlast
  have hmade : made past < UInt32.size := by rw [hcount]; decide
  obtain ⟨start, hstart, h⟩ := @secure_of_run {} ⟨40, false⟩ (by decide) (by decide)
  obtain rfl : empty ⟨1⟩ ⟨40, false⟩ = start := Except.ok.inj hstart
  have hsecure := h past c (Run.nil.replay hreplay) hmade
  have hlocks : c.Locks (.search 8) last :=
    .walked .before (hhead ▸ .step hnext (.here last))
  obtain ⟨s, hs, hrelease⟩ := hsecure.released
  obtain rfl := Except.ok.inj (hsequence.symm.trans hs)
  exact ⟨_, past, c, hstart, hreplay, hmade, hhead, hlocks,
    hsecure.locked (.search 8) (fun n hn => nomatch hn) last hlocks, hrelease last (by decide),
    hsecure.served .cleanUp fun n hn => nomatch hn⟩

end Chain
end FirstFit
