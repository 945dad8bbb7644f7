/-
# The slots of a chain

A pool that serves requests of any size can have room in all and yet no gap
that is long enough. The pool of a chain cannot: its blocks are slots, so what
is free is whole slots and the odd bytes at the end. A request for a node gets
the lowest slot that no node is in, and is refused only if there is none.

Key definitions: `NodeTable.exhausted`, `Sequence.LowestFree`,
`Chain.Allotted`.
Key theorems: `NodeTable.widest_of_full`, `NodeTable.create_full`,
`Stored.lowestFree`, `Ledger.allotted_given`, `Ledger.allotted_refused`,
`allotted_of_run`.
-/
import FirstFit.Proofs.Chain.References

namespace FirstFit

namespace Chain

/-- `i` is the lowest slot that none of the nodes is in. -/
structure Sequence.LowestFree (s : Sequence) (i : Nat) : Prop where
  free : ∀ p ∈ s, p.1.offset.toNat ≠ Node.size * i
  below : ∀ j < i, ∃ p ∈ s, p.1.offset.toNat = Node.size * j

end Chain

/-! ### Slots that are all in use -/

namespace NodeTable

open Chain (Event Error Sequence)
open Layout (WellFormed IsFree IsWidest)

variable {t : NodeTable} {s : Sequence} {blocks : List Block} {capacity gap : Nat} {v : UInt16}
  {node : NodeRef} {next : Option NodeRef}

/-- If there are as many blocks as slots, one starts at each slot. -/
theorem start_of_full (hw : WellFormed blocks capacity) (hslot : ∀ b ∈ blocks, IsSlot b)
    (hfull : capacity / Node.size ≤ blocks.length) {i : Nat} (hi : i < capacity / Node.size) :
    ∃ b ∈ blocks, b.start = Node.size * i := by
  have hsub : blocks.map Block.start ⊆ (List.range (capacity / Node.size)).map (Node.size * ·) := by
    intro start hstart
    obtain ⟨b, hb, rfl⟩ := List.mem_map.1 hstart
    obtain ⟨hlen, halign⟩ := hslot b hb
    have hstop := hw.inside b hb
    rw [Block.stop, hlen] at hstop
    refine List.mem_map.2 ⟨b.start / Node.size, List.mem_range.2 ?_, ?_⟩
    · simp only [Node.size] at hstop ⊢
      omega
    · exact Nat.mul_div_cancel' (Nat.dvd_of_mod_eq_zero halign)
  have hperm :=
    (List.subperm_of_subset hw.nodup_start hsub).perm_of_length_le (by simpa using hfull)
  have hmem : Node.size * i ∈ (List.range (capacity / Node.size)).map (Node.size * ·) :=
    List.mem_map.2 ⟨i, List.mem_range.2 hi, rfl⟩
  exact List.mem_map.1 (hperm.mem_iff.2 hmem)

/-- Once all slots are in use the widest gap is the odd bytes behind the last one. -/
theorem widest_of_full (hw : WellFormed blocks capacity) (hslot : ∀ b ∈ blocks, IsSlot b)
    (hfull : capacity / Node.size ≤ blocks.length) :
    IsWidest blocks capacity (capacity % Node.size) := by
  have hsplit : Node.size * (capacity / Node.size) + capacity % Node.size = capacity :=
    Nat.div_add_mod _ _
  refine ⟨⟨Node.size * (capacity / Node.size), Nat.le_of_eq hsplit, ?_⟩, ?_⟩
  · intro b hb
    obtain ⟨hlen, halign⟩ := hslot b hb
    have hstop := hw.inside b hb
    refine .inl ?_
    simp only [Block.stop, hlen, Node.size] at hstop halign ⊢
    omega
  · intro o len hfree
    by_cases ho : Node.size * (capacity / Node.size) ≤ o
    · have := hfree.1
      omega
    · -- the first byte of the range is in a slot, and so in a block
      obtain ⟨b, hb, hstart⟩ := start_of_full hw hslot hfull (i := o / Node.size) (by
        simp only [Node.size] at ho ⊢
        omega)
      have hapart := hfree.2 b hb
      simp only [Block.stop, (hslot b hb).1, hstart, Node.size] at hapart
      omega

/-- Why a live table over an arena of `capacity` bytes refuses a node. -/
def exhausted (capacity : Nat) : Pool.Error :=
  if capacity < Node.size then .insufficientCapacity Node.size capacity
  else .outOfSpace Node.size (capacity % Node.size)

/-- A live table refuses a node if all its slots are in use. -/
theorem create_full (ht : t.Tidy) (hlive : t.isLive = true) (hfull : t.slots ≤ t.blocks.length)
    (v : UInt16) (next : Option NodeRef) :
    t.create v next = .ok ⟨.error (.allocationFailed (exhausted t.arena.capacity)), t,
      [.pool (.allocationRejected Node.size (exhausted t.arena.capacity))]⟩ := by
  have hw := ht.sound.wellFormed
  obtain ⟨r, hr, hcase⟩ := Space.allocate_cases ht.sound Node.size
  cases hcase with
  | refused ha =>
    have hsmall : t.space.capacity < Node.size := by
      by_contra hge
      exact nomatch ha.symm.trans (Space.assess_eq_ok.2 ⟨by decide, Nat.le_of_not_lt hge⟩)
    have he : exhausted t.arena.capacity = .insufficientCapacity Node.size t.space.capacity :=
      if_pos hsmall
    rw [Space.assess, if_neg (by decide), if_pos hsmall] at ha
    obtain rfl := Except.error.inj ha
    rw [he]
    exact create_refused hlive hr v next
  | @outOfSpace gap ha hgap hnone =>
    obtain ⟨gap', hgap', hwidest⟩ := Layout.largestGap_cases hw ht.sound.bound
    obtain rfl := Except.ok.inj (hgap.symm.trans hgap')
    obtain rfl := hwidest.unique (widest_of_full hw ht.slot hfull)
    have he : exhausted t.arena.capacity =
        .outOfSpace Node.size (t.space.capacity % Node.size) :=
      if_neg (Nat.not_lt.2 (Space.assess_eq_ok.1 ha).2)
    rw [he]
    exact create_refused hlive hr v next
  | @placed pre post offset arena ha hsplit hfit hbytes =>
    -- the new block would be one more than there are slots
    have hslot : ∀ b ∈ pre ++ post, IsSlot b := hsplit ▸ ht.slot
    have hw' := hfit.wellFormed (hsplit ▸ hw) (by decide)
    have hlen := length_le_of_slots hw' fun b hb => by
      rcases List.mem_cons.1 (List.perm_middle.mem_iff.1 hb) with rfl | hb
      · exact isSlot_of_isFirstFit hslot hfit
      · exact hslot b hb
    have hcount : t.blocks.length = (pre ++ post).length := congrArg List.length hsplit
    simp only [List.length_append, List.length_cons] at hlen hcount
    have : t.slots = t.space.capacity / Node.size := rfl
    omega

/-! ### The slot of a new node -/

/-- A new node is in the lowest slot that no node is in. -/
theorem Stored.lowestFree (h : t.Stored s) {t' : NodeTable} {log : List Event}
    (hcreate : t.create v next = .ok ⟨.ok node, t', log⟩) :
    ∃ i, node.offset.toNat = Node.size * i ∧ s.LowestFree i := by
  obtain ⟨reply, hreply, hcase⟩ := create_cases h.tidy v next
  obtain rfl := Except.ok.inj (hreply.symm.trans hcreate)
  cases hcase with
  | @made pre post offset a hlive hsplit hfit hsame hcell =>
    have hslot : ∀ b ∈ pre ++ post, IsSlot b := hsplit ▸ h.tidy.slot
    have hfree := hfit.isFree
    rw [← hsplit] at hfree
    have halign : offset.toNat = Node.size * (offset.toNat / Node.size) :=
      (Nat.mul_div_cancel' (Nat.dvd_of_mod_eq_zero (isSlot_of_isFirstFit hslot hfit).2)).symm
    refine ⟨offset.toNat / Node.size, halign, ?_, ?_⟩
    · intro p hp hoffset
      have hapart := hfree.2 _ (h.mem_blocks hp)
      simp only [Block.stop, hoffset, Node.size] at hapart
      omega
    · intro j hj
      by_contra hnone
      have hin : Node.size * j + Node.size ≤ t.space.capacity := by
        have := hfree.1
        simp only [Node.size] at hj this ⊢
        omega
      have hlower := hfit.lowest (Node.size * j) <| hsplit ▸
        isFree_of_slots h.tidy.slot (Nat.mul_mod_right _ _) hin fun b hb hstart => by
          obtain ⟨p, hp, hoffset⟩ :=
            List.mem_map.1 (h.starts.mem_iff.2 (List.mem_map.2 ⟨b, hb, hstart⟩))
          exact hnone ⟨p, hp, hoffset⟩
      simp only [Node.size] at hj hlower
      omega

end NodeTable

/-! ### What a request gets -/

namespace Chain

variable {c start : Chain} {s : Sequence} {r : Request} {past : List Exchange} {id : ArenaId}
  {capacity : Nat} {supply : Supply} {config : Pool.Config} {reply : Reply Error Chain Event Answer}

/-- What a request for a node gets from a live chain over `capacity` bytes that
holds `s`, if `count` nodes were created so far. -/
inductive Allotted (capacity count : Nat) (s : Sequence) (node : Option NodeRef)
    (reply : Reply Error Chain Event Answer) : Prop
  /-- There is room: the node is in the lowest free slot and has the next stamp,
  and if the request is refused it is for another reason. -/
  | given {n : NodeRef} {i : Nat} (hroom : s.length < capacity / Node.size)
      (hnode : node = some n) (hoffset : n.offset.toNat = Node.size * i) (hslot : s.LowestFree i)
      (hstamp : count + 1 < UInt32.size → n.stamp.toNat = count + 1)
      (hlog : created reply.log = 1) (hnamed : ∀ m, reply.answer = .ok (.node m) → m = n)
      (hrefused : ∀ e, reply.answer ≠ .error (.allocationFailed e))
  /-- All slots are in use. -/
  | full (hfull : s.length = capacity / Node.size) (hpos : 1 ≤ capacity / Node.size)
      (hnode : node = none) (hlog : created reply.log = 0)
      (hanswer : reply.answer =
        .error (.allocationFailed (.outOfSpace Node.size (capacity % Node.size))))
  /-- There is no slot at all. -/
  | slotless (hzero : capacity / Node.size = 0) (hnode : node = none)
      (hlog : created reply.log = 0)
      (hanswer : reply.answer =
        .error (.allocationFailed (.insufficientCapacity Node.size capacity)))

theorem Allotted.isSome_iff {count : Nat} {node : Option NodeRef}
    (h : Allotted capacity count s node reply) :
    node.isSome = true ↔ s.length < capacity / Node.size := by
  cases h with
  | given hroom hnode => rw [hnode]; exact ⟨fun _ => hroom, fun _ => rfl⟩
  | full hfull _ hnode => rw [hnode, hfull]; simp
  | slotless hzero hnode => rw [hnode, hzero]; simp

/-- As many nodes are created as the log says. -/
theorem created_of_serve (h : c.Holds s) (hserve : c.serve r = .ok reply)
    (hstamp : ∀ n ∈ r.nodes, n.arena = c.table.arena.id → n.stamp ≠ 0) :
    created reply.log = (c.creation r).toList.length := by
  obtain ⟨reply', hserve', hcase⟩ := serve_cases h r hstamp
  obtain rfl := Except.ok.inj (hserve.symm.trans hserve')
  rcases hcase with ⟨offer, hs⟩ | ⟨⟨hlog, -⟩, n, v, rfl, hanswer, -⟩
  · rcases hs.creation h with ⟨hnone, hlog⟩ | ⟨n, hn, hlog, -⟩
    · rw [hnone, hlog]; rfl
    · rw [hn, hlog]; rfl
  · have hadded : (n, v) ∈ Exchange.added ⟨.insertAfter (some n) v, reply.answer, reply.log⟩ :=
      Exchange.mem_added.2 ⟨rfl, hanswer⟩
    rw [creation_of_added hserve hadded, hlog]
    rfl

/-- A request that got its node is not refused for want of storage. -/
theorem Placing.not_allocationFailed {v : UInt16} {next : Option NodeRef}
    {inner : Reply Error Chain Event NodeRef} {node : NodeRef} {t : NodeTable} {log : List Event}
    (hr : c.Placing v next r.missing inner)
    (hcreate : c.table.create v next = .ok ⟨.ok node, t, log⟩) (e : Pool.Error) :
    inner.answer ≠ .error (.allocationFailed e) := by
  intro he
  cases hr with
  | refused hcreate' => exact nomatch hcreate'.symm.trans hcreate
  | @discarded _ _ _ before after e' _ _ hmissing hdiscard =>
    obtain ⟨⟨table, log⟩, -, hreply⟩ := Checked.bind_eq_ok.1 hdiscard
    obtain rfl := Except.ok.inj hreply
    obtain rfl := Except.error.inj he
    cases r <;> exact nomatch hmissing
  | placed _ hanswer => exact nomatch hanswer.symm.trans he

theorem creation_eq {v : UInt16} {next : Option NodeRef} (hwants : r.wants = some (v, next)) :
    c.creation r = creation.given (c.table.create v next) := by
  rw [creation, hwants]

theorem Ledger.allotted_given (h : Ledger id capacity past c s) (hlive : c.table.isLive = true)
    (hcreates : r.creates = true) (hserve : c.serve r = .ok reply)
    (hlog : created reply.log = (c.creation r).toList.length)
    (hroom : s.length < capacity / Node.size) :
    Allotted capacity (made past) s (c.creation r) reply := by
  obtain ⟨⟨v, next⟩, hwants⟩ := Option.isSome_iff_exists.1 (r.creates_eq ▸ hcreates)
  obtain ⟨inner, hinner, hplacing⟩ := placing_of_serve hserve hwants
  rcases h.holds.create v next with ⟨e, log, -, hoffer, -⟩ | ⟨n, t', hcreate, he⟩
  · have hslots : c.table.slots = capacity / Node.size := congrArg (· / Node.size) h.capacity
    exact absurd (hoffer hlive) (Nat.not_le_of_lt (hslots ▸ hroom))
  · have hnode : c.creation r = some n := by rw [creation_eq hwants, hcreate]; rfl
    obtain ⟨i, hoffset, hslot⟩ := h.holds.stored.lowestFree hcreate
    obtain ⟨-, -, -, hstamp, -⟩ := he.offers
    rw [hnode] at hlog
    refine .given hroom hnode hoffset hslot ?_ hlog ?_ ?_
    · exact fun hmade => hstamp ▸ h.toNat_takeStamp hmade
    · intro m hm
      rw [← hinner] at hm
      obtain ⟨m', hm', hname⟩ := Reply.ok_of_map hm
      obtain rfl := Answer.node.inj hname
      have hcreation := (creation_eq hwants).symm.trans hnode
      exact Option.some.inj ((hplacing.creation hm').symm.trans hcreation)
    · intro e hrefused
      rw [← hinner] at hrefused
      exact hplacing.not_allocationFailed hcreate e (Reply.error_of_map hrefused)

theorem Ledger.allotted_refused (h : Ledger id capacity past c s) (hlive : c.table.isLive = true)
    (hcreates : r.creates = true) (hserve : c.serve r = .ok reply)
    (hlog : created reply.log = (c.creation r).toList.length)
    (hfull : capacity / Node.size ≤ s.length) :
    Allotted capacity (made past) s (c.creation r) reply := by
  obtain ⟨⟨v, next⟩, hwants⟩ := Option.isSome_iff_exists.1 (r.creates_eq ▸ hcreates)
  obtain ⟨inner, hinner, hplacing⟩ := placing_of_serve hserve hwants
  have hslots : c.table.slots = capacity / Node.size := congrArg (· / Node.size) h.capacity
  have hstored := h.holds.stored
  have hcreate := NodeTable.create_full hstored.tidy hlive
    (hstored.length_eq ▸ hslots.symm ▸ hfull) v next
  rw [h.capacity] at hcreate
  have hnode : c.creation r = none := by rw [creation_eq hwants, hcreate]; rfl
  rw [hnode] at hlog
  have hanswer : reply.answer = .error (.allocationFailed (NodeTable.exhausted capacity)) := by
    rw [← hinner]
    cases hplacing with
    | refused hcreate' =>
      obtain ⟨he, -⟩ := Reply.mk.inj (Except.ok.inj (hcreate'.symm.trans hcreate))
      exact congrArg (Except.map Answer.node) he
    | discarded hcreate' => exact nomatch hcreate'.symm.trans hcreate
    | placed hcreate' => exact nomatch hcreate'.symm.trans hcreate
  rw [NodeTable.exhausted] at hanswer
  by_cases hsmall : capacity < Node.size
  · rw [if_pos hsmall] at hanswer
    exact .slotless (Nat.div_eq_of_lt hsmall) hnode hlog hanswer
  · rw [if_neg hsmall] at hanswer
    have hpos : 1 ≤ capacity / Node.size := (Nat.le_div_iff_mul_le (by decide)).2 (by omega)
    exact .full (Nat.le_antisymm (hslots ▸ hstored.length_le) hfull) hpos hnode hlog hanswer

/-- Whatever was asked of a chain before, while it is live and fewer than
`2 ^ 32` nodes were created, its storage is as good as a row of slots: a
request for a node gets the lowest one that is free, and is refused only if
all are in use. -/
theorem allotted_of_run (hinit : (initialise supply config).answer = .ok start)
    (h : start.Run past c) (hmade : made past < UInt32.size) (hlive : c.table.isLive = true) :
    ∃ s, c.sequence = .ok s ∧ c.count = .ok s.length ∧
      ∀ r : Request, r.creates = true →
        (∀ n ∈ r.nodes, n.arena = c.table.arena.id → n ∈ issued past) →
        ∃ reply, c.serve r = .ok reply ∧
          ((c.creation r).isSome = true ↔ s.length < config.capacity / Node.size) ∧
          Allotted config.capacity (made past) s (c.creation r) reply := by
  obtain ⟨rfl, hmax, -⟩ := initialise_ok hinit
  obtain ⟨s, -, hledger⟩ := h.ledger (ledger_empty supply.next hmax) hmade
  refine ⟨s, hledger.holds.sequence_eq, count_eq hledger.holds, ?_⟩
  intro r hcreates hknown
  obtain ⟨reply, hserve, -⟩ :=
    hledger.serve fun n hn ha => hknown n hn (ha.trans hledger.arena.symm)
  have hlog := created_of_serve hledger.holds hserve fun n hn ha =>
    (hledger.bounded n (hknown n hn ha)).2.1
  have hallotted : Allotted config.capacity (made past) s (c.creation r) reply := by
    rcases Nat.lt_or_ge s.length (config.capacity / Node.size) with hroom | hfull
    · exact hledger.allotted_given hlive hcreates hserve hlog hroom
    · exact hledger.allotted_refused hlive hcreates hserve hlog hfull
  exact ⟨reply, hserve, hallotted.isSome_iff, hallotted⟩

/-- The lower of two slots was given up, and another node was in it that was
given back at once: the next one there has the fourth stamp. -/
theorem allotted_of_run_reused :
    let elsewhere : NodeRef := ⟨⟨9⟩, 0, 1⟩
    let rs : List Request :=
      [.insert 7, .insert 8, .delete 7, .insertBefore (some elsewhere) 5]
    ∃ start past c, (initialise {} ⟨40, false⟩).answer = .ok start ∧
      start.replay [] rs = some (past, c) ∧ made past < UInt32.size ∧ c.table.isLive = true ∧
      ∃ reply, c.serve (.insert 9) = .ok reply ∧
        Allotted 40 3 [(⟨⟨1⟩, 16, 2⟩, 8)] (some ⟨⟨1⟩, 0, 4⟩) reply := by
  intro elsewhere rs
  have hany : ((empty ⟨1⟩ ⟨40, false⟩).replay [] rs).any (fun last =>
      decide (made last.1 = 3 ∧ last.2.table.isLive = true ∧
        last.2.creation (.insert 9) = some ⟨⟨1⟩, 0, 4⟩) &&
      last.2.sequence.toOption == some [(⟨⟨1⟩, 16, 2⟩, 8)]) = true := by decide
  obtain ⟨⟨past, c⟩, hreplay, hlast⟩ := (Option.any_eq_true _ _).1 hany
  obtain ⟨hstate, hsequence⟩ := Bool.and_eq_true_iff.1 hlast
  obtain ⟨hcount, hlive, hcreation⟩ := of_decide_eq_true hstate
  have hmade : made past < UInt32.size := by rw [hcount]; decide
  obtain ⟨s, hs, -, h⟩ := @allotted_of_run c (empty ⟨1⟩ ⟨40, false⟩) past {} ⟨40, false⟩ rfl
    (Run.nil.replay hreplay) hmade hlive
  obtain ⟨reply, hserve, -, hallotted⟩ := h (.insert 9) rfl fun n hn => nomatch hn
  rw [hs] at hsequence
  obtain rfl : s = [(⟨⟨1⟩, 16, 2⟩, 8)] := Option.some.inj (eq_of_beq hsequence)
  rw [hcreation, hcount] at hallotted
  exact ⟨_, past, c, rfl, hreplay, hmade, hlive, reply, hserve, hallotted⟩

end Chain
end FirstFit
