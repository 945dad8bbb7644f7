/-
# The memory of a chain

After any run the bytes of a live chain are known to the last one: the blocks
of the pool are the slots of the nodes that the links lead through, each holds
the cell of its node, and all other bytes are zero. Nothing leaks, no link
dangles, and the audit finds no fault.

Key definition: `Chain.Image`.
Key theorems: `Holds.audit_eq`, `Holds.image`.
-/
import FirstFit.Chain.Audit
import FirstFit.Proofs.Chain.Refinement

namespace FirstFit
namespace Chain

variable {c : Chain} {s : Sequence} {past : List Exchange} {supply : Supply} {config : Pool.Config}

/-- The memory of a chain that visits the nodes of `s`, in this order. -/
structure Image (c : Chain) (s : Sequence) : Prop where
  /-- The links lead from the head through `s` to a node without a successor. -/
  sequence : c.sequence = .ok s
  /-- No slot is visited twice. -/
  distinct : (NodeTable.offsets s).Nodup
  /-- A link has the stamp of the slot it leads to. -/
  stamps : ∀ p ∈ s, p.1.arena = c.table.arena.id ∧ p.1.stamp ≠ 0 ∧
    c.table.stampAt p.1.offset.toNat = .ok p.1.stamp
  /-- The slots that are visited are the blocks of the pool. -/
  blocks : ∀ offset, offset ∈ NodeTable.offsets s ↔ ∃ b ∈ c.blocks, b.start = offset
  slots : ∀ b ∈ c.blocks, b.len = 16 ∧ b.start % 16 = 0
  /-- A slot holds a value, a stamp and the successor, if there is one. -/
  bytes : ∀ pre p post, s = pre ++ p :: post →
    c.table.arena.slice p.1.offset.toNat 16 =
      (Cell.leadingTo p.2 p.1.stamp (Sequence.first none post)).encode
  /-- All bytes outside of the blocks are zero. -/
  zero : ∀ i, (∀ b ∈ c.blocks, i < b.start ∨ b.stop ≤ i) → c.table.arena.byte i = 0
  audit : c.audit = .ok (.ok ())

theorem Holds.audit_eq (h : c.Holds s) (hlive : c.table.isLive = true) :
    c.audit = .ok (.ok ()) := by
  have hsound := h.stored.tidy.sound
  obtain ⟨gap, hgap⟩ := Layout.largestGap_ok hsound.wellFormed hsound.bound
  have hfind : c.blocks.find? (fun b => !isSlot b) = none :=
    List.find?_eq_none.2 fun b hb => by
      obtain ⟨hlen, hstart⟩ := h.stored.tidy.slot b (h.blocks_eq ▸ hb)
      simp [isSlot, hlen, hstart]
  have hlayout : Layout.audit c.blocks c.table.space.capacity = .ok (.ok ()) := by
    rw [h.blocks_eq]
    exact Layout.audit_of_wellFormed hsound.wellFormed hsound.bound
  simp only [Chain.audit, count_eq h, stats_eq h hlive hgap, hfind, hlayout, Checked.ok_bind]
  rw [if_neg (fun hne => hne rfl)]
  rfl

/-- The memory of a chain that holds a sequence while its pool is live. -/
theorem Holds.image (h : c.Holds s) (hlive : c.table.isLive = true) : c.Image s where
  sequence := h.sequence_eq
  distinct := h.stored.nodup
  stamps := by
    intro p hp
    obtain ⟨harena, hne⟩ := h.stored.owned p hp
    obtain ⟨next, hcell⟩ := h.cell hp
    refine ⟨harena, hne, ?_⟩
    rw [NodeTable.stampAt_cell hcell, Cell.stamp_leadingTo]
  blocks := by
    intro offset
    rw [h.blocks_eq, h.stored.starts.mem_iff, List.mem_map]
  slots := fun b hb => h.stored.tidy.slot b (h.blocks_eq ▸ hb)
  bytes := by
    intro pre p post hs
    subst hs
    exact (Sequence.linked_append.1 h.linked).2.1.slice_eq
  zero := fun i hi => h.stored.tidy.zero i (h.blocks_eq ▸ hi)
  audit := h.audit_eq hlive

/-- Whatever was asked of a chain before, as long as its pool is live and fewer
than `2 ^ 32` nodes were created, its memory is that of the sequence of nodes
that its links lead through. -/
theorem image_of_run {start : Chain} (hinit : (initialise supply config).answer = .ok start)
    (h : start.Run past c) (hmade : made past < UInt32.size) (hlive : c.table.isLive = true) :
    ∃ s, c.Image s := by
  obtain ⟨hpos, hmax⟩ := bounds_of_initialise hinit
  obtain rfl : empty supply.next config = start :=
    Except.ok.inj ((initialise_eq supply hpos hmax).symm.trans hinit)
  obtain ⟨s, -, hledger⟩ := h.ledger (ledger_empty supply.next hmax) hmade
  exact ⟨s, hledger.holds.image hlive⟩

/-- A node is put in front of another, one is refused and given back, and the
slot of one that was removed is used again. -/
theorem image_of_run_reused :
    let first : NodeRef := ⟨⟨1⟩, 0, 1⟩
    let rs : List Request := [.insert 7, .insertBefore (some first) 8, .insertAfter none 9,
      .delete 7, .insertAfter (some first) 10, .insert 11]
    ∃ start past c, (initialise {} ⟨48, true⟩).answer = .ok start ∧
      start.replay [] rs = some (past, c) ∧ start.Run past c ∧ made past < UInt32.size ∧
      c.table.isLive = true ∧ ∃ s, c.Image s := by
  intro first rs
  have hany : ((empty ⟨1⟩ ⟨48, true⟩).replay [] rs).any (fun last =>
      decide (made last.1 < UInt32.size) && last.2.table.isLive) = true := by decide
  obtain ⟨⟨past, c⟩, hreplay, hlast⟩ := (Option.any_eq_true _ _).1 hany
  obtain ⟨hmade, hlive⟩ := Bool.and_eq_true_iff.1 hlast
  have hmade := of_decide_eq_true hmade
  have hrun := Run.nil.replay hreplay
  exact ⟨_, past, c, rfl, hreplay, hrun, hmade, hlive,
    @image_of_run c past {} ⟨48, true⟩ _ rfl hrun hmade hlive⟩

end Chain
end FirstFit
