/-
# Nodes and their blocks

A table stores some nodes if its blocks are the slots of exactly these. A node
that is added, written or released has its slot for itself, so links between
the others stay.

Key definitions: `NodeTable.Stored`, `NodeTable.Added`.
Key theorems: `Stored.create`, `Stored.setNext`, `Stored.release`,
`Stored.checkLive_refused`.
-/
import FirstFit.Proofs.Chain.Linked

namespace FirstFit
namespace NodeTable

open Chain (Event Error Sequence)
open Chain.Sequence (Linked Owned)

variable {t : NodeTable} {s s' : Sequence} {p q : NodeRef × UInt16} {node : NodeRef}
  {a a' : Arena} {data : UInt16} {next : Option NodeRef}

/-- Where the nodes of a sequence begin. -/
def offsets (s : Sequence) : List Nat := s.map fun p => p.1.offset.toNat

/-- The blocks of a tidy table are the slots of the nodes of `s`, whatever their order. -/
structure Stored (t : NodeTable) (s : Sequence) : Prop where
  tidy : t.Tidy
  owned : Owned t.arena.id s
  starts : (offsets s).Perm (t.blocks.map Block.start)

namespace Stored

theorem perm (h : t.Stored s) (hs : s.Perm s') : t.Stored s' :=
  ⟨h.tidy, fun p hp => h.owned p (hs.mem_iff.2 hp), (hs.map _).symm.trans h.starts⟩

theorem length_eq (h : t.Stored s) : s.length = t.blocks.length := by
  have := h.starts.length_eq
  rwa [offsets, List.length_map, List.length_map] at this

theorem length_le (h : t.Stored s) : s.length ≤ t.slots :=
  Nat.le_trans (Nat.le_of_eq h.length_eq) h.tidy.length_le

theorem nodup (h : t.Stored s) : (offsets s).Nodup :=
  h.starts.nodup_iff.2 h.tidy.sound.wellFormed.nodup_start

theorem mem_blocks (h : t.Stored s) (hp : p ∈ s) :
    (⟨p.1.offset.toNat, Node.size⟩ : Block) ∈ t.blocks := by
  obtain ⟨⟨start, len⟩, hb, hstart⟩ :=
    List.mem_map.1 (h.starts.mem_iff.1 (List.mem_map.2 ⟨p, hp, rfl⟩))
  obtain ⟨hlen, -⟩ := h.tidy.slot _ hb
  simp only at hlen hstart
  rw [← hstart, ← hlen]
  exact hb

theorem aligned (h : t.Stored s) (hp : p ∈ s) : p.1.offset.toNat % Node.size = 0 :=
  (h.tidy.slot _ (h.mem_blocks hp)).2

/-- The first node shares no byte with the others. -/
theorem apart (h : t.Stored (p :: s)) (hq : q ∈ s) :
    q.1.offset.toNat + Node.size ≤ p.1.offset.toNat ∨
      p.1.offset.toNat + Node.size ≤ q.1.offset.toNat := by
  have hp := h.aligned (p := p) List.mem_cons_self
  have hq' := h.aligned (List.mem_cons_of_mem _ hq)
  have hne : p.1.offset.toNat ≠ q.1.offset.toNat := fun he =>
    (List.nodup_cons.1 h.nodup).1 (List.mem_map.2 ⟨q, hq, he.symm⟩)
  simp only [Node.size] at hp hq' ⊢
  omega

/-- Links between the other nodes stay while the slot of the first is written. -/
theorem frame (h : t.Stored (p :: s)) (hsub : s' ⊆ s)
    (hs : a.SameOutside a' p.1.offset.toNat Node.size) {after : Option NodeRef}
    (hl : Linked a after s') : Linked a' after s' :=
  hl.frame hs fun _ hq => h.apart (hsub hq)

theorem nodup_nodes (h : t.Stored s) : (s.map Prod.fst).Nodup :=
  List.pairwise_map.2 ((List.pairwise_map.1 h.nodup).imp fun hne he =>
    hne (congrArg (fun r => UInt32.toNat (NodeRef.offset r)) he))

/-- A table without a pool stores nothing. -/
theorem eq_nil (h : t.Stored s) (hlive : t.isLive = false) : s = [] := by
  have hlen := h.length_eq
  rw [h.tidy.ended hlive, List.length_nil] at hlen
  exact List.length_eq_zero_iff.1 hlen

/-- A table with a node is live. -/
theorem live (h : t.Stored s) (hp : p ∈ s) : t.isLive = true := by
  cases hlive : t.isLive with
  | true => rfl
  | false =>
    rw [h.eq_nil hlive] at hp
    exact nomatch hp

theorem blocks_nil (h : t.Stored []) : t.blocks = [] :=
  List.length_eq_zero_iff.1 h.length_eq.symm

/-- A table without nodes has no byte but zero. -/
theorem byte_nil (h : t.Stored []) (i : Nat) : t.arena.byte i = 0 := by
  refine h.tidy.zero i fun b hb => ?_
  rw [h.blocks_nil] at hb
  exact nomatch hb

end Stored

/-! ### Adding a node -/

theorem takeStamp_ne_zero (t : NodeTable) : t.takeStamp.1 ≠ 0 := by
  unfold takeStamp
  by_cases h : t.nextStamp = 0
  · simp [h]
  · simp [h]

/-- Whatever the table, what is logged comes from the pool, and zero is no stamp
of a node: it is that of a slot without one. -/
theorem create_reply {made : Reply Error NodeTable Event NodeRef}
    (h : t.create data next = .ok made) :
    (∃ poolLog : List Pool.Event, made.log = poolLog.map .pool) ∧
      ∀ node, made.answer = .ok node → node.stamp ≠ 0 := by
  unfold create at h
  obtain ⟨⟨answer, p, poolLog⟩, -, h⟩ := Checked.bind_eq_ok.1 h
  cases answer with
  | error e =>
    obtain rfl := Except.ok.inj h
    exact ⟨⟨poolLog, rfl⟩, fun node hnode => nomatch hnode⟩
  | ok handle =>
    obtain ⟨offset, -, h⟩ := Checked.bind_eq_ok.1 h
    obtain ⟨base, -, h⟩ := Checked.bind_eq_ok.1 h
    obtain ⟨t₁, -, h⟩ := Checked.bind_eq_ok.1 h
    obtain ⟨t₂, -, h⟩ := Checked.bind_eq_ok.1 h
    obtain rfl := Except.ok.inj h
    refine ⟨⟨poolLog, rfl⟩, fun node hnode => ?_⟩
    obtain rfl := Except.ok.inj hnode
    exact takeStamp_ne_zero _

/-- What becomes of a request for a new node: there is none if all slots are
taken, and else one that has its slot for itself and leads to `next`. -/
inductive Added (t : NodeTable) (s : Sequence) (data : UInt16) (next : Option NodeRef) :
    Reply Error NodeTable Event NodeRef → Prop
  | full {e : Pool.Error} {log : List Event} (hroom : t.isLive = true → t.slots ≤ s.length)
      (hlog : log = [] ∨ log = [.pool (.allocationRejected Node.size e)]) :
      Added t s data next ⟨.error (.allocationFailed e), t, log⟩
  | added {node : NodeRef} {t' : NodeTable} (hlive : t.isLive = true) (hlive' : t'.isLive = true)
      (hroom : s.length < t.slots) (harena : node.arena = t.arena.id)
      (hstamp : node.stamp = t.takeStamp.1) (hnext : t'.nextStamp = node.stamp + 1)
      (hsame : t.arena.SameOutside t'.arena node.offset.toNat Node.size)
      (hcell : t'.arena.HasCell node.offset.toNat (.leadingTo data node.stamp next))
      (hstored : t'.Stored ((node, data) :: s)) :
      Added t s data next ⟨.ok node, t', [.pool (.allocated node.offset.toNat Node.size)]⟩

theorem Stored.create (h : t.Stored s) (data : UInt16) (next : Option NodeRef) :
    ∃ reply, t.create data next = .ok reply ∧ t.Added s data next reply := by
  obtain ⟨reply, hreply, hcase⟩ := create_cases h.tidy data next
  refine ⟨reply, hreply, ?_⟩
  have htidy := hcase.tidy h.tidy
  cases hcase with
  | full hroom hlog => exact .full (fun hlive => h.length_eq ▸ hroom hlive) hlog
  | @made pre post offset a hlive hsplit hfit hsame hcell =>
    have hstarts : (offsets ((⟨t.arena.id, offset, t.takeStamp.1⟩, data) :: s)).Perm
        ((pre ++ ⟨offset.toNat, Node.size⟩ :: post).map Block.start) := by
      have hmiddle : ((pre ++ ⟨offset.toNat, Node.size⟩ :: post).map Block.start).Perm
          (offset.toNat :: t.blocks.map Block.start) := by
        rw [hsplit]
        exact List.perm_middle.map Block.start
      exact (h.starts.cons _).trans hmiddle.symm
    have howned : Owned a.id ((⟨t.arena.id, offset, t.takeStamp.1⟩, data) :: s) := by
      rw [hsame.id]
      exact List.forall_mem_cons.2 ⟨⟨rfl, takeStamp_ne_zero t⟩, h.owned⟩
    have hstored : Stored _ ((⟨t.arena.id, offset, t.takeStamp.1⟩, data) :: s) :=
      ⟨htidy, howned, hstarts⟩
    refine .added hlive hlive ?_ rfl rfl rfl hsame hcell hstored
    have := hstored.length_le
    rw [List.length_cons] at this
    exact Nat.lt_of_lt_of_le this (Nat.le_of_eq (congrArg (· / Node.size) hsame.capacity))

/-! ### Changing where a node leads, and releasing it -/

theorem Stored.setNext (h : t.Stored (p :: s))
    (hcell : t.arena.HasCell p.1.offset.toNat (.leadingTo p.2 p.1.stamp next))
    (new : Option NodeRef) :
    ∃ a, t.setNext p.1 new = .ok (t.withArena a) ∧
      t.arena.SameOutside a p.1.offset.toNat Node.size ∧
      a.HasCell p.1.offset.toNat (.leadingTo p.2 p.1.stamp new) ∧
      (t.withArena a).Stored (p :: s) := by
  obtain ⟨a, hset, hsame, hnew⟩ := setNext_eq hcell new
  rw [Cell.data_leadingTo, Cell.stamp_leadingTo] at hnew
  refine ⟨a, hset, hsame, hnew,
    ⟨h.tidy.withArena (h.mem_blocks List.mem_cons_self) hsame, ?_, h.starts⟩⟩
  exact fun q hq => hsame.id ▸ h.owned q hq

/-- The table without the node at the head of the sequence. -/
theorem Stored.release (h : t.Stored (p :: s)) (hlive : t.isLive = true) :
    ∃ t', t.release p.1 = .ok (t', [.pool (.freed p.1.offset.toNat Node.size)]) ∧
      t.arena.SameOutside t'.arena p.1.offset.toNat Node.size ∧ t'.Stored s ∧
      t'.isLive = true ∧ t'.nextStamp = t.nextStamp := by
  obtain ⟨pre, post, hsplit⟩ := List.append_of_mem (h.mem_blocks List.mem_cons_self)
  obtain ⟨a, hrelease, hsame, hcell⟩ :=
    release_eq h.tidy hlive (h.owned p List.mem_cons_self).1 hsplit
  refine ⟨_, hrelease, hsame, ⟨h.tidy.release hsplit hsame hcell, ?_, ?_⟩, hlive, rfl⟩
  · intro q hq
    exact hsame.id ▸ h.owned q (List.mem_cons_of_mem _ hq)
  · have hstarts := h.starts
    rw [hsplit] at hstarts
    exact (List.perm_cons _).1 (hstarts.trans (List.perm_middle.map Block.start))

/-! ### References from outside -/

theorem Stored.checkLive_live (h : t.Stored s) {v : UInt16} (hm : (node, v) ∈ s)
    (hcell : t.arena.HasCell node.offset.toNat (.leadingTo v node.stamp next)) :
    t.checkLive node = .ok (.ok (), []) :=
  NodeTable.checkLive_live hcell (h.owned _ hm).1 (h.aligned hm) (Cell.stamp_leadingTo _ _ _)

/-- A reference to none of the nodes is refused: its slot is that of another
node, which has another stamp, or is not in use, and has stamp zero. -/
theorem Stored.checkLive_refused (h : t.Stored s)
    (hcell : ∀ p ∈ s, ∃ next, t.arena.HasCell p.1.offset.toNat (.leadingTo p.2 p.1.stamp next))
    (hm : node ∉ s.map Prod.fst) (hstamp : node.arena = t.arena.id → node.stamp ≠ 0) :
    ∃ log, t.checkLive node = .ok (.error .nullReference, log) ∧
      ∀ e ∈ log, e = .staleReference node := by
  apply NodeTable.checkLive_refused
  intro ha halign hin
  rcases h.tidy.slot_cases halign hin with ⟨b, hb, hstart⟩ | hblank
  · obtain ⟨p, hp, hoff⟩ := List.mem_map.1 (h.starts.mem_iff.2 (List.mem_map.2 ⟨b, hb, hstart⟩))
    obtain ⟨next, hc⟩ := hcell p hp
    rw [hoff] at hc
    refine ⟨_, hc, fun hs => hm (List.mem_map.2 ⟨p, hp, ?_⟩)⟩
    have hs' : p.1.stamp = node.stamp := (Cell.stamp_leadingTo _ _ _).symm.trans hs
    obtain ⟨⟨arena, offset, stamp⟩, v⟩ := p
    obtain ⟨rfl, -⟩ := h.owned _ hp
    obtain rfl := hs'
    obtain rfl : offset = node.offset := UInt32.toNat_inj.1 hoff
    rw [← ha]
  · exact ⟨_, hblank, fun hs => hstamp ha hs.symm⟩

end NodeTable
end FirstFit
