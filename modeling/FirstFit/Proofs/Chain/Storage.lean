/-
# The storage of nodes

All blocks of a node table are slots of sixteen bytes, and the bytes outside
of them are zero. A new node gets the lowest slot that is free, and there is
one unless every slot is taken; a node that is released leaves zero bytes.

Key definitions: `NodeTable.Tidy`, `NodeTable.Created`.
Key theorems: `live_of_create`, `create_cases`, `release_eq`, `setNext_eq`,
`record_eq`.
-/
import Mathlib.Data.List.Perm.Subperm
import FirstFit.Proofs.Chain.Cell
import FirstFit.Proofs.Pool.Run

namespace FirstFit
namespace NodeTable

open Chain (Event Error)
open Layout (WellFormed IsFree IsFirstFit frontier)

variable {t : NodeTable} {pre post : List Block} {node : NodeRef} {c : Cell} {capacity : Nat}

/-- The blocks of the nodes, also once the pool has ended. -/
abbrev blocks (t : NodeTable) : List Block := t.space.layout.blocks

/-- A block where a node can be. -/
def IsSlot (b : Block) : Prop := b.len = Node.size ∧ b.start % Node.size = 0

/-- The blocks are slots, the bytes outside of them are zero, and a table whose
pool has ended has none. -/
structure Tidy (t : NodeTable) : Prop where
  sound : t.space.Sound
  reach : t.arena.capacity ≤ maxCapacity
  slot : ∀ b ∈ t.blocks, IsSlot b
  zero : ∀ i, (∀ b ∈ t.blocks, i < b.start ∨ b.stop ≤ i) → t.arena.byte i = 0
  ended : t.isLive = false → t.blocks = []

/-! ### Slots -/

theorem sum_len_of_slots : ∀ {blocks : List Block}, (∀ b ∈ blocks, IsSlot b) →
    (blocks.map Block.len).sum = Node.size * blocks.length
  | [], _ => rfl
  | b :: rest, h => by
    have ih := sum_len_of_slots fun c hc => h c (List.mem_cons_of_mem _ hc)
    rw [List.map_cons, List.sum_cons, ih, (h b List.mem_cons_self).1, List.length_cons,
      Nat.mul_succ, Nat.add_comm]

/-- There are at most as many blocks as slots. -/
theorem length_le_of_slots {blocks : List Block} (hw : WellFormed blocks capacity)
    (hslot : ∀ b ∈ blocks, IsSlot b) : blocks.length ≤ capacity / Node.size := by
  have := Layout.sum_le 0 hw (fun _ _ => Nat.zero_le _) (Nat.zero_le _)
  rw [sum_len_of_slots hslot] at this
  exact (Nat.le_div_iff_mul_le (by decide)).2 (by rw [Nat.mul_comm]; omega)

/-- A slot that no block starts at has no byte of a block. -/
theorem isFree_of_slots {blocks : List Block} (hslot : ∀ b ∈ blocks, IsSlot b) {base : Nat}
    (halign : base % Node.size = 0) (hin : base + Node.size ≤ capacity)
    (hne : ∀ b ∈ blocks, b.start ≠ base) : IsFree blocks capacity base Node.size := by
  refine ⟨hin, ?_⟩
  intro b hb
  obtain ⟨hlen, hstart⟩ := hslot b hb
  have := hne b hb
  simp only [Block.stop, hlen, Node.size] at hstart halign ⊢
  omega

/-- If no slot is free, there are as many blocks as slots. -/
theorem le_length_of_slots {blocks : List Block} (hslot : ∀ b ∈ blocks, IsSlot b)
    (hnone : ∀ o, ¬ IsFree blocks capacity o Node.size) :
    capacity / Node.size ≤ blocks.length := by
  have hnodup : ((List.range (capacity / Node.size)).map (Node.size * ·)).Nodup :=
    List.pairwise_map.2 (List.nodup_range.imp fun hne hij =>
      hne (Nat.eq_of_mul_eq_mul_left (by decide) hij))
  have hsub : (List.range (capacity / Node.size)).map (Node.size * ·) ⊆
      blocks.map Block.start := by
    intro base hbase
    obtain ⟨i, hi, rfl⟩ := List.mem_map.1 hbase
    have hlt := List.mem_range.1 hi
    by_contra hne
    refine hnone _ (isFree_of_slots hslot (Nat.mul_mod_right _ _) ?_ fun b hb he =>
      hne (List.mem_map.2 ⟨b, hb, he⟩))
    have := Nat.mul_le_of_le_div _ _ _ (Nat.succ_le_of_lt hlt)
    rw [Nat.succ_mul, Nat.mul_comm] at this
    exact this
  have := (List.subperm_of_subset hnodup hsub).length_le
  rwa [List.length_map, List.length_map, List.length_range] at this

/-- The free space behind slots begins at a slot. -/
theorem frontier_mod (hslot : ∀ b ∈ pre, IsSlot b) : frontier 0 pre % Node.size = 0 := by
  rcases Layout.frontier_eq 0 pre with h | ⟨b, hb, h⟩
  · rw [h]; rfl
  · obtain ⟨hlen, hstart⟩ := hslot b hb
    rw [h, Block.stop, hlen]
    simp only [Node.size] at hstart ⊢
    omega

theorem Tidy.length_le (ht : t.Tidy) : t.blocks.length ≤ t.slots :=
  length_le_of_slots ht.sound.wellFormed ht.slot

/-- Free bytes are zero. -/
theorem Tidy.byte_isFree (ht : t.Tidy) {base len : Nat}
    (hfree : IsFree t.blocks t.space.capacity base len) :
    ∀ i, base ≤ i → i < base + len → t.arena.byte i = 0 := by
  intro i h1 h2
  apply ht.zero i
  intro b hb
  have := hfree.2 b hb
  omega

/-- A slot is that of a node, or all its bytes are zero. -/
theorem Tidy.slot_cases (ht : t.Tidy) {base : Nat} (halign : base % Node.size = 0)
    (hin : base + Node.size ≤ t.arena.capacity) :
    (∃ b ∈ t.blocks, b.start = base) ∨ t.arena.HasCell base {} := by
  by_cases hb : ∃ b ∈ t.blocks, b.start = base
  · exact .inl hb
  · have hfree : IsFree t.blocks t.space.capacity base Node.size :=
      isFree_of_slots ht.slot halign hin fun b hb' he => hb ⟨b, hb', he⟩
    exact .inr (Arena.hasCell_blank hin (ht.byte_isFree hfree))

/-- An offset where a node fits is a word. -/
theorem Tidy.lt_size (ht : t.Tidy) {base : Nat} (hin : base + Node.size ≤ t.arena.capacity) :
    base < UInt32.size := by
  have hreach := ht.reach
  simp only [maxCapacity, Node.size, UInt32.size] at hin hreach ⊢
  omega

/-! ### Creating -/

/-- What becomes of a request for a new node. -/
inductive Created (t : NodeTable) (data : UInt16) (next : Option NodeRef) :
    Reply Error NodeTable Event NodeRef → Prop
  | full {e : Pool.Error} {log : List Event} (hroom : t.isLive = true → t.slots ≤ t.blocks.length)
      (hlog : log = [] ∨ log = [.pool (.allocationRejected Node.size e)]) :
      Created t data next ⟨.error (.allocationFailed e), t, log⟩
  | made {pre post : List Block} {offset : UInt32} {a : Arena} (hlive : t.isLive = true)
      (hsplit : t.blocks = pre ++ post)
      (hfit : IsFirstFit pre post Node.size t.space.capacity offset.toNat)
      (hsame : t.arena.SameOutside a offset.toNat Node.size)
      (hcell : a.HasCell offset.toNat (.leadingTo data t.takeStamp.1 next)) :
      Created t data next ⟨.ok ⟨t.arena.id, offset, t.takeStamp.1⟩,
        { t with
          space := { t.space with
            arena := a, layout := ⟨pre ++ ⟨offset.toNat, Node.size⟩ :: post⟩ }
          nextStamp := t.takeStamp.1 + 1 },
        [.pool (.allocated offset.toNat Node.size)]⟩

theorem lt_slots {base : Nat} (hin : base + Node.size ≤ t.arena.capacity) :
    base / Node.size < t.slots := by
  apply (Nat.le_div_iff_mul_le (by decide)).2
  have := Nat.div_mul_le_self base Node.size
  rw [Nat.succ_mul]
  omega

theorem add_le_of_lt_slots {base : Nat} (halign : base % Node.size = 0)
    (hlt : base / Node.size < t.slots) : base + Node.size ≤ t.arena.capacity := by
  have := (Nat.le_div_iff_mul_le (by decide)).1 (Nat.succ_le_of_lt hlt)
  rw [Nat.succ_mul, Nat.div_mul_cancel (Nat.dvd_of_mod_eq_zero halign)] at this
  exact this

theorem slotOf_eq (hin : node.offset.toNat + Node.size ≤ t.arena.capacity) :
    t.slotOf node = .ok node.offset.toNat :=
  if_pos (lt_slots hin)

/-- A table without room refuses a node, and is as before. -/
theorem create_refused (hlive : t.isLive = true) {e : Pool.Error}
    (hr : t.space.allocate Node.size = .ok (.error e, t.space)) (data : UInt16)
    (next : Option NodeRef) :
    t.create data next =
      .ok ⟨.error (.allocationFailed e), t, [.pool (.allocationRejected Node.size e)]⟩ := by
  simp only [create, pool_of_live hlive, Pool.allocate_some hr, Checked.ok_bind]
  rfl

theorem pool_of_ended (hlive : t.isLive = false) : t.pool = {} := by
  rw [pool, hlive]
  rfl

/-- A table whose pool has ended has no pool to change. -/
theorem withPool_ended (ht : t.Tidy) (hlive : t.isLive = false) : t.withPool {} = t := by
  obtain ⟨⟨arena, ⟨blocks⟩, zeroing⟩, isLive, nextStamp⟩ := t
  obtain rfl : isLive = false := hlive
  obtain rfl : blocks = [] := ht.ended rfl
  rfl

/-- A pool that gives a block is live, before and after. -/
theorem live_of_allocate {p : Pool} {size : Nat} {h : Pool.Handle}
    {reply : Reply Pool.Error Pool Pool.Event Pool.Handle} (hallocate : p.allocate size = .ok reply)
    (hanswer : reply.answer = .ok h) :
    p.isLive = true ∧ reply.state.isLive = true := by
  obtain ⟨space?⟩ := p
  cases space? with
  | none =>
    obtain rfl := Except.ok.inj hallocate
    cases hanswer
  | some s =>
    refine ⟨rfl, ?_⟩
    obtain ⟨⟨answer, s'⟩, -, hallocate⟩ := Checked.bind_eq_ok.1 hallocate
    cases answer <;> exact Except.ok.inj hallocate ▸ rfl

theorem pool_isLive (t : NodeTable) : t.pool.isLive = t.isLive := by
  unfold pool
  cases t.isLive <;> rfl

theorem withPool_isLive (t : NodeTable) {p : Pool} (hp : p.isLive = true) :
    (t.withPool p).isLive = t.isLive := by
  obtain ⟨space?⟩ := p
  cases space? with
  | none => cases hp
  | some s => rfl

theorem writeHeader_isLive {t' : NodeTable} {base : Nat} {data : UInt16} {stamp : UInt32}
    (h : t.writeHeader base data stamp = .ok t') : t'.isLive = t.isLive := by
  obtain ⟨_, -, h⟩ := Checked.bind_eq_ok.1 h
  obtain ⟨_, -, h⟩ := Checked.bind_eq_ok.1 h
  obtain ⟨_, -, h⟩ := Checked.bind_eq_ok.1 h
  exact Except.ok.inj h ▸ rfl

theorem writeNext_isLive {t' : NodeTable} {base : Nat} {next : Option NodeRef}
    (h : t.writeNext base next = .ok t') : t'.isLive = t.isLive := by
  obtain ⟨_, -, h⟩ := Checked.bind_eq_ok.1 h
  obtain ⟨_, -, h⟩ := Checked.bind_eq_ok.1 h
  exact Except.ok.inj h ▸ rfl

/-- Nothing comes between the creation of a node and the look at the pool it is
from, so that pool is live. -/
theorem live_of_create {reply : Reply Error NodeTable Event NodeRef} {data : UInt16}
    {next : Option NodeRef} (h : t.create data next = .ok reply)
    (hanswer : reply.answer = .ok node) : reply.state.pool.isLive = true := by
  rw [pool_isLive]
  obtain ⟨made, hallocate, h⟩ := Checked.bind_eq_ok.1 h
  cases hmade : made.answer with
  | error e =>
    rw [hmade] at h
    obtain rfl := Except.ok.inj h
    cases hanswer
  | ok handle =>
    rw [hmade] at h
    obtain ⟨hlive, hlive'⟩ := live_of_allocate hallocate hmade
    obtain ⟨offset, -, h⟩ := Checked.bind_eq_ok.1 h
    obtain ⟨base, -, h⟩ := Checked.bind_eq_ok.1 h
    obtain ⟨t₁, hheader, h⟩ := Checked.bind_eq_ok.1 h
    obtain ⟨t₂, hnext, h⟩ := Checked.bind_eq_ok.1 h
    obtain rfl := Except.ok.inj h
    calc t₂.isLive
      _ = t₁.isLive := writeNext_isLive hnext
      _ = (t.withPool made.state).takeStamp.2.isLive := writeHeader_isLive hheader
      _ = t.isLive := withPool_isLive t hlive'
      _ = true := (pool_isLive t).symm.trans hlive

theorem create_ended (ht : t.Tidy) (hlive : t.isLive = false) (data : UInt16)
    (next : Option NodeRef) :
    t.create data next = .ok ⟨.error (.allocationFailed .uninitialised), t, []⟩ := by
  have halloc : Pool.allocate {} Node.size = .ok ⟨.error .uninitialised, {}, []⟩ := rfl
  simp only [create, pool_of_ended hlive, halloc, Checked.ok_bind, withPool_ended ht hlive]
  rfl

theorem tearDown_ended (ht : t.Tidy) (hlive : t.isLive = false) :
    t.tearDown = (t, [.pool .notLive]) := by
  have hpool : Pool.tearDown {} = ⟨.ok (), {}, [.notLive]⟩ := rfl
  simp only [tearDown, pool_of_ended hlive, hpool, withPool_ended ht hlive]
  rfl

/-- A new node is written into zero bytes, so whether the pool zeroes blocks
makes no difference. -/
theorem create_placed (ht : t.Tidy) (hlive : t.isLive = true) {offset : Nat} {arena : Arena}
    (hr : t.space.allocate Node.size = .ok (.ok (t.space.handle ⟨offset, Node.size⟩),
      { t.space with arena, layout := ⟨pre ++ ⟨offset, Node.size⟩ :: post⟩ }))
    (hfree : IsFree t.blocks t.space.capacity offset Node.size)
    (hbytes : t.arena.Rewritten arena fun i =>
      if t.space.zeroing = true ∧ offset ≤ i ∧ i < offset + Node.size then 0 else t.arena.byte i)
    (data : UInt16) (next : Option NodeRef) :
    ∃ a, t.create data next = .ok ⟨.ok ⟨t.arena.id, UInt32.ofNat offset, t.takeStamp.1⟩,
        { t with
          space := { t.space with
            arena := a, layout := ⟨pre ++ ⟨offset, Node.size⟩ :: post⟩ }
          nextStamp := t.takeStamp.1 + 1 },
        [.pool (.allocated offset Node.size)]⟩ ∧
      (UInt32.ofNat offset).toNat = offset ∧ t.arena.SameOutside a offset Node.size ∧
      a.HasCell offset (.leadingTo data t.takeStamp.1 next) := by
  have hin : offset + Node.size ≤ arena.capacity :=
    Nat.le_trans hfree.1 (Nat.le_of_eq hbytes.capacity.symm)
  have hword := ht.lt_size hfree.1
  have hoff : (UInt32.ofNat offset).toNat = offset := UInt32.toNat_ofNat_of_lt' hword
  have hzero : ∀ i, offset ≤ i → i < offset + Node.size → arena.byte i = 0 := by
    intro i h1 h2
    rw [hbytes.byte]
    split
    · rfl
    · exact ht.byte_isFree hfree i h1 h2
  have hsame₀ : t.arena.SameOutside arena offset Node.size :=
    ⟨hbytes.id, hbytes.capacity, fun i hi => by rw [hbytes.byte, if_neg (by omega)]⟩
  let t₀ : NodeTable := { t with
    space := { t.space with arena, layout := ⟨pre ++ ⟨offset, Node.size⟩ :: post⟩ }
    nextStamp := t.takeStamp.1 + 1 }
  have hcell₀ : t₀.arena.HasCell offset {} := Arena.hasCell_blank hin hzero
  obtain ⟨a₁, hheader, hsame₁, hcell₁⟩ := writeHeader_cell hcell₀ data t.takeStamp.1
  obtain ⟨a₂, hnext, hsame₂, hcell₂⟩ := writeNext_cell (t := t₀.withArena a₁) hcell₁ next
  have hslot : t₀.slotOf ⟨arena.id, UInt32.ofNat offset, t.takeStamp.1⟩ = .ok offset := by
    rw [slotOf_eq (by rw [hoff]; exact hin), hoff]
  refine ⟨a₂, ?_, hoff, (hsame₀.trans hsame₁).trans hsame₂, hcell₂⟩
  simp only [create, pool_of_live hlive, Pool.allocate_some hr, Checked.ok_bind]
  have hword' : Size.toWord (t.space.handle ⟨offset, Node.size⟩).offset =
      .ok (UInt32.ofNat offset) := Size.toWord_of_lt hword
  rw [hword', Checked.ok_bind, ← hbytes.id]
  show (t₀.slotOf ⟨arena.id, UInt32.ofNat offset, t.takeStamp.1⟩ >>= _) = _
  rw [hslot, Checked.ok_bind]
  show (t₀.writeHeader offset data t.takeStamp.1 >>= _) = _
  rw [hheader, Checked.ok_bind, hnext, Checked.ok_bind]
  rfl

theorem create_cases (ht : t.Tidy) (data : UInt16) (next : Option NodeRef) :
    ∃ reply, t.create data next = .ok reply ∧ t.Created data next reply := by
  cases hlive : t.isLive with
  | false =>
    exact ⟨_, create_ended ht hlive data next,
      .full (fun h => nomatch hlive.symm.trans h) (.inl rfl)⟩
  | true =>
    obtain ⟨r, hr, hcase⟩ := Space.allocate_cases ht.sound Node.size
    cases hcase with
    | refused ha =>
      refine ⟨_, create_refused hlive hr data next, .full ?_ (.inr rfl)⟩
      intro _
      have hcap : ¬ Node.size ≤ t.space.capacity := fun hc =>
        nomatch ha.symm.trans (Space.assess_eq_ok.2 ⟨by decide, hc⟩)
      show t.space.capacity / Node.size ≤ _
      rw [Nat.div_eq_of_lt (Nat.lt_of_not_le hcap)]
      exact Nat.zero_le _
    | outOfSpace ha hgap hnone =>
      exact ⟨_, create_refused hlive hr data next,
        .full (fun _ => le_length_of_slots ht.slot hnone) (.inr rfl)⟩
    | placed ha hsplit hfit hbytes =>
      obtain ⟨a, hcreate, hoff, hsame, hcell⟩ :=
        create_placed ht hlive hr (by rw [blocks, hsplit]; exact hfit.isFree) hbytes data next
      refine ⟨_, hcreate, ?_⟩
      have hmade : t.Created data next _ := .made hlive hsplit (hoff.symm ▸ hfit)
        (hoff.symm ▸ hsame) (hoff.symm ▸ hcell)
      rwa [hoff] at hmade

/-- The slot of a new node. -/
theorem isSlot_of_isFirstFit {offset : Nat} (hslot : ∀ b ∈ pre ++ post, IsSlot b)
    (hfit : IsFirstFit pre post Node.size capacity offset) : IsSlot ⟨offset, Node.size⟩ := by
  refine ⟨rfl, ?_⟩
  rw [hfit.offset_eq]
  exact frontier_mod fun b hb => hslot b (List.mem_append_left _ hb)

theorem Created.tidy {data : UInt16} {next : Option NodeRef}
    {reply : Reply Error NodeTable Event NodeRef} (ht : t.Tidy)
    (hr : t.Created data next reply) : reply.state.Tidy := by
  cases hr with
  | full => exact ht
  | @made pre post offset a hlive hsplit hfit hsame hcell =>
    have hslot : ∀ b ∈ pre ++ post, IsSlot b := hsplit ▸ ht.slot
    refine ⟨ht.sound.mono hsame.capacity ?_, ?_, ?_, ?_,
      fun h => nomatch hlive.symm.trans h⟩
    · exact hfit.wellFormed (hsplit ▸ ht.sound.wellFormed) (by decide)
    · exact Nat.le_trans (Nat.le_of_eq hsame.capacity) ht.reach
    · intro b hb
      rcases List.mem_cons.1 (List.perm_middle.mem_iff.1 hb) with rfl | hb
      · exact isSlot_of_isFirstFit hslot hfit
      · exact hslot b hb
    · intro i hi
      have hout := hi _ (List.mem_append_right _ List.mem_cons_self)
      refine (hsame.byte i hout).trans (ht.zero i fun b hb => hi b ?_)
      rw [hsplit] at hb
      exact ((List.sublist_cons_self _ _).append_left _).subset hb

/-! ### Reading and writing a node -/

theorem data_eq (h : t.arena.HasCell node.offset.toNat c) : t.data node = .ok c.data := by
  unfold data
  rw [slotOf_eq h.inside, Checked.ok_bind, dataAt_cell h]

theorem next_eq {data : UInt16} {stamp : UInt32} {next : Option NodeRef}
    (h : t.arena.HasCell node.offset.toNat (.leadingTo data stamp next))
    (hn : ∀ n ∈ next, n.arena = t.arena.id ∧ n.stamp ≠ 0) : t.next node = .ok next := by
  unfold NodeTable.next
  rw [slotOf_eq h.inside, Checked.ok_bind, nextAt_cell h hn]

theorem record_eq {data : UInt16} {stamp : UInt32} {next : Option NodeRef}
    (h : t.arena.HasCell node.offset.toNat (.leadingTo data stamp next))
    (hn : ∀ n ∈ next, n.arena = t.arena.id ∧ n.stamp ≠ 0) : t.record node = .ok ⟨data, next⟩ := by
  unfold record
  rw [data_eq h, Checked.ok_bind, next_eq h hn, Checked.ok_bind]
  cases next <;> rfl

theorem setNext_eq (h : t.arena.HasCell node.offset.toNat c) (next : Option NodeRef) :
    ∃ a, t.setNext node next = .ok (t.withArena a) ∧
      t.arena.SameOutside a node.offset.toNat Node.size ∧
      a.HasCell node.offset.toNat (.leadingTo c.data c.stamp next) := by
  unfold setNext
  rw [slotOf_eq h.inside, Checked.ok_bind]
  exact writeNext_cell h next

/-- Writing into the slot of a node keeps the table tidy. -/
theorem Tidy.withArena {a : Arena} {base : Nat} (ht : t.Tidy) (hb : ⟨base, Node.size⟩ ∈ t.blocks)
    (hsame : t.arena.SameOutside a base Node.size) : (t.withArena a).Tidy := by
  refine ⟨ht.sound.mono hsame.capacity ht.sound.wellFormed, ?_, ht.slot, ?_, ht.ended⟩
  · exact Nat.le_trans (Nat.le_of_eq hsame.capacity) ht.reach
  · intro i hi
    exact (hsame.byte i (hi _ hb)).trans (ht.zero i hi)

/-! ### References from outside -/

theorem checkLive_live (h : t.arena.HasCell node.offset.toNat c) (ha : node.arena = t.arena.id)
    (halign : node.offset.toNat % Node.size = 0) (hs : c.stamp = node.stamp) :
    t.checkLive node = .ok (.ok (), []) := by
  have hstanding : t.standing node = .ok .live := by
    unfold standing
    rw [if_pos ⟨ha, halign, lt_slots h.inside⟩, stampAt_cell h, Checked.ok_bind,
      if_pos hs]
    rfl
  unfold checkLive
  rw [hstanding]
  rfl

/-- A reference is refused if its slot, should it have one, has another stamp. -/
theorem checkLive_refused (h : node.arena = t.arena.id → node.offset.toNat % Node.size = 0 →
      node.offset.toNat + Node.size ≤ t.arena.capacity →
      ∃ c, t.arena.HasCell node.offset.toNat c ∧ c.stamp ≠ node.stamp) :
    ∃ log, t.checkLive node = .ok (.error .nullReference, log) ∧
      ∀ e ∈ log, e = .staleReference node := by
  by_cases hslot : node.arena = t.arena.id ∧ node.offset.toNat % Node.size = 0 ∧
      node.offset.toNat / Node.size < t.slots
  · obtain ⟨c, hcell, hs⟩ := h hslot.1 hslot.2.1 (add_le_of_lt_slots hslot.2.1 hslot.2.2)
    have hstanding : t.standing node = .ok .stale := by
      unfold standing
      rw [if_pos hslot, stampAt_cell hcell, Checked.ok_bind, if_neg hs]
      rfl
    exact ⟨[.staleReference node], by rw [checkLive, hstanding]; rfl, by simp⟩
  · have hstanding : t.standing node = .ok .foreign := by rw [standing, if_neg hslot]; rfl
    exact ⟨[], by rw [checkLive, hstanding]; rfl, by simp⟩

/-! ### Releasing -/

/-- The slot of a node that is released is free, and its bytes are zero. -/
theorem release_eq (ht : t.Tidy) (hlive : t.isLive = true) (ha : node.arena = t.arena.id)
    (hsplit : t.blocks = pre ++ ⟨node.offset.toNat, Node.size⟩ :: post) :
    ∃ a, t.release node =
        .ok ({ t with space := { t.space with arena := a, layout := ⟨pre ++ post⟩ } },
          [.pool (.freed node.offset.toNat Node.size)]) ∧
      t.arena.SameOutside a node.offset.toNat Node.size ∧ a.HasCell node.offset.toNat {} := by
  have hmem : (⟨node.offset.toNat, Node.size⟩ : Block) ∈ t.blocks :=
    hsplit ▸ List.mem_append_right _ List.mem_cons_self
  have hin : node.offset.toNat + Node.size ≤ t.arena.capacity :=
    ht.sound.wellFormed.inside _ hmem
  obtain ⟨a, herase, hsame, hcell⟩ := erase_cell hin
  refine ⟨a, ?_, hsame, hcell⟩
  have hsound := (ht.withArena hmem hsame).sound
  have hfree : (t.withArena a).space.free ⟨node.arena, node.offset.toNat, Node.size⟩ =
      .ok (.ok ⟨node.offset.toNat, Node.size⟩,
        { (t.withArena a).space with layout := ⟨pre ++ post⟩ }) := by
    have hl := Space.locate?_append (h := ⟨node.arena, node.offset.toNat, Node.size⟩) hsound
      (ha.trans hsame.id.symm) hsplit rfl
    simp only [Space.free, hl, Layout.removeAt_append (l := (t.withArena a).space.layout) hsplit,
      Checked.ok_bind]
    rfl
  have hpool : (t.withArena a).pool = ⟨some (t.withArena a).space⟩ := pool_of_live hlive
  simp only [release, slotOf_eq hin, herase, hpool, Pool.free_some hfree, Checked.ok_bind]
  rfl

theorem Tidy.release {a : Arena} {base : Nat} (ht : t.Tidy)
    (hsplit : t.blocks = pre ++ ⟨base, Node.size⟩ :: post)
    (hsame : t.arena.SameOutside a base Node.size) (hcell : a.HasCell base {}) :
    Tidy { t with space := { t.space with arena := a, layout := ⟨pre ++ post⟩ } } := by
  have hmem : (⟨base, Node.size⟩ : Block) ∈ t.blocks :=
    hsplit ▸ List.mem_append_right _ List.mem_cons_self
  have ht' := ht.withArena hmem hsame
  have hsub : (pre ++ post).Sublist t.blocks :=
    hsplit ▸ (List.sublist_cons_self _ _).append_left _
  refine ⟨⟨ht'.sound.wellFormed.sublist hsub, ht'.sound.small⟩, ht'.reach,
    fun b hb => ht.slot b (hsub.subset hb), ?_, ?_⟩
  · intro i hi
    by_cases hbase : base ≤ i ∧ i < base + Node.size
    · exact Arena.byte_blank hcell hbase.1 hbase.2
    · apply ht'.zero i
      intro b hb
      have hb' : b ∈ pre ++ ⟨base, Node.size⟩ :: post := hsplit ▸ hb
      rcases List.mem_cons.1 (List.perm_middle.mem_iff.1 hb') with rfl | hb'
      · simp only [Block.stop]
        omega
      · exact hi b hb'
  · intro h
    have := ht.ended h
    rw [hsplit] at this
    exact absurd this (by simp)

end NodeTable
end FirstFit
