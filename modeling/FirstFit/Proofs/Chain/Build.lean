/-
# Chains built from values

Values that are put at the end of an empty chain, one after another, lie in a
row: the node of each is in the slot behind that of the one before, and has the
stamp that follows. The chain needs as many slots as there are values. If the
arena has fewer, the value that comes after the last slot is refused, and that
is the only refusal besides the one of a capacity that no chain can have.

Key definitions: `Sequence.row`, `Chain.InRow`, `Chain.Filling`,
`Chain.Filled`, `Chain.Built`.
Key theorems: `InRow.insert`, `InRow.insertAll`, `InRow.filled`,
`ofValues_built`, `built_of_values`.
-/
import FirstFit.Workload.Profile
import FirstFit.Proofs.Chain.Image
import FirstFit.Proofs.Chain.Slots
import FirstFit.Proofs.Layout.Insertion

namespace FirstFit
namespace Chain

open NodeTable (exhausted maxCapacity)

variable {c c' : Chain} {id : ArenaId} {capacity i : Nat} {values before later : List UInt16}
  {v : UInt16} {p : NodeRef × UInt16} {supply : Supply}

/-! ### Rows -/

namespace Sequence

/-- The node in slot `i`, if all the slots are taken in turn. -/
def nth (id : ArenaId) (i : Nat) : NodeRef :=
  ⟨id, UInt32.ofNat (Node.size * i), UInt32.ofNat (i + 1)⟩

/-- Values in slots that are taken in turn. -/
def row (id : ArenaId) (values : List UInt16) : Sequence := values.mapIdx fun i v => (nth id i, v)

theorem length_row (id : ArenaId) (values : List UInt16) :
    (row id values).length = values.length := List.length_mapIdx

theorem row_concat : row id (values ++ [v]) = row id values ++ [(nth id values.length, v)] :=
  List.mapIdx_concat

theorem getElem?_row (h : (row id values)[i]? = some p) :
    i < values.length ∧ p.1 = nth id i := by
  obtain ⟨hi, rfl⟩ := List.getElem?_eq_some_iff.1 h
  rw [length_row] at hi
  exact ⟨hi, congrArg Prod.fst List.getElem_mapIdx⟩

theorem values_row : (row id values).map Prod.snd = values :=
  List.ext_getElem (by simp [row]) fun i _ _ => by simp [row]

/-- Offsets of 32 bits reach all slots of a chain. -/
theorem toNat_nth (id : ArenaId) {n : Nat} (hi : i < n) (hfit : Node.size * n ≤ maxCapacity) :
    (nth id i).offset.toNat = Node.size * i ∧ (nth id i).stamp.toNat = i + 1 := by
  simp only [Node.size, maxCapacity, UInt32.size] at hfit
  constructor
  · exact UInt32.toNat_ofNat_of_lt' (by simp only [Node.size, UInt32.size]; omega)
  · exact UInt32.toNat_ofNat_of_lt' (by simp only [UInt32.size]; omega)

theorem offsets_row (id : ArenaId) (hfit : Node.size * values.length ≤ maxCapacity) :
    NodeTable.offsets (row id values) = (List.range values.length).map (Node.size * ·) := by
  refine List.ext_getElem (by simp [NodeTable.offsets, row]) fun i hi _ => ?_
  have hi' : i < values.length := by simpa [NodeTable.offsets, row] using hi
  simp [NodeTable.offsets, row, (toNat_nth id hi' hfit).1]

/-- Behind a row the next slot is the lowest that is free. -/
theorem LowestFree.eq_length (h : (row id values).LowestFree i)
    (hfit : Node.size * values.length ≤ maxCapacity) : i = values.length := by
  have hoffset : ∀ j < values.length, (nth id j).offset.toNat = Node.size * j := fun j hj =>
    (toNat_nth id hj hfit).1
  rcases Nat.lt_trichotomy i values.length with hlt | rfl | hgt
  · have hm : (nth id i, values[i]) ∈ row id values :=
      List.mem_mapIdx.2 ⟨i, hlt, rfl⟩
    exact absurd (hoffset i hlt) (h.free _ hm)
  · rfl
  · obtain ⟨p, hp, hp'⟩ := h.below values.length hgt
    obtain ⟨j, hj, rfl⟩ := List.mem_mapIdx.1 hp
    rw [hoffset j hj] at hp'
    exact absurd (Nat.eq_of_mul_eq_mul_left (by decide) hp') (Nat.ne_of_lt hj)

end Sequence

open Sequence (nth row)

/-- A request that cannot miss and puts in a node created it. -/
theorem Placing.create_eq {next : Option NodeRef} {node : NodeRef}
    {reply : Reply Error Chain Event NodeRef} (hr : c.Placing v next none reply)
    (ha : reply.answer = .ok node) :
    ∃ t log, c.table.create v next = .ok ⟨.ok node, t, log⟩ := by
  cases hr with
  | refused => exact nomatch ha
  | discarded _ hmissing => exact nomatch hmissing
  | @placed _ t log _ hcreate hanswer =>
    obtain rfl := Except.ok.inj (hanswer.symm.trans ha)
    exact ⟨t, log, hcreate⟩

/-- A live chain over `capacity` bytes to which nothing was done but that
`values` were put at the end, one after another. -/
structure InRow (c : Chain) (id : ArenaId) (capacity : Nat) (values : List UInt16) : Prop where
  holds : c.Holds (row id values)
  arena : c.table.arena.id = id
  capacity : c.table.arena.capacity = capacity
  live : c.table.isLive = true
  stamp : c.table.nextStamp = UInt32.ofNat (values.length + 1)

namespace InRow

theorem slots (h : c.InRow id capacity values) : c.table.slots = capacity / Node.size :=
  congrArg (· / Node.size) h.capacity

theorem reach (h : c.InRow id capacity values) : capacity ≤ maxCapacity :=
  h.capacity ▸ h.holds.stored.tidy.reach

theorem length_le (h : c.InRow id capacity values) : values.length ≤ capacity / Node.size := by
  have hlen := h.holds.stored.length_le
  rwa [Sequence.length_row, h.slots] at hlen

theorem size_le (h : c.InRow id capacity values) : Node.size * values.length ≤ capacity := by
  rw [Nat.mul_comm]
  exact (Nat.le_div_iff_mul_le (by decide)).1 h.length_le

theorem of_initialise (supply : Supply) (config : Pool.Config) (hpos : 1 ≤ config.capacity)
    (hmax : config.capacity ≤ maxCapacity) :
    ∃ c log, initialise supply config = ⟨.ok c, supply.rest, log⟩ ∧
      c.InRow supply.next config.capacity [] := by
  have hanswer := initialise_eq supply hpos hmax
  obtain ⟨-, -, hstate⟩ := initialise_ok hanswer
  have hledger := ledger_empty supply.next hmax
  refine ⟨_, (initialise supply config).log, ?_,
    hledger.holds, hledger.arena, hledger.capacity, rfl, hledger.stamp⟩
  rw [← hanswer, ← hstate]

/-- The slot behind a row, if there is one, is in reach. -/
theorem next_le (h : c.InRow id capacity values) (hroom : values.length < capacity / Node.size) :
    Node.size * (values.length + 1) ≤ maxCapacity := by
  rw [Nat.mul_comm]
  exact Nat.le_trans ((Nat.le_div_iff_mul_le (by decide)).1 hroom) h.reach

theorem takeStamp_eq (h : c.InRow id capacity values)
    (hroom : values.length < capacity / Node.size) :
    c.table.takeStamp.1 = (nth id values.length).stamp := by
  have hstamp := (Sequence.toNat_nth id (Nat.lt_succ_self _) (h.next_le hroom)).2
  have hne : c.table.nextStamp ≠ 0 := by
    intro h0
    rw [h.stamp] at h0
    exact nomatch hstamp.symm.trans (congrArg UInt32.toNat h0)
  rw [NodeTable.takeStamp, if_neg hne, h.stamp]
  rfl

/-- A node that is offered behind a row is in the next slot. -/
theorem node_eq (h : c.InRow id capacity values) (hroom : values.length < capacity / Node.size)
    {node : NodeRef} {t : NodeTable} {log : List Event} {next : Option NodeRef}
    (hcreate : c.table.create v next = .ok ⟨.ok node, t, log⟩) (harena : node.arena = id)
    (hstamp : node.stamp = c.table.takeStamp.1) : node = nth id values.length := by
  have hle := h.next_le hroom
  obtain ⟨i, hoffset, hslot⟩ := h.holds.stored.lowestFree hcreate
  obtain rfl := hslot.eq_length (Nat.le_trans (Nat.mul_le_mul_left _ (Nat.le_succ _)) hle)
  obtain ⟨arena, offset, stamp⟩ := node
  have hword : offset = (nth id values.length).offset :=
    UInt32.toNat_inj.1 (hoffset.trans (Sequence.toNat_nth id (Nat.lt_succ_self _) hle).1.symm)
  rw [h.takeStamp_eq hroom] at hstamp
  simp only at harena hstamp
  rw [harena, hword, hstamp]
  rfl

/-- A value for which there is a slot is put into the next one. -/
theorem insert (h : c.InRow id capacity values) (hroom : values.length < capacity / Node.size)
    (v : UInt16) :
    ∃ c' log, c.insert v = .ok ⟨.ok (nth id values.length), c', log⟩ ∧
      c'.InRow id capacity (values ++ [v]) := by
  obtain ⟨offer, ⟨answer, c', log⟩, hinsert, hs⟩ := insert_simulates h.holds v
  cases offer with
  | error e =>
    have hfull : c.table.slots ≤ (row id values).length := hs.offers rfl h.live
    rw [h.slots, Sequence.length_row] at hfull
    omega
  | ok node =>
    obtain ⟨-, -, harena, hstamp, -⟩ := hs.offers rfl
    obtain ⟨_, hanswer, hname⟩ := Reply.ok_of_map (hs.answer_eq nofun)
    obtain rfl := Answer.node.inj hname
    obtain ⟨t, created, hcreate⟩ := (insert_placing hinsert).create_eq hanswer
    obtain rfl := h.node_eq hroom hcreate (harena.trans h.arena) hstamp
    obtain rfl : answer = .ok _ := hanswer
    refine ⟨c', log, hinsert, ?_, hs.id.trans h.arena, hs.capacity.trans h.capacity, ?_, ?_⟩
    · rw [Sequence.row_concat]
      exact hs.holds
    · exact hs.live.trans ((Bool.and_true _).trans h.live)
    · rw [List.length_append]
      exact hs.stamp.trans (UInt32.ofNat_add _ _).symm

/-- A value for which there is no slot is refused, and nothing is changed. -/
theorem insert_refused (h : c.InRow id capacity values)
    (hfull : capacity / Node.size ≤ values.length) (v : UInt16) :
    ∃ log, c.insert v = .ok ⟨.error (.allocationFailed (exhausted capacity)), c, log⟩ := by
  have hlen : c.table.slots ≤ c.table.blocks.length := by
    rw [h.slots, ← h.holds.stored.length_eq, Sequence.length_row]
    exact hfull
  have hcreate := NodeTable.create_full h.holds.stored.tidy h.live hlen v none
  rw [h.capacity] at hcreate
  exact ⟨_, by rw [Chain.insert, hcreate]; rfl⟩

end InRow

/-! ### One value after another -/

section
variable {node : NodeRef} {e : Error} {log log' : List Event} {rest : List UInt16}
  {filled : Reply Error Chain Event Unit}

theorem insertAll_cons (hinsert : c.insert v = .ok ⟨.ok node, c', log⟩)
    (h : c'.insertAll rest = .ok filled) :
    c.insertAll (v :: rest) = .ok { filled with log := log ++ filled.log } := by
  rw [insertAll, hinsert, Checked.ok_bind]
  show (c'.insertAll rest >>= _) = _
  rw [h]
  rfl

theorem insertAll_refused (hinsert : c.insert v = .ok ⟨.error e, c', log⟩) :
    c.insertAll (v :: rest) = .ok ⟨.error e, c', log⟩ := by
  rw [insertAll, hinsert]
  rfl

end

/-- What becomes of `later` at the end of a chain with `before` in a row: all of
them are in the row, or all up to one for which there is no slot. -/
inductive Filling (c : Chain) (id : ArenaId) (capacity : Nat) (before later : List UInt16) :
    Reply Error Chain Event Unit → Prop
  | done {c' : Chain} {log : List Event} (hrow : c'.InRow id capacity (before ++ later)) :
      Filling c id capacity before later ⟨.ok (), c', log⟩
  | refused {earlier rest : List UInt16} {v : UInt16} {c' : Chain} {log log' log'' : List Event}
      (hlater : later = earlier ++ v :: rest)
      (hfull : (before ++ earlier).length = capacity / Node.size)
      (hearlier : c.insertAll earlier = .ok ⟨.ok (), c', log⟩)
      (hinsert : c'.insert v =
        .ok ⟨.error (.allocationFailed (exhausted capacity)), c', log'⟩) :
      Filling c id capacity before later
        ⟨.error (.allocationFailed (exhausted capacity)), c', log''⟩

theorem InRow.insertAll : ∀ (later : List UInt16) {c : Chain} {before : List UInt16},
    c.InRow id capacity before →
    ∃ filled, c.insertAll later = .ok filled ∧ c.Filling id capacity before later filled
  | [], c, before, h => ⟨_, rfl, .done ((List.append_nil before).symm ▸ h)⟩
  | v :: rest, c, before, h => by
    rcases Nat.lt_or_ge before.length (capacity / Node.size) with hroom | hfull
    · obtain ⟨c', log, hinsert, hrow⟩ := h.insert hroom v
      obtain ⟨filled, hrest, hcase⟩ := hrow.insertAll rest
      refine ⟨_, insertAll_cons hinsert hrest, ?_⟩
      cases hcase with
      | done hrow' =>
        rw [List.append_assoc] at hrow'
        exact .done hrow'
      | refused hlater hlen hearlier hinsert' =>
        rw [List.append_assoc] at hlen
        exact .refused (congrArg (v :: ·) hlater) hlen (insertAll_cons hinsert hearlier) hinsert'
    · obtain ⟨log, hinsert⟩ := h.insert_refused hfull v
      have hlen : (before ++ []).length = capacity / Node.size := by
        rw [List.append_nil]
        exact Nat.le_antisymm h.length_le hfull
      exact ⟨_, insertAll_refused hinsert,
        .refused (List.nil_append (v :: rest)).symm hlen rfl hinsert⟩

/-! ### What a row takes up -/

/-- The blocks that are the first `n` slots. -/
def firstSlots (n : Nat) : List Block := (List.range n).map fun i => ⟨Node.size * i, Node.size⟩

theorem firstSlots_wellFormed {n : Nat} (h : Node.size * n ≤ capacity) :
    Layout.WellFormed (firstSlots n) capacity where
  nonempty := by
    intro b hb
    obtain ⟨i, -, rfl⟩ := List.mem_map.1 hb
    exact Nat.succ_pos 15
  inside := by
    intro b hb
    obtain ⟨i, hi, rfl⟩ := List.mem_map.1 hb
    exact Nat.le_trans (Nat.mul_le_mul_left Node.size (List.mem_range.1 hi)) h
  apart := List.pairwise_map.2 (List.pairwise_lt_range.imp fun hij =>
    Nat.mul_le_mul_left Node.size hij)

/-- All that is free is behind the last slot. -/
theorem firstSlots_widest {n : Nat} (h : Node.size * n ≤ capacity) :
    Layout.IsWidest (firstSlots n) capacity (capacity - Node.size * n) := by
  refine ⟨⟨Node.size * n, Nat.le_of_eq (Nat.add_sub_of_le h), ?_⟩, ?_⟩
  · intro b hb
    obtain ⟨i, hi, rfl⟩ := List.mem_map.1 hb
    exact .inl (Nat.mul_le_mul_left Node.size (List.mem_range.1 hi))
  · intro o len hfree
    by_cases ho : Node.size * n ≤ o
    · have := hfree.1
      omega
    · -- the first byte of the range is in a slot
      have hi : o / Node.size < n := Nat.div_lt_of_lt_mul (Nat.lt_of_not_le ho)
      have hapart := hfree.2 _ (List.mem_map.2 ⟨o / Node.size, List.mem_range.2 hi, rfl⟩)
      simp only [Block.stop, Node.size] at hapart ho ⊢
      omega

/-- The blocks of a table are told by where its nodes begin. -/
theorem blocks_perm {t : NodeTable} {s : Sequence} (h : t.Stored s) :
    t.blocks.Perm ((NodeTable.offsets s).map fun start => ⟨start, Node.size⟩) := by
  have hslots : (t.blocks.map Block.start).map (fun start => ⟨start, Node.size⟩) = t.blocks := by
    rw [List.map_map]
    refine (List.map_congr_left fun b hb => ?_).trans (List.map_id _)
    exact congrArg (Block.mk b.start) (h.tidy.slot b hb).1.symm
  have hperm := h.starts.map fun start => (⟨start, Node.size⟩ : Block)
  rw [hslots] at hperm
  exact hperm.symm

theorem InRow.blocks_eq (h : c.InRow id capacity values) :
    c.table.blocks = firstSlots values.length := by
  have hperm := blocks_perm h.holds.stored
  rw [Sequence.offsets_row id (Nat.le_trans h.size_le h.reach), List.map_map] at hperm
  have hwell : Layout.WellFormed (firstSlots values.length) c.table.arena.capacity :=
    firstSlots_wellFormed (h.capacity.symm ▸ h.size_le)
  exact h.holds.stored.tidy.sound.wellFormed.eq_of_perm hwell hperm

/-- A chain over `capacity` bytes with `values`, which lie in the first slots in
this order and are numbered from one on. -/
structure Filled (c : Chain) (id : ArenaId) (capacity : Nat) (values : List UInt16) : Prop where
  contents : c.values = .ok values
  nodes : ∃ s, c.sequence = .ok s ∧ s.map Prod.snd = values ∧
    ∀ i p, s[i]? = some p → p.1.arena = id ∧ p.1.offset.toNat = Node.size * i ∧
      p.1.stamp.toNat = i + 1
  blocks : c.blocks = firstSlots values.length
  stats : c.stats = .ok (.ok ⟨capacity, Node.size * values.length,
    capacity - Node.size * values.length, values.length, capacity - Node.size * values.length⟩)
  audit : c.audit = .ok (.ok ())

theorem InRow.filled (h : c.InRow id capacity values) : c.Filled id capacity values where
  contents := by rw [values_eq h.holds, Sequence.values_row]
  nodes := by
    refine ⟨row id values, h.holds.sequence_eq, Sequence.values_row, fun i p hp => ?_⟩
    obtain ⟨hi, hnode⟩ := Sequence.getElem?_row hp
    rw [hnode]
    exact ⟨rfl, Sequence.toNat_nth id hi (Nat.le_trans h.size_le h.reach)⟩
  blocks := by rw [h.holds.blocks_eq, h.blocks_eq]
  stats := by
    have hsound := h.holds.stored.tidy.sound
    obtain ⟨gap, hgap, hwidest⟩ := Layout.largestGap_cases hsound.wellFormed hsound.bound
    have hcapacity : c.table.space.capacity = capacity := h.capacity
    rw [hcapacity] at hwidest
    obtain rfl := hwidest.unique (h.blocks_eq ▸ firstSlots_widest h.size_le)
    rw [stats_eq h.holds h.live hgap, hcapacity, Sequence.length_row]
  audit := h.holds.audit_eq h.live

/-! ### Building -/

/-- What becomes of building a chain over `capacity` bytes from `values`. -/
structure Built (supply : Supply) (values : List UInt16) (capacity : Nat)
    (answer : Except Error Chain) : Prop where
  refused_iff : (∃ e, answer = .error e) ↔
    capacity = 0 ∨ UInt32.size ≤ capacity ∨ capacity < Node.size * values.length
  filled : ∀ c, answer = .ok c → c.Filled supply.next capacity values
  /-- The error is that of the first step that is refused. -/
  refusal : ∀ e, answer = .error e →
    (e = .invalidCapacity capacity ∧ (initialise supply ⟨capacity, true⟩).answer = .error e) ∨
    e = .allocationFailed (exhausted capacity) ∧
      ∃ earlier v rest, values = earlier ++ v :: rest ∧ earlier.length = capacity / Node.size ∧
        ∃ reply c reply', ofValues supply earlier capacity = .ok reply ∧ reply.answer = .ok c ∧
          c.insert v = .ok reply' ∧ reply'.answer = .error e

theorem ofValues_built (supply : Supply) (values : List UInt16) (capacity : Nat) :
    ∃ reply, ofValues supply values capacity = .ok reply ∧
      Built supply values capacity reply.answer := by
  by_cases hcapacity : 1 ≤ capacity ∧ capacity ≤ maxCapacity
  · obtain ⟨hpos, hmax⟩ := hcapacity
    obtain ⟨start, log, hinit, (hstart : start.InRow supply.next capacity [])⟩ :=
      InRow.of_initialise supply ⟨capacity, true⟩ hpos hmax
    have hvalues : ∀ {vs : List UInt16} {filled : Reply Error Chain Event Unit},
        start.insertAll vs = .ok filled → ofValues supply vs capacity =
          .ok ⟨filled.answer.map fun _ => filled.state, supply.rest, log ++ filled.log⟩ := by
      intro vs filled hfilled
      simp only [ofValues, hinit]
      rw [hfilled]
      rfl
    obtain ⟨filled, hfilled, hcase⟩ := hstart.insertAll values
    refine ⟨_, hvalues hfilled, ?_⟩
    have hsize : maxCapacity < UInt32.size := by decide
    cases hcase with
    | done hrow =>
      refine ⟨iff_of_false ?_ ?_, fun c hc => ?_, fun e he => ?_⟩
      · rintro ⟨e, he⟩
        cases he
      · have := hrow.size_le
        rw [List.nil_append] at this
        omega
      · obtain rfl := Except.ok.inj hc
        exact hrow.filled
      · cases he
    | @refused earlier rest v c' log₁ log₂ log₃ hlater hfull hearlier hinsert =>
      rw [List.nil_append] at hfull
      refine ⟨iff_of_true ⟨_, rfl⟩ (.inr (.inr ?_)), fun c hc => ?_, fun e he => ?_⟩
      · rw [hlater, List.length_append, List.length_cons, hfull]
        simp only [Node.size]
        omega
      · cases hc
      · obtain rfl := Except.error.inj he
        exact .inr ⟨rfl, earlier, v, rest, hlater, hfull, _, c', _, hvalues hearlier, rfl,
          hinsert, rfl⟩
  · obtain ⟨hanswer, hstate⟩ :
        (initialise supply ⟨capacity, true⟩).answer = .error (.invalidCapacity capacity) ∧
          (initialise supply ⟨capacity, true⟩).state = supply :=
      @initialise_refused ⟨capacity, true⟩ hcapacity supply true
    have hrefused : ofValues supply values capacity =
        .ok ⟨.error (.invalidCapacity capacity), supply,
          (initialise supply ⟨capacity, true⟩).log⟩ := by
      simp only [ofValues, hanswer, hstate]
      rfl
    refine ⟨_, hrefused, iff_of_true ⟨_, rfl⟩ ?_, fun c hc => ?_, fun e he => ?_⟩
    · simp only [maxCapacity] at hcapacity
      omega
    · cases hc
    · obtain rfl := Except.error.inj he
      exact .inl ⟨rfl, hanswer⟩

/-- Nothing is built where the arena is not available. -/
theorem ofValues_unavailable (supply : Supply) (values : List UInt16) {capacity : Nat}
    (hpos : 1 ≤ capacity) (hmax : capacity ≤ maxCapacity) :
    ∃ log, ofValues supply values capacity false =
      .ok ⟨.error (.pool (.arenaUnavailable capacity)), supply, log⟩ := by
  obtain ⟨hanswer, hstate⟩ := @initialise_unavailable ⟨capacity, true⟩ supply hpos hmax
  refine ⟨(initialise supply ⟨capacity, true⟩ false).log, ?_⟩
  simp only [ofValues, hanswer, hstate]
  rfl

theorem length_drawValues (words : WordStream) (len : Nat) (distinct : UInt16) :
    (drawValues words len distinct).length = len :=
  (List.length_map _).trans List.length_range

/-- Building a chain is refused exactly if no chain can have the capacity or
there are more values than slots, whoever picks the values; the chain that is
built otherwise has all of them in order and nothing else. -/
theorem built_of_values (supply : Supply) :
    (∀ (values : List UInt16) (capacity : Nat), ∃ reply,
      ofValues supply values capacity = .ok reply ∧
        Built supply values capacity reply.answer) ∧
    ∀ (p : Profile) (words : WordStream), ∃ reply, p.prefilled supply words = .ok reply ∧
      Built supply (drawValues words p.prefill p.distinct) p.capacity reply.answer ∧
      ((∃ e, reply.answer = .error e) ↔
        p.capacity = 0 ∨ UInt32.size ≤ p.capacity ∨ p.capacity < Node.size * p.prefill) := by
  refine ⟨ofValues_built supply, fun p words => ?_⟩
  obtain ⟨reply, hreply, hbuilt⟩ :=
    ofValues_built supply (drawValues words p.prefill p.distinct) p.capacity
  have hiff := hbuilt.refused_iff
  rw [length_drawValues] at hiff
  exact ⟨reply, hreply, hbuilt, hiff⟩

/-- There are eight odd bytes behind the second slot: two values have room, and
the third one is refused. -/
theorem built_of_values_odd :
    (∃ reply c, ofValues {} [7, 8] 40 = .ok reply ∧ reply.answer = .ok c ∧
      c.Filled ⟨1⟩ 40 [7, 8]) ∧
    ∃ reply, ofValues {} [7, 8, 9] 40 = .ok reply ∧
      reply.answer = .error (.allocationFailed (.outOfSpace 16 8)) := by
  constructor
  · obtain ⟨reply, hreply, hbuilt⟩ := (built_of_values {}).1 [7, 8] 40
    cases hanswer : reply.answer with
    | error e => exact absurd (hbuilt.refused_iff.1 ⟨e, hanswer⟩) (by decide)
    | ok c => exact ⟨reply, c, hreply, hanswer, hbuilt.filled c hanswer⟩
  · obtain ⟨reply, hreply, hbuilt⟩ := (built_of_values {}).1 [7, 8, 9] 40
    obtain ⟨e, hanswer⟩ := hbuilt.refused_iff.2 (by decide)
    rcases hbuilt.refusal e hanswer with ⟨-, hinit⟩ | ⟨rfl, -⟩
    · exact nomatch hinit.symm.trans (initialise_eq {} (by decide) (by decide))
    · exact ⟨reply, hreply, hanswer⟩

end Chain
end FirstFit
