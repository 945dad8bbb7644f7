/-
# Chains that hold a sequence

A chain holds a sequence of nodes if its table stores exactly these, each is
linked to the next, and the head is the first. A request to such a chain is
answered as the sequence says, and leaves a chain that holds the sequence
afterwards. Here are the requests that change nothing.

Key definitions: `Chain.Holds`, `Chain.Offers`, `Chain.Simulates`.
Key theorems: `get_simulates`, `search_simulates`, `Holds.range_eq`, `segment_eq`,
`count_eq`, `stats_eq`, `Holds.sequence_eq`.
-/
import FirstFit.Proofs.Chain.Sequence
import FirstFit.Proofs.Chain.Stored

namespace FirstFit
namespace Chain

open Sequence (Linked Owned)

variable {c : Chain} {s : Sequence} {r : Request} {v : UInt16} {node : NodeRef}

/-- The table stores the nodes of `s`, which are linked in this order from the head. -/
structure Holds (c : Chain) (s : Sequence) : Prop where
  stored : c.table.Stored s
  linked : Linked c.table.arena none s
  head : c.head = s.first none

/-- What the storage has for a request that needs a node: one that is not in
use and has the stamp that is next, or nothing if every slot is taken. -/
def Offers (t : NodeTable) (s : Sequence) : Except Pool.Error NodeRef → Prop
  | .error _ => t.isLive = true → t.slots ≤ s.length
  | .ok node => t.isLive = true ∧ s.length < t.slots ∧ node.arena = t.arena.id ∧
      node.stamp = t.takeStamp.1 ∧ ∀ p ∈ s, p.1.offset ≠ node.offset

/-- A node got its storage. -/
def Event.isAllocation : Event → Bool
  | .pool (.allocated _ _) => true
  | _ => false

/-- The number of nodes that were created while the log was written. -/
def created (log : List Event) : Nat := log.countP Event.isAllocation

/-- The storage of a node was not given back. -/
def Event.isLoss : Event → Bool
  | .pool (.freeRejected _ _) | .freedAfterTearDown _ | .notFreed _ _ => true
  | _ => false

/-- The number of nodes that lost their storage while the log was written. -/
def lost (log : List Event) : Nat := log.countP Event.isLoss

/-- While the log was written `n` nodes were created, and none lost its storage. -/
structure Logged (n : Nat) (log : List Event) : Prop where
  created : created log = n
  lost : lost log = 0

/-- The node of which the event says that it was removed. -/
def Event.deletion : Event → Option NodeRef
  | .deleted _ node => some node
  | _ => none

/-- The reply to a request is the one that the sequence `s` and the offer of
the storage call for. -/
structure Simulates (c : Chain) (s : Sequence) (r : Request) (offer : Except Pool.Error NodeRef)
    (reply : Reply Error Chain Event Answer) : Prop where
  offers : r.creates = true → Offers c.table s offer
  answer : reply.answer = (s.step offer r).1 ∨
    r = .stats ∧ ∃ stats, reply.answer = Except.map Answer.stats stats
  holds : reply.state.Holds (s.step offer r).2
  id : reply.state.table.arena.id = c.table.arena.id
  capacity : reply.state.table.arena.capacity = c.table.arena.capacity
  live : reply.state.table.isLive = (c.table.isLive && !r.ends)
  stamp : reply.state.table.nextStamp =
    ((r.taken offer).map fun node => node.stamp + 1).getD c.table.nextStamp
  logged : Logged (r.taken offer).toList.length reply.log

variable {offer : Except Pool.Error NodeRef} {answer : Except Error Answer} {log : List Event}
  {reply : Reply Error Chain Event Answer}

theorem Simulates.answer_eq (h : Simulates c s r offer reply) (hr : r ≠ .stats) :
    reply.answer = (s.step offer r).1 :=
  h.answer.resolve_right fun hstats => hr hstats.1

theorem created_append (log log' : List Event) :
    created (log ++ log') = created log + created log' :=
  List.countP_append

theorem Logged.append {m n : Nat} {log' : List Event} (h : Logged m log) (h' : Logged n log') :
    Logged (m + n) (log ++ log') := by
  refine ⟨by rw [created_append, h.created, h'.created], ?_⟩
  rw [Chain.lost, List.countP_append]
  exact congrArg₂ (· + ·) h.lost h'.lost

theorem Simulates.created {reply : Reply Error Chain Event Answer}
    (hs : Simulates c s r offer reply) :
    created reply.log = (r.taken offer).toList.length :=
  hs.logged.created

/-- The reply to a request that creates no node. -/
theorem simulates_of_not_creates {c' : Chain} (hcreates : r.creates = false)
    (hanswer : answer = (s.step offer r).1 ∨
      r = .stats ∧ ∃ stats, answer = Except.map Answer.stats stats)
    (hholds : c'.Holds (s.step offer r).2)
    (hid : c'.table.arena.id = c.table.arena.id)
    (hcapacity : c'.table.arena.capacity = c.table.arena.capacity)
    (hlive : c'.table.isLive = (c.table.isLive && !r.ends))
    (hstamp : c'.table.nextStamp = c.table.nextStamp) (hlog : Logged 0 log) :
    Simulates c s r offer ⟨answer, c', log⟩ where
  offers hc := nomatch hcreates.symm.trans hc
  answer := hanswer
  holds := hholds
  id := hid
  capacity := hcapacity
  live := hlive
  stamp := by rw [Request.taken, hcreates]; exact hstamp
  logged := by rw [Request.taken, hcreates]; exact hlog

/-- The reply to a request that changes nothing. -/
theorem Holds.same (h : c.Holds s) (hcreates : r.creates = false) (hends : r.ends = false)
    (hstep : s.step offer r = (answer, s)) (hlog : Logged 0 log) :
    Simulates c s r offer ⟨answer, c, log⟩ :=
  simulates_of_not_creates hcreates (.inl (congrArg Prod.fst hstep).symm)
    ((congrArg Prod.snd hstep).symm ▸ h) rfl rfl (by rw [hends]; exact (Bool.and_true _).symm)
    rfl hlog

/-! ### Requests that read -/

theorem Holds.cell (h : c.Holds s) {p : NodeRef × UInt16} (hp : p ∈ s) :
    ∃ next, c.table.arena.HasCell p.1.offset.toNat (.leadingTo p.2 p.1.stamp next) :=
  h.linked.cell p hp

/-- A reference names a node of the sequence, or is refused. -/
theorem Holds.checkLive_cases (h : c.Holds s) (node : NodeRef)
    (hstamp : node.arena = c.table.arena.id → node.stamp ≠ 0) :
    (node ∈ s.nodes ∧ c.table.checkLive node = .ok (.ok (), [])) ∨
    (node ∉ s.nodes ∧ ∃ log, c.table.checkLive node = .ok (.error .nullReference, log) ∧
      ∀ e ∈ log, e = .staleReference node) := by
  by_cases hm : node ∈ s.nodes
  · obtain ⟨⟨_, v⟩, hp, rfl⟩ := List.mem_map.1 hm
    obtain ⟨next, hcell⟩ := h.cell hp
    exact .inl ⟨hm, h.stored.checkLive_live hp hcell⟩
  · exact .inr ⟨hm, h.stored.checkLive_refused (fun p hp => h.cell hp) hm hstamp⟩

theorem logged_stale {log : List Event} (h : ∀ e ∈ log, e = .staleReference node) :
    Logged 0 log :=
  ⟨List.countP_eq_zero.2 fun e he => by rw [h e he]; exact Bool.false_ne_true,
    List.countP_eq_zero.2 fun e he => by rw [h e he]; exact Bool.false_ne_true⟩

theorem get_simulates (h : c.Holds s) (offer : Except Pool.Error NodeRef)
    (hstamp : node.arena = c.table.arena.id → node.stamp ≠ 0) :
    ∃ reply, c.get node = .ok reply ∧ Simulates c s (.get node) offer (reply.map .value) := by
  rcases h.checkLive_cases node hstamp with ⟨hm, hlive⟩ | ⟨hm, log, hrefused, hlog⟩
  · obtain ⟨pre, v, post, rfl, hpre⟩ := Sequence.exists_split hm
    obtain ⟨next, hcell⟩ := h.cell (List.mem_append_right _ List.mem_cons_self)
    have hdata := NodeTable.data_eq hcell
    have hstep : Sequence.step offer (pre ++ (node, v) :: post) (.get node) = _ :=
      Sequence.step_get_append offer hpre
    rw [Cell.data_leadingTo] at hdata
    refine ⟨⟨.ok v, c, []⟩, ?_, h.same rfl rfl hstep ⟨rfl, rfl⟩⟩
    unfold Chain.get
    rw [hlive, Checked.ok_bind]
    show (c.table.data node >>= _) = _
    rw [hdata]
    rfl
  · have hstep := Sequence.step_get_missed offer hm
    refine ⟨⟨.error .nullReference, c, log⟩, ?_, h.same rfl rfl hstep (logged_stale hlog)⟩
    unfold Chain.get
    rw [hrefused]
    rfl

theorem search_simulates (h : c.Holds s) (offer : Except Pool.Error NodeRef) (v : UInt16) :
    ∃ reply, c.search v = .ok reply ∧ Simulates c s (.search v) offer (reply.map .node) := by
  have hhead := h.head
  cases s with
  | nil =>
    exact ⟨⟨.error .empty, c, []⟩, by rw [Chain.search, hhead]; rfl,
      h.same rfl rfl rfl ⟨rfl, rfl⟩⟩
  | cons p rest =>
    have hwalk : c.table.findValue v p.1 = .ok (Sequence.stopAt (fun r => r.data == v) none
        (p :: rest)) :=
      NodeTable.walk_eq _ none h.linked h.stored.owned h.stored.length_le
    rcases Sequence.stopAt_value v (p :: rest) none with
      ⟨hne, hstop⟩ | ⟨pre, r, post, hsplit, hne, hstop⟩
    · have hstep := Sequence.step_search_missed offer hne (List.cons_ne_nil _ _)
      refine ⟨⟨.error .notFound, c, [.searchMissed v]⟩, ?_, h.same rfl rfl hstep ⟨rfl, rfl⟩⟩
      simp only [Chain.search, hhead, Sequence.first, hwalk, hstop, Checked.ok_bind]
      rfl
    · have hstep : Sequence.step offer (pre ++ (r, v) :: post) (.search v) = _ :=
        Sequence.step_search_append offer hne
      rw [← hsplit] at hstep
      refine ⟨⟨.ok r, c, []⟩, ?_, h.same rfl rfl hstep ⟨rfl, rfl⟩⟩
      simp only [Chain.search, hhead, Sequence.first, hwalk, hstop, Checked.ok_bind]
      rfl

/-- What is left of a sequence from one of its nodes on is drained to the end. -/
theorem Holds.drain (h : c.Holds s) (pre post : Sequence) (hs : s = pre ++ post)
    (last : Option NodeRef) :
    Range.drain ⟨post.first none, last⟩ c.table c.table.slots =
      .ok (Sequence.upTo last post) := by
  subst hs
  refine NodeTable.drain_eq last (Sequence.linked_append.1 h.linked).2
    (fun p hp => h.stored.owned p (List.mem_append_right _ hp)) ?_
  have := h.stored.length_le
  rw [List.length_append] at this
  omega

/-- A range begins with the first node of what is left of the sequence. -/
theorem Holds.range_eq (h : c.Holds s) (first last : Option NodeRef)
    (hstamp : ∀ node ∈ first, node.arena = c.table.arena.id → node.stamp ≠ 0) :
    ∃ log, c.range first last = .ok (⟨(s.startingAt first).first none, last⟩, log) ∧
      Logged 0 log := by
  cases first with
  | none =>
    obtain ⟨bases, hbases⟩ := NodeTable.mapM_slotOf h.linked
    refine ⟨[], ?_, rfl, rfl⟩
    simp only [Chain.range, h.head, hbases, Checked.ok_bind]
    rfl
  | some node =>
    rcases h.checkLive_cases node (hstamp node rfl) with ⟨hm, hlive⟩ | ⟨hm, log, hrefused, hlog⟩
    · obtain ⟨pre, v, post, rfl, hpre⟩ := Sequence.exists_split hm
      refine ⟨[], ?_, rfl, rfl⟩
      simp only [Chain.range, hlive, Sequence.startingAt_append hpre, Checked.ok_bind]
      rfl
    · refine ⟨log, ?_, logged_stale hlog⟩
      simp only [Chain.range, hrefused, Sequence.startingAt_missed hm, Checked.ok_bind]
      rfl

theorem segment_eq (h : c.Holds s) (first last : Option NodeRef)
    (hstamp : ∀ node ∈ first, node.arena = c.table.arena.id → node.stamp ≠ 0) :
    ∃ log, c.segment first last = .ok (s.segment first last, log) ∧ Logged 0 log := by
  obtain ⟨log, hrange, hlog⟩ := h.range_eq first last hstamp
  obtain ⟨pre, hsplit⟩ := s.startingAt_suffix first
  have hdrain := h.drain pre (s.startingAt first) hsplit.symm last
  refine ⟨log, ?_, hlog⟩
  simp only [Chain.segment, hrange, hdrain, Sequence.segment_eq_upTo, Checked.ok_bind]
  rfl

theorem values_eq (h : c.Holds s) : c.values = .ok (s.map Prod.snd) := by
  obtain ⟨log, hsegment, -⟩ := segment_eq h none none (fun _ hn => nomatch hn)
  unfold values
  rw [hsegment, Sequence.segment, Sequence.upTo_none]
  rfl

theorem count_eq (h : c.Holds s) : c.count = .ok s.length := by
  unfold count
  rw [values_eq h]
  exact congrArg Except.ok (List.length_map _)

/-- The nodes from the head on and their values, read off the links. -/
def sequence (c : Chain) : Checked Sequence := c.table.trace c.table.slots c.head

theorem Holds.sequence_eq (h : c.Holds s) : c.sequence = .ok s := by
  unfold sequence
  rw [h.head]
  exact NodeTable.trace_eq h.linked h.stored.owned h.stored.length_le

/-- A chain agrees with its pool on what is in use. -/
theorem Holds.blocks_eq (h : c.Holds s) : c.blocks = c.table.blocks := by
  unfold blocks NodeTable.pool
  cases hlive : c.table.isLive with
  | true => rfl
  | false => rw [h.stored.tidy.ended hlive]; rfl

theorem stats_eq (h : c.Holds s) (hlive : c.table.isLive = true) {gap : Nat}
    (hgap : c.table.space.layout.largestGap c.table.space.capacity = .ok gap) :
    c.stats = .ok (.ok ⟨c.table.space.capacity, Node.size * s.length,
      c.table.space.capacity - Node.size * s.length, s.length, gap⟩) := by
  have hstats := Space.stats_eq h.stored.tidy.sound hgap
  rw [NodeTable.sum_len_of_slots h.stored.tidy.slot, Layout.size, ← h.stored.length_eq] at hstats
  simp only [Chain.stats, NodeTable.pool_of_live hlive, Pool.stats, hstats, Checked.ok_bind]
  rfl

theorem stats_ended (hlive : c.table.isLive = false) :
    c.stats = .ok (.error (.pool .uninitialised)) := by
  unfold Chain.stats NodeTable.pool
  rw [hlive]
  rfl

end Chain
end FirstFit
