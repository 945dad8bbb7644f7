/-
# Runs of a chain

A run begins with an empty chain and is a list of requests, each carried out
on what the one before left. Nobody can make up a reference: those in the
requests are of other chains, or were named in an answer before. While fewer
than `2 ^ 32` nodes have been created every stamp is new, so such a reference
never means a node that is yet to come.

Key definitions: `Chain.Exchange`, `Chain.Run`, `Chain.Ledger`, `Chain.empty`.
Key theorems: `Run.replay`, `serve_cases`, `Ledger.serve`, `ledger_empty`.
-/
import FirstFit.Proofs.Chain.Adding
import FirstFit.Proofs.Chain.Removing

namespace FirstFit
namespace Chain

variable {c : Chain} {s : Sequence} {r : Request} {node : NodeRef}
  {offer : Except Pool.Error NodeRef} {past : List Exchange} {x : Exchange}
  {id : ArenaId} {capacity : Nat}

/-- The references in a request. -/
def Request.nodes : Request → List NodeRef
  | .insertAfter anchor _ | .insertBefore anchor _ => anchor.toList
  | .get node => [node]
  | .segment first last => first.toList ++ last.toList
  | _ => []

/-- A request, the answer to it and what was logged. -/
structure Exchange where
  request : Request
  answer : Except Error Answer
  log : List Event
  deriving DecidableEq

/-- The references that answers have named so far. -/
def issued (past : List Exchange) : List NodeRef := past.flatMap fun x => answered x.answer

/-- The number of nodes created so far, also those given back at once. -/
def made (past : List Exchange) : Nat := created (past.flatMap Exchange.log)

/-- The chain was cleaned up. -/
def ended (past : List Exchange) : Bool := past.any fun x => x.request.ends

/-- The requests so far and what became of them; a reference to a node of this
chain is one that an answer named. -/
inductive Run (start : Chain) : List Exchange → Chain → Prop
  | nil : Run start [] start
  | snoc {past : List Exchange} {c : Chain} {r : Request}
      {reply : Reply Error Chain Event Answer} (h : Run start past c)
      (hknown : ∀ n ∈ r.nodes, n.arena = c.table.arena.id → n ∈ issued past)
      (hserve : c.serve r = .ok reply) :
      Run start (past ++ [⟨r, reply.answer, reply.log⟩]) reply.state

/-- Carry out requests on what is left of a run. A request with a reference
that is not known is not carried out. -/
def replay (c : Chain) (past : List Exchange) : List Request → Option (List Exchange × Chain)
  | [] => some (past, c)
  | r :: rest =>
    if ∀ n ∈ r.nodes, n.arena = c.table.arena.id → n ∈ issued past then
      match c.serve r with
      | .ok reply => replay reply.state (past ++ [⟨r, reply.answer, reply.log⟩]) rest
      | .error _ => none
    else none

theorem Run.replay {start : Chain} : ∀ {rs : List Request} {c : Chain} {past : List Exchange},
    start.Run past c → ∀ {past' : List Exchange} {c' : Chain},
      c.replay past rs = some (past', c') → start.Run past' c'
  | [], _, _, h, _, _, hreplay => by
    obtain ⟨rfl, rfl⟩ := Prod.mk.inj (Option.some.inj hreplay)
    exact h
  | r :: rest, c, past, h, past', c', hreplay => by
    unfold Chain.replay at hreplay
    split at hreplay
    · rename_i hknown
      cases hserve : c.serve r with
      | error e => rw [hserve] at hreplay; exact nomatch hreplay
      | ok reply =>
        rw [hserve] at hreplay
        exact (h.snoc hknown hserve).replay hreplay
    · exact nomatch hreplay

/-! ### One request -/

/-- Every request to a chain that holds a sequence has a reply. It is the one
that the sequence calls for, unless an anchor is the very node that is to be
created, with its stamp. -/
theorem serve_cases (h : c.Holds s) (r : Request)
    (hstamp : ∀ n ∈ r.nodes, n.arena = c.table.arena.id → n.stamp ≠ 0) :
    ∃ reply, c.serve r = .ok reply ∧ ((∃ offer, Simulates c s r offer reply) ∨
      Logged 1 reply.log ∧ ∃ n v, r = .insertAfter (some n) v ∧ reply.answer = .ok (.node n) ∧
        n.arena = c.table.arena.id ∧ n.stamp = c.table.takeStamp.1) := by
  cases r with
  | insert v =>
    obtain ⟨offer, reply, hreply, hs⟩ := insert_simulates h v
    exact ⟨_, by rw [serve, hreply]; rfl, .inl ⟨offer, hs⟩⟩
  | insertAfter anchor v =>
    obtain ⟨reply, hreply, hs⟩ := insertAfter_cases h anchor v fun n hn =>
      hstamp n (Option.mem_toList.2 hn)
    refine ⟨_, by rw [serve, hreply]; rfl, hs.imp_right ?_⟩
    rintro ⟨hlog, n, rfl, hanswer, hs⟩
    exact ⟨hlog, n, v, rfl, congrArg (Except.map Answer.node) hanswer, hs⟩
  | insertBefore anchor v =>
    obtain ⟨offer, reply, hreply, hs⟩ := insertBefore_simulates h anchor v
    exact ⟨_, by rw [serve, hreply]; rfl, .inl ⟨offer, hs⟩⟩
  | delete v =>
    obtain ⟨reply, hreply, hs, -⟩ := delete_simulates h (.error .uninitialised) v
    exact ⟨_, by rw [serve, hreply]; rfl, .inl ⟨_, hs⟩⟩
  | search v =>
    obtain ⟨reply, hreply, hs⟩ := search_simulates h (.error .uninitialised) v
    exact ⟨_, by rw [serve, hreply]; rfl, .inl ⟨_, hs⟩⟩
  | get node =>
    obtain ⟨reply, hreply, hs⟩ := get_simulates h (.error .uninitialised)
      (hstamp node (List.mem_singleton_self node))
    exact ⟨_, by rw [serve, hreply]; rfl, .inl ⟨_, hs⟩⟩
  | head =>
    refine ⟨_, rfl, .inl ⟨.error .uninitialised, h.same rfl rfl ?_ ⟨rfl, rfl⟩⟩⟩
    rw [h.head]
    cases s <;> rfl
  | isEmpty =>
    refine ⟨_, rfl, .inl ⟨.error .uninitialised, h.same rfl rfl ?_ ⟨rfl, rfl⟩⟩⟩
    unfold isEmpty
    rw [h.head]
    cases s <;> rfl
  | count =>
    exact ⟨_, by rw [serve, count_eq h]; rfl,
      .inl ⟨.error .uninitialised, h.same rfl rfl rfl ⟨rfl, rfl⟩⟩⟩
  | segment first last =>
    obtain ⟨log, hsegment, hlog⟩ := segment_eq h first last fun n hn =>
      hstamp n (List.mem_append_left _ (Option.mem_toList.2 hn))
    exact ⟨_, by rw [serve, hsegment]; rfl,
      .inl ⟨.error .uninitialised, h.same rfl rfl rfl hlog⟩⟩
  | stats =>
    obtain ⟨stats, hstats⟩ : ∃ stats, c.stats = .ok stats := by
      have hsound := h.stored.tidy.sound
      obtain ⟨gap, hgap⟩ := Layout.largestGap_ok hsound.wellFormed hsound.bound
      cases hlive : c.table.isLive with
      | true => exact ⟨_, stats_eq h hlive hgap⟩
      | false => exact ⟨_, stats_ended hlive⟩
    exact ⟨_, by rw [serve, hstats]; rfl, .inl ⟨.error .uninitialised,
      simulates_of_not_creates rfl (.inr ⟨rfl, stats, rfl⟩) h rfl rfl
        (Bool.and_true _).symm rfl ⟨rfl, rfl⟩⟩⟩
  | cleanUp =>
    obtain ⟨reply, hreply, hs⟩ := cleanUp_simulates h (.error .uninitialised)
    exact ⟨_, by rw [serve, hreply]; rfl, .inl ⟨_, hs⟩⟩

/-! ### What the answers so far say -/

theorem issued_concat : issued (past ++ [x]) = issued past ++ answered x.answer := by
  rw [issued, List.flatMap_append, List.flatMap_singleton]
  rfl

theorem made_concat : made (past ++ [x]) = made past + created x.log := by
  rw [made, List.flatMap_append, List.flatMap_singleton, created_append]
  rfl

theorem ended_concat : ended (past ++ [x]) = (ended past || x.request.ends) := by
  rw [ended, List.any_append, List.any_cons, List.any_nil, Bool.or_false]
  rfl

/-- What a run has led to: the chain holds a sequence of nodes that answers have
named, and the nodes have been numbered from one on. -/
structure Ledger (id : ArenaId) (capacity : Nat) (past : List Exchange) (c : Chain)
    (s : Sequence) : Prop where
  holds : c.Holds s
  arena : c.table.arena.id = id
  capacity : c.table.arena.capacity = capacity
  live : c.table.isLive = !ended past
  stamp : c.table.nextStamp = UInt32.ofNat (made past + 1)
  bounded : ∀ n ∈ issued past, n.arena = id ∧ n.stamp ≠ 0 ∧ n.stamp.toNat ≤ made past
  nodes : ∀ n ∈ s.nodes, n ∈ issued past

/-- While stamps are new, the next one is that of no node so far. -/
theorem Ledger.toNat_takeStamp (h : Ledger id capacity past c s)
    (hmade : made past + 1 < UInt32.size) :
    c.table.takeStamp.1.toNat = made past + 1 := by
  have hnext : c.table.nextStamp.toNat = made past + 1 := by
    rw [h.stamp, UInt32.toNat_ofNat_of_lt' hmade]
  have hne : c.table.nextStamp ≠ 0 := by
    intro h0
    rw [h0] at hnext
    exact nomatch hnext
  rw [NodeTable.takeStamp, if_neg hne, hnext]

variable {reply : Reply Error Chain Event Answer}

/-- A node that was taken from the storage was offered by it. -/
theorem Simulates.taken (hs : Simulates c s r offer reply) (ht : r.taken offer = some node) :
    Offers c.table s (.ok node) ∧ Chain.created reply.log = 1 := by
  have hlog := hs.created
  rw [ht] at hlog
  unfold Request.taken at ht
  split at ht
  · rename_i hcreates
    cases offer with
    | error e => simp [Except.toOption] at ht
    | ok n =>
      obtain rfl := Option.some.inj ht
      exact ⟨hs.offers hcreates, hlog⟩
  · simp at ht

theorem Simulates.mem_answered (hs : Simulates c s r offer reply)
    (hn : node ∈ answered reply.answer) : node ∈ s.nodes ∨ r.taken offer = some node := by
  rcases hs.answer with ha | ⟨-, stats, ha⟩
  · rw [ha] at hn
    exact Sequence.mem_answered_step offer s r hn
  · rw [ha] at hn
    cases stats <;> exact nomatch hn

theorem Simulates.mem_nodes (hs : Simulates c s r offer reply)
    (hn : node ∈ Sequence.nodes (s.step offer r).2) :
    node ∈ s.nodes ∨ node ∈ answered reply.answer := by
  rcases Sequence.mem_nodes_step offer s r hn with hn | ⟨ht, hstep⟩
  · exact .inl hn
  · rcases hs.answer with ha | ⟨rfl, -⟩
    · rw [ha, hstep]
      exact .inr (List.mem_singleton_self node)
    · exact nomatch ht

theorem Ledger.nextStamp (h : Ledger id capacity past c s) (hs : Simulates c s r offer reply)
    (hmade : made past + created reply.log < UInt32.size) :
    reply.state.table.nextStamp = UInt32.ofNat (made past + created reply.log + 1) := by
  rw [hs.stamp]
  cases ht : r.taken offer with
  | none =>
    have hlog := hs.created
    rw [ht] at hlog
    rw [hlog]
    exact h.stamp
  | some node =>
    obtain ⟨⟨-, -, -, hstamp, -⟩, hlog⟩ := hs.taken ht
    rw [hlog] at hmade ⊢
    apply UInt32.toNat_inj.1
    simp only [Option.map_some, Option.getD_some, hstamp, UInt32.toNat_add,
      h.toNat_takeStamp hmade, UInt32.toNat_ofNat', UInt32.toNat_one]

/-- The references that are known after a request are numbered, too. -/
theorem Ledger.simulates (h : Ledger id capacity past c s) (hs : Simulates c s r offer reply)
    (hmade : made past + created reply.log < UInt32.size) :
    Ledger id capacity (past ++ [⟨r, reply.answer, reply.log⟩]) reply.state
      (s.step offer r).2 where
  holds := hs.holds
  arena := hs.id.trans h.arena
  capacity := hs.capacity.trans h.capacity
  live := by rw [hs.live, h.live, ended_concat, Bool.not_or]
  stamp := by rw [made_concat, h.nextStamp hs hmade]
  bounded := by
    intro n hn
    have hold : n ∈ issued past → n.arena = id ∧ n.stamp ≠ 0 ∧
        n.stamp.toNat ≤ made past + created reply.log := by
      intro hn
      obtain ⟨harena, hne, hle⟩ := h.bounded n hn
      exact ⟨harena, hne, Nat.le_trans hle (Nat.le_add_right _ _)⟩
    rw [made_concat]
    rw [issued_concat, List.mem_append] at hn
    rcases hn with hn | hn
    · exact hold hn
    · rcases hs.mem_answered hn with hn | ht
      · exact hold (h.nodes n hn)
      · obtain ⟨⟨-, -, harena, hstamp, -⟩, hlog⟩ := hs.taken ht
        rw [hlog] at hmade
        refine ⟨harena.trans h.arena, hstamp ▸ NodeTable.takeStamp_ne_zero _, ?_⟩
        exact Nat.le_of_eq ((hstamp ▸ h.toNat_takeStamp hmade).trans (by rw [hlog]))
  nodes := by
    intro n hn
    rw [issued_concat]
    rcases hs.mem_nodes hn with hn | hn
    · exact List.mem_append_left _ (h.nodes n hn)
    · exact List.mem_append_right _ hn

/-- A request with references that are known has a reply. While stamps are new
it is the one that the sequence calls for, and a node that it took from the
storage is one that no answer has named. -/
theorem Ledger.serve (h : Ledger id capacity past c s)
    (hknown : ∀ n ∈ r.nodes, n.arena = id → n ∈ issued past) :
    ∃ reply, c.serve r = .ok reply ∧
      (made (past ++ [⟨r, reply.answer, reply.log⟩]) < UInt32.size →
        ∃ offer, Simulates c s r offer reply ∧ (∀ n, r.taken offer = some n → n ∉ issued past) ∧
          Ledger id capacity (past ++ [⟨r, reply.answer, reply.log⟩]) reply.state
            (s.step offer r).2) := by
  have hbound : ∀ n ∈ r.nodes, n.arena = c.table.arena.id →
      n.stamp ≠ 0 ∧ n.stamp.toNat ≤ made past := fun n hn ha =>
    (h.bounded n (hknown n hn (ha.trans h.arena))).2
  obtain ⟨reply, hserve, hcase⟩ := serve_cases h.holds r fun n hn ha => (hbound n hn ha).1
  refine ⟨reply, hserve, ?_⟩
  intro hmade
  rw [made_concat] at hmade
  rcases hcase with ⟨offer, hs⟩ | ⟨⟨hlog, -⟩, n, v, rfl, -, ha, hstamp⟩
  · refine ⟨offer, hs, ?_, h.simulates hs hmade⟩
    intro n ht hn
    obtain ⟨⟨-, -, -, hstamp, -⟩, hlog⟩ := hs.taken ht
    have hle := (h.bounded n hn).2.2
    rw [hstamp, h.toNat_takeStamp (hlog ▸ hmade)] at hle
    omega
  · have hle := (hbound n (List.mem_singleton_self n) ha).2
    rw [hstamp, h.toNat_takeStamp (hlog ▸ hmade)] at hle
    omega

/-! ### The empty chain -/

/-- An empty chain over an arena that was just reserved. -/
def empty (id : ArenaId) (config : Pool.Config) : Chain where
  table.space.arena := ⟨id, ⟨Array.replicate config.capacity 0⟩⟩
  table.space.zeroing := config.zeroing

variable {config : Pool.Config}

theorem initialise_eq (supply : Supply) (hpos : 1 ≤ config.capacity)
    (hmax : config.capacity ≤ NodeTable.maxCapacity) :
    (initialise supply config).answer = .ok (empty supply.next config) := by
  have hvalid : config.validate = .ok () := if_neg (Nat.ne_of_gt hpos)
  have hreserve : Arena.reserve? supply.next config.capacity = some _ :=
    if_pos ⟨rfl, Nat.le_trans hmax (by decide)⟩
  simp only [initialise, NodeTable.initialise, if_neg (Nat.not_lt.2 hmax), Pool.initialise,
    hvalid, hreserve]
  rfl

/-- A chain is not initialised where its arena is not available. -/
theorem initialise_unavailable (supply : Supply) (hpos : 1 ≤ config.capacity)
    (hmax : config.capacity ≤ NodeTable.maxCapacity) :
    (initialise supply config false).answer =
        .error (.pool (.arenaUnavailable config.capacity)) ∧
      (initialise supply config false).state = supply := by
  have hvalid : config.validate = .ok () := if_neg (Nat.ne_of_gt hpos)
  have hreserve : Arena.reserve? supply.next config.capacity false = none :=
    if_neg fun h => nomatch h.1
  simp only [initialise, NodeTable.initialise, if_neg (Nat.not_lt.2 hmax), Pool.initialise,
    hvalid, hreserve, and_self]

/-- A chain needs a byte, and offsets must reach all of them. -/
theorem initialise_refused
    (hcapacity : ¬ (1 ≤ config.capacity ∧ config.capacity ≤ NodeTable.maxCapacity))
    (supply : Supply) (available : Bool) :
    (initialise supply config available).answer =
        .error (.invalidCapacity config.capacity) ∧
      (initialise supply config available).state = supply := by
  by_cases hmax : NodeTable.maxCapacity < config.capacity
  · simp only [initialise, NodeTable.initialise, if_pos hmax, and_self]
  · have hzero : config.capacity = 0 := by omega
    have hvalid : config.validate = .error (.invalidCapacity config.capacity) := if_pos hzero
    simp only [initialise, NodeTable.initialise, if_neg hmax, Pool.initialise, hvalid, and_self]

/-- A chain is not initialised over an arena of another length. -/
theorem bounds_of_initialise {supply : Supply} (h : (initialise supply config).answer = .ok c) :
    1 ≤ config.capacity ∧ config.capacity ≤ NodeTable.maxCapacity := by
  by_contra hcapacity
  exact nomatch (initialise_refused hcapacity supply true).1.symm.trans h

/-- A chain is empty when it is initialised, and its arena has the next identity. -/
theorem initialise_ok {supply : Supply} (h : (initialise supply config).answer = .ok c) :
    c = empty supply.next config ∧ config.capacity ≤ NodeTable.maxCapacity ∧
      (initialise supply config).state = supply.rest := by
  obtain ⟨hpos, hmax⟩ := bounds_of_initialise h
  refine ⟨Except.ok.inj (h.symm.trans (initialise_eq supply hpos hmax)), hmax, ?_⟩
  have hvalid : config.validate = .ok () := if_neg (Nat.ne_of_gt hpos)
  have hreserve : Arena.reserve? supply.next config.capacity = some _ :=
    if_pos ⟨rfl, Nat.le_trans hmax (by decide)⟩
  simp only [initialise, NodeTable.initialise, if_neg (Nat.not_lt.2 hmax), Pool.initialise,
    hvalid, hreserve]

/-- An initialisation that is refused takes no identity. -/
theorem initialise_error {supply : Supply} {available : Bool} {e : Error}
    (h : (initialise supply config available).answer = .error e) :
    (initialise supply config available).state = supply := by
  by_cases hcapacity : 1 ≤ config.capacity ∧ config.capacity ≤ NodeTable.maxCapacity
  · cases available with
    | false => exact (initialise_unavailable supply hcapacity.1 hcapacity.2).2
    | true =>
      rw [initialise_eq supply hcapacity.1 hcapacity.2] at h
      exact nomatch h
  · exact (initialise_refused hcapacity supply available).2

theorem ledger_empty (id : ArenaId) (hmax : config.capacity ≤ NodeTable.maxCapacity) :
    Ledger id config.capacity [] (empty id config) [] := by
  have hreserve : Arena.reserve? id config.capacity =
      some ⟨id, ⟨Array.replicate config.capacity 0⟩⟩ :=
    if_pos ⟨rfl, Nat.le_trans hmax (by decide)⟩
  have hsize : (empty id config).table.arena.capacity = config.capacity := Array.size_replicate
  have htidy : (empty id config).table.Tidy :=
    ⟨Pool.reserve?_sound hreserve, Nat.le_trans (Nat.le_of_eq hsize) hmax, fun b hb => (nomatch hb),
      fun i _ => Arena.byte_reserved hreserve i, fun _ => rfl⟩
  have hholds : (empty id config).Holds [] :=
    ⟨⟨htidy, fun p hp => (nomatch hp), .refl _⟩, trivial, rfl⟩
  exact ⟨hholds, rfl, hsize, rfl, rfl, fun n hn => (nomatch hn),
    fun n hn => nomatch hn⟩

end Chain
end FirstFit
