/-
# What a reference means over a run

Every node that is created gets the next stamp, so the nodes of a run are told
apart by their stamps alone, also those that have shared a slot. A reference
to a node is good from the answer that names it until the node is removed or
the chain cleaned up. From then on it is refused for good, and so is a
reference to a node of another chain, whatever the slot it points to holds.

Key definitions: `Chain.creation`, `Chain.added`, `Chain.deleted`,
`Chain.Misses`, `Chain.Register`.
Key theorems: `Sequence.mem_step`, `Holds.misses`, `Register.serve`,
`Register.found`, `Register.missed`.
-/
import FirstFit.Proofs.Chain.Refusal

namespace FirstFit
namespace Chain

variable {c : Chain} {s : Sequence} {r : Request} {v : UInt16} {node : NodeRef}
  {p : NodeRef × UInt16} {offer : Except Pool.Error NodeRef} {past : List Exchange}
  {x : Exchange} {id : ArenaId} {capacity : Nat} {born : List NodeRef}

/-! ### Nodes that come and go -/

/-- The value that a request is to put in, unless it lacks an anchor. -/
def Request.adds (r : Request) : Option UInt16 := r.wants.map Prod.fst

theorem Request.creates_of_adds (h : r.adds = some v) : r.creates = true := by
  obtain ⟨_, hwants, -⟩ := Option.map_eq_some_iff.1 h
  rw [creates_eq, hwants]
  rfl

/-- The node that the storage gives to a request, whether it is put in or given
back at once. -/
def creation (c : Chain) (r : Request) : Option NodeRef :=
  match r.wants with
  | some (v, next) => given (c.table.create v next)
  | none => none
where
  given (made : Checked (Reply Error NodeTable Event NodeRef)) : Option NodeRef :=
    made.toOption.bind fun reply => reply.answer.toOption

/-- The node and the value that a request put in. -/
def Exchange.added (x : Exchange) : List (NodeRef × UInt16) :=
  match x.request.adds, x.answer with
  | some v, .ok (.node n) => [(n, v)]
  | _, _ => []

/-- The node that a request removed. -/
def Exchange.deleted (x : Exchange) : List NodeRef :=
  match x.request with
  | .delete _ => x.log.filterMap Event.deletion
  | _ => []

/-- The nodes that were put in so far, with their values. -/
def added (past : List Exchange) : List (NodeRef × UInt16) := past.flatMap Exchange.added

/-- The nodes that were removed so far, one at a time. -/
def deleted (past : List Exchange) : List NodeRef := past.flatMap Exchange.deleted

theorem added_concat : added (past ++ [x]) = added past ++ x.added := by
  rw [added, List.flatMap_append, List.flatMap_singleton]
  rfl

theorem deleted_concat : deleted (past ++ [x]) = deleted past ++ x.deleted := by
  rw [deleted, List.flatMap_append, List.flatMap_singleton]
  rfl

theorem Exchange.mem_added :
    p ∈ x.added ↔ x.request.adds = some p.2 ∧ x.answer = .ok (.node p.1) := by
  unfold added
  split
  · rename_i v n hv hn
    rw [hv, hn, List.mem_singleton]
    constructor
    · rintro rfl
      exact ⟨rfl, rfl⟩
    · rintro ⟨h1, h2⟩
      exact Prod.ext (Answer.node.inj (Except.ok.inj h2)).symm (Option.some.inj h1).symm
  · rename_i hne
    refine ⟨fun h => (nomatch h), ?_⟩
    rintro ⟨h1, h2⟩
    exact (hne _ _ h1 h2).elim

variable {reply : Reply Error Chain Event Answer}

/-- A request creates a node, which has the next stamp, or creates none. -/
theorem Simulates.creation (hs : Simulates c s r offer reply) (h : c.Holds s) :
    (c.creation r = none ∧ Chain.created reply.log = 0) ∨
    ∃ n, c.creation r = some n ∧ Chain.created reply.log = 1 ∧ c.table.isLive = true ∧
      n.arena = c.table.arena.id ∧ n.stamp = c.table.takeStamp.1 := by
  have hlog := hs.created
  have hcreates := r.creates_eq
  unfold Chain.creation
  cases hwants : r.wants with
  | none =>
    rw [hwants] at hcreates
    rw [Request.taken, hcreates] at hlog
    exact .inl ⟨rfl, hlog⟩
  | some want =>
    rw [hwants] at hcreates
    rw [Request.taken, hcreates] at hlog
    have hoffers := hs.offers hcreates
    rcases h.create want.1 want.2 with ⟨e, log, hcreate, hfull, -⟩ | ⟨node, t', hcreate, he⟩
    · simp only [hcreate]
      cases offer with
      | error e' => exact .inl ⟨rfl, hlog⟩
      | ok n => exact absurd (hfull hoffers.1) (Nat.not_le_of_lt hoffers.2.1)
    · simp only [hcreate]
      obtain ⟨hlive, hroom, harena, hstamp, -⟩ := he.offers
      cases offer with
      | error e' => exact absurd (hoffers hlive) (Nat.not_le_of_lt hroom)
      | ok n => exact .inr ⟨node, rfl, hlog, hlive, harena, hstamp⟩

/-- A request that puts in a node created it. -/
theorem Placing.creation {next : Option NodeRef} {refusal : Option Error}
    {reply : Reply Error Chain Event NodeRef} (hr : c.Placing v next refusal reply)
    (ha : reply.answer = .ok node) : creation.given (c.table.create v next) = some node := by
  cases hr with
  | refused => exact nomatch ha
  | @discarded _ t _ before after e _ hcreate _ hdiscard =>
    obtain ⟨⟨table, log⟩, -, hreply⟩ := Checked.bind_eq_ok.1 hdiscard
    obtain rfl := Except.ok.inj hreply
    exact nomatch ha
  | placed hcreate hanswer =>
    rw [hcreate]
    exact congrArg _ (Except.ok.inj (hanswer.symm.trans ha))

theorem creation_of_added (hserve : c.serve r = .ok reply)
    (hp : p ∈ Exchange.added ⟨r, reply.answer, reply.log⟩) : c.creation r = some p.1 := by
  obtain ⟨hadds, hanswer⟩ := Exchange.mem_added.1 hp
  obtain ⟨⟨v, next⟩, hwants, -⟩ := Option.map_eq_some_iff.1 hadds
  obtain ⟨inner, rfl, hplacing⟩ := placing_of_serve hserve hwants
  obtain ⟨n, hn, hmap⟩ := Reply.ok_of_map hanswer
  obtain rfl : n = p.1 := Answer.node.inj hmap
  unfold creation
  rw [hwants]
  exact hplacing.creation hn

/-- What a request to delete logs is the first node with the value. -/
theorem deleted_of_serve (h : c.Holds s) (hserve : c.serve (.delete v) = .ok reply) :
    Exchange.deleted ⟨.delete v, reply.answer, reply.log⟩ =
      ((s.find? fun p => p.2 == v).map Prod.fst).toList := by
  obtain ⟨inner, hinner, rfl⟩ := Checked.map_eq_ok.1 hserve
  obtain ⟨inner', hinner', -, hlog⟩ := delete_simulates h (.error .uninitialised) v
  obtain rfl := Except.ok.inj (hinner.symm.trans hinner')
  exact hlog

/-! ### The members of a sequence after a request -/

namespace Sequence

variable {anchor : NodeRef} {new : NodeRef × UInt16}

/-- The node that a request takes out of a sequence. -/
def removed (s : Sequence) : Request → List NodeRef
  | .delete v => ((s.find? fun p => p.2 == v).map Prod.fst).toList
  | _ => []

theorem mem_nodes_of_removed (h : node ∈ s.removed r) : node ∈ s.nodes := by
  cases r with
  | delete v =>
    obtain ⟨p, hp, rfl⟩ := Option.map_eq_some_iff.1 (Option.mem_toList.1 h)
    exact List.mem_map.2 ⟨p, List.mem_of_find?_eq_some hp, rfl⟩
  | _ => exact nomatch h

theorem mem_behind (h : anchor ∈ s.nodes) : p ∈ s.behind anchor new ↔ p ∈ s ∨ p = new := by
  obtain ⟨pre, w, post, rfl, hpre⟩ := exists_split h
  rw [behind_append hpre]
  simp only [List.mem_append, List.mem_cons]
  tauto

theorem mem_inFront (h : anchor ∈ s.nodes) : p ∈ s.inFront anchor new ↔ p ∈ s ∨ p = new := by
  obtain ⟨pre, w, post, rfl, hpre⟩ := exists_split h
  rw [inFront_append hpre]
  simp only [List.mem_append, List.mem_cons]
  tauto

theorem mem_add {put : NodeRef × UInt16 → Except Error Sequence}
    (hput : ∀ new s', put new = .ok s' → (p ∈ s' ↔ p ∈ s ∨ p = new)) :
    p ∈ (s.add offer v put).2 ↔
      p ∈ s ∨ some v = some p.2 ∧ (s.add offer v put).1 = .ok (.node p.1) := by
  cases offer with
  | error e => simp [add]
  | ok n =>
    simp only [add]
    cases hp : put (n, v) with
    | error e => simp
    | ok s' =>
      rw [hput _ _ hp]
      constructor
      · rintro (h | rfl)
        · exact .inl h
        · exact .inr ⟨rfl, rfl⟩
      · rintro (h | ⟨h1, h2⟩)
        · exact .inl h
        · exact .inr (Prod.ext (Answer.node.inj (Except.ok.inj h2)).symm
            (Option.some.inj h1).symm)

/-- A node is in the sequence after a request if it was before and the request
did not remove it, or the request put it in. -/
theorem mem_step (hnodup : s.nodes.Nodup) (offer : Except Pool.Error NodeRef) :
    p ∈ (s.step offer r).2 ↔ (p ∈ s ∧ p.1 ∉ s.removed r ∧ r.ends = false) ∨
      r.adds = some p.2 ∧ (s.step offer r).1 = .ok (.node p.1) := by
  cases r with
  | insert v =>
    rw [step, mem_add]
    · simp [removed, Request.ends, Request.adds, Request.wants]
    · rintro new s' hs
      obtain rfl := Except.ok.inj hs
      simp
  | insertAfter anchor v =>
    cases anchor with
    | none => simp [step, removed, Request.ends]
    | some anchor =>
      rw [step, mem_add]
      · simp [removed, Request.ends, Request.adds, Request.wants]
      · rintro new s' hs
        split at hs
        · rename_i hm
          obtain rfl := Except.ok.inj hs
          exact mem_behind hm
        · cases hs
  | insertBefore anchor v =>
    cases anchor with
    | none => simp [step, removed, Request.ends]
    | some anchor =>
      rw [step, mem_add]
      · simp [removed, Request.ends, Request.adds, Request.wants]
      · rintro new s' hs
        split at hs
        · rename_i hm
          obtain rfl := Except.ok.inj hs
          exact mem_inFront hm
        · cases hs
  | delete v =>
    rcases stopAt_value v s none with ⟨hne, -⟩ | ⟨pre, q, post, rfl, hne, -⟩
    · simp [step_delete_missed offer hne, removed, find_missed hne, Request.ends]
    · rw [step_delete_append offer hne, removed, find_append hne]
      have hmiddle : (pre ++ (q, v) :: post).Perm ((q, v) :: (pre ++ post)) := List.perm_middle
      have hq := (List.nodup_cons.1 ((hmiddle.map Prod.fst).nodup_iff.1 hnodup)).1
      rw [hmiddle.mem_iff, List.mem_cons]
      constructor
      · intro hp
        refine .inl ⟨.inr hp, fun hm => hq ?_, rfl⟩
        obtain rfl : p.1 = q := List.mem_singleton.1 hm
        exact List.mem_map.2 ⟨p, hp, rfl⟩
      · rintro (⟨rfl | hp, hm, -⟩ | ⟨h, -⟩)
        · exact absurd (List.mem_singleton_self q) hm
        · exact hp
        · cases h
  | cleanUp => simp [step, Request.ends, Request.adds, Request.wants]
  | search v => rw [step]; split <;> simp [removed, Request.ends, Request.adds, Request.wants]
  | get n => rw [step]; split <;> simp [removed, Request.ends, Request.adds, Request.wants]
  | _ => simp [step, removed, Request.ends, Request.adds, Request.wants]

end Sequence

/-! ### References that are refused -/

/-- There is storage for another node, and a stamp that none has had. -/
structure CanCreate (c : Chain) : Prop where
  storage : ∃ h p log, c.table.pool.allocate Node.size = .ok ⟨.ok h, p, log⟩
  stamp : c.table.nextStamp ≠ 0

/-- No request finds the node that a reference names. -/
structure Misses (c : Chain) (node : NodeRef) : Prop where
  get : ∃ log, c.get node = .ok ⟨.error .nullReference, c, log⟩
  behind : c.CanCreate → ∀ v, ∃ reply, c.insertAfter (some node) v = .ok reply ∧
    reply.answer = .error .nullReference
  inFront : c.CanCreate → ∀ v, ∃ reply, c.insertBefore (some node) v = .ok reply ∧
    reply.answer = .error .notFound
  range : ∀ last, ∃ log, c.segment (some node) last = .ok ([], log)

theorem create_ne_error {t t' : NodeTable} {h : Pool.Handle} {p : Pool} {log : List Pool.Event}
    (hstorage : t.pool.allocate Node.size = .ok ⟨.ok h, p, log⟩) {next : Option NodeRef}
    {e : Error} {log' : List Event} : t.create v next ≠ .ok ⟨.error e, t', log'⟩ := by
  intro hcreate
  simp only [NodeTable.create, hstorage, Checked.ok_bind] at hcreate
  obtain ⟨offset, -, hcreate⟩ := Checked.bind_eq_ok.1 hcreate
  obtain ⟨base, -, hcreate⟩ := Checked.bind_eq_ok.1 hcreate
  obtain ⟨t₁, -, hcreate⟩ := Checked.bind_eq_ok.1 hcreate
  obtain ⟨t₂, -, hcreate⟩ := Checked.bind_eq_ok.1 hcreate
  cases congrArg Reply.answer (Except.ok.inj hcreate)

/-- If a node can be created, the storage offers one. -/
theorem CanCreate.offers (hc : c.CanCreate) (h : c.Holds s)
    (hs : Simulates c s r offer reply) (hcreates : r.creates = true) : ∃ n, offer = .ok n := by
  obtain ⟨_, _, _, hstorage⟩ := hc.storage
  rcases h.create 0 none with ⟨e, log, hcreate, -⟩ | ⟨node, t', -, he⟩
  · exact (create_ne_error hstorage hcreate).elim
  · cases offer with
    | error e =>
      exact absurd (hs.offers hcreates he.offers.1) (Nat.not_le_of_lt he.offers.2.1)
    | ok n => exact ⟨n, rfl⟩

theorem Holds.misses (h : c.Holds s) (hm : node ∉ s.nodes)
    (hstamp : node.arena = c.table.arena.id →
      node.stamp ≠ 0 ∧ (c.table.nextStamp ≠ 0 → node.stamp ≠ c.table.nextStamp)) :
    c.Misses node where
  get := by
    rcases h.checkLive_cases node fun ha => (hstamp ha).1 with ⟨hm', -⟩ | ⟨-, log, hrefused, -⟩
    · exact absurd hm' hm
    · refine ⟨log, ?_⟩
      unfold Chain.get
      rw [hrefused]
      rfl
  behind := by
    intro hc v
    obtain ⟨reply, hreply, hcase⟩ := insertAfter_cases h (some node) v fun n hn ha => by
      obtain rfl := Option.some.inj hn
      exact (hstamp ha).1
    refine ⟨reply, hreply, ?_⟩
    rcases hcase with ⟨offer, hs⟩ | ⟨-, n, hn, -, harena, hnew⟩
    · obtain ⟨n, rfl⟩ := hc.offers h hs rfl
      have hstep : (s.step (.ok n) (.insertAfter (some node) v)).1 = .error .nullReference := by
        simp only [Sequence.step, Sequence.add, if_neg hm]
      have hanswer := (hs.answer_eq (by simp)).trans hstep
      exact Reply.error_of_map hanswer
    · -- the node to be created would be the one that the reference names
      obtain rfl := Option.some.inj hn
      rw [NodeTable.takeStamp, if_neg hc.stamp] at hnew
      exact absurd hnew ((hstamp harena).2 hc.stamp)
  inFront := by
    intro hc v
    obtain ⟨offer, reply, hreply, hs⟩ := insertBefore_simulates h (some node) v
    obtain ⟨n, rfl⟩ := hc.offers h hs rfl
    refine ⟨reply, hreply, ?_⟩
    have hstep : (s.step (.ok n) (.insertBefore (some node) v)).1 = .error .notFound := by
      simp only [Sequence.step, Sequence.add, if_neg hm]
    have hanswer := (hs.answer_eq (by simp)).trans hstep
    exact Reply.error_of_map hanswer
  range := by
    intro last
    obtain ⟨log, hsegment, -⟩ := segment_eq h (some node) last fun n hn ha => by
      obtain rfl := Option.some.inj hn
      exact (hstamp ha).1
    exact ⟨log, by rw [hsegment, Sequence.segment_missed last hm]⟩

/-! ### What a run adds up to -/

/-- A ledger together with the nodes that were created, in this order, those
that were put in, and those that were removed. -/
structure Register (id : ArenaId) (capacity : Nat) (past : List Exchange) (born : List NodeRef)
    (c : Chain) (s : Sequence) : Prop extends Ledger id capacity past c s where
  numbered : born.map (fun n => n.stamp.toNat) = List.range' 1 (made past)
  owned : ∀ n ∈ born, n.arena = id
  created : ∀ p ∈ added past, p.1 ∈ born
  removed : ∀ n ∈ deleted past, n ∈ issued past
  members : ∀ p, p ∈ s ↔ p ∈ added past ∧ p.1 ∉ deleted past ∧ ended past = false

theorem Register.stamp_le (h : Register id capacity past born c s) (hn : node ∈ born) :
    1 ≤ node.stamp.toNat ∧ node.stamp.toNat ≤ made past := by
  have hmem : node.stamp.toNat ∈ List.range' 1 (made past) := by
    rw [← h.numbered]
    exact List.mem_map.2 ⟨node, hn, rfl⟩
  have := List.mem_range'_1.1 hmem
  omega

/-- Stamps ascend in the order in which the nodes were created. -/
theorem Register.ascending (h : Register id capacity past born c s) :
    born.Pairwise fun m n => m.stamp < n.stamp := by
  have hlt : (born.map fun n => n.stamp.toNat).Pairwise (· < ·) := by
    rw [h.numbered]
    exact List.pairwise_lt_range'
  exact (List.pairwise_map.1 hlt).imp UInt32.lt_iff_toNat_lt.2

/-- The request puts in a node that is the next one to be numbered. -/
theorem Register.fresh (h : Register id capacity past born c s) (hs : Simulates c s r offer reply)
    (hserve : c.serve r = .ok reply) (hmade : made past + Chain.created reply.log < UInt32.size)
    (hp : p ∈ Exchange.added ⟨r, reply.answer, reply.log⟩) :
    p.1.stamp.toNat = made past + 1 ∧ ended past = false := by
  have hp' := creation_of_added hserve hp
  rcases hs.creation h.holds with ⟨hnone, -⟩ | ⟨n, hn, hlog, hlive, -, hstamp⟩
  · exact nomatch hnone.symm.trans hp'
  · obtain rfl := Option.some.inj (hn.symm.trans hp')
    rw [hlog] at hmade
    rw [hstamp, h.toNat_takeStamp hmade]
    refine ⟨rfl, ?_⟩
    have := h.live
    rw [hlive] at this
    simpa using this

theorem Simulates.added_iff (hs : Simulates c s r offer reply) :
    p ∈ Exchange.added ⟨r, reply.answer, reply.log⟩ ↔
      r.adds = some p.2 ∧ (s.step offer r).1 = .ok (.node p.1) := by
  rw [Exchange.mem_added]
  rcases hs.answer with ha | ⟨rfl, -⟩
  · rw [ha]
  · exact ⟨fun h => (nomatch h.1), fun h => (nomatch h.1)⟩

theorem deleted_eq (h : c.Holds s) (hserve : c.serve r = .ok reply) :
    Exchange.deleted ⟨r, reply.answer, reply.log⟩ = s.removed r := by
  cases r with
  | delete v => exact deleted_of_serve h hserve
  | _ => rfl

/-- One request: what it creates is numbered, and what it puts in or removes is
added to the accounts. -/
theorem Register.simulates (h : Register id capacity past born c s)
    (hs : Simulates c s r offer reply) (hserve : c.serve r = .ok reply)
    (hmade : made past + Chain.created reply.log < UInt32.size) :
    Register id capacity (past ++ [⟨r, reply.answer, reply.log⟩])
      (born ++ (c.creation r).toList) reply.state (s.step offer r).2 where
  toLedger := h.toLedger.simulates hs hmade
  numbered := by
    rw [made_concat, List.map_append, h.numbered]
    rcases hs.creation h.holds with ⟨hnone, hlog⟩ | ⟨n, hn, hlog, -, -, hstamp⟩
    · rw [hnone, hlog]
      exact List.append_nil _
    · rw [hlog] at hmade
      rw [hn, hlog, List.range'_concat]
      have := h.toNat_takeStamp hmade
      simp [hstamp, this, Nat.add_comm]
  owned := by
    intro n hn
    rcases List.mem_append.1 hn with hn | hn
    · exact h.owned n hn
    · rcases hs.creation h.holds with ⟨hnone, -⟩ | ⟨m, hm, -, -, harena, -⟩
      · rw [hnone] at hn
        exact nomatch hn
      · rw [hm] at hn
        obtain rfl := List.mem_singleton.1 hn
        exact harena.trans h.arena
  created := by
    intro p hp
    rw [added_concat] at hp
    rcases List.mem_append.1 hp with hp | hp
    · exact List.mem_append_left _ (h.created p hp)
    · rw [creation_of_added hserve hp]
      exact List.mem_append_right _ (List.mem_singleton_self p.1)
  removed := by
    intro n hn
    rw [deleted_concat, deleted_eq h.holds hserve] at hn
    rw [issued_concat]
    apply List.mem_append_left
    rcases List.mem_append.1 hn with hn | hn
    · exact h.removed n hn
    · exact h.nodes n (Sequence.mem_nodes_of_removed hn)
  members := by
    intro p
    -- what is put in has a stamp that nothing had that was removed before
    have hnew : p ∈ Exchange.added ⟨r, reply.answer, reply.log⟩ →
        p.1 ∉ issued past ∧ ended past = false ∧ r.ends = false := by
      intro hp
      obtain ⟨hstamp, hended⟩ := h.fresh hs hserve hmade hp
      refine ⟨fun hm => ?_, hended, ?_⟩
      · have := (h.bounded p.1 hm).2.2
        omega
      · exact Request.ends_of_creates (Request.creates_of_adds (hs.added_iff.1 hp).1)
    have hdeleted : p.1 ∈ deleted past → p.1 ∈ issued past := h.removed p.1
    have hremoved : p.1 ∈ s.removed r → p.1 ∈ issued past := fun hm =>
      h.nodes p.1 (Sequence.mem_nodes_of_removed hm)
    rw [Sequence.mem_step h.holds.stored.nodup_nodes, ← hs.added_iff, h.members, added_concat,
      deleted_concat, ended_concat, deleted_eq h.holds hserve, List.mem_append, List.mem_append,
      Bool.or_eq_false_iff]
    tauto

theorem Register.serve (h : Register id capacity past born c s)
    (hknown : ∀ n ∈ r.nodes, n.arena = id → n ∈ issued past) (hserve : c.serve r = .ok reply)
    (hmade : made (past ++ [⟨r, reply.answer, reply.log⟩]) < UInt32.size) :
    ∃ s', Register id capacity (past ++ [⟨r, reply.answer, reply.log⟩])
      (born ++ (c.creation r).toList) reply.state s' := by
  obtain ⟨reply', hserve', hstep⟩ := h.toLedger.serve hknown
  obtain rfl : reply = reply' := Except.ok.inj (hserve.symm.trans hserve')
  obtain ⟨offer, hs, -, -⟩ := hstep hmade
  rw [made_concat] at hmade
  exact ⟨_, h.simulates hs hserve hmade⟩

/-! ### What a reference is good for -/

/-- A node that was put in and is still there has the value it was put in with. -/
theorem Register.found (h : Register id capacity past born c s) (hp : p ∈ added past)
    (hdeleted : p.1 ∉ deleted past) (hended : ended past = false) :
    ∃ log, c.get p.1 = .ok ⟨.ok p.2, c, log⟩ := by
  have hmem : p ∈ s := (h.members p).2 ⟨hp, hdeleted, hended⟩
  have hstamp := (h.holds.stored.owned p hmem).2
  have hnodup := h.holds.stored.nodup_nodes
  obtain ⟨reply, hget, hs⟩ := get_simulates h.holds (.error .uninitialised) fun _ => hstamp
  obtain ⟨pre, post, rfl⟩ := List.append_of_mem hmem
  have hpre : p.1 ∉ Sequence.nodes pre := by
    rw [List.map_append] at hnodup
    exact fun hm => (List.nodup_append.1 hnodup).2.2 p.1 hm p.1 List.mem_cons_self rfl
  have hstep : Sequence.step (.error .uninitialised) (pre ++ p :: post) (.get p.1) =
      (.ok (.value p.2), pre ++ p :: post) := Sequence.step_get_append _ hpre
  have hanswer := (hs.answer_eq (by simp)).trans (congrArg Prod.fst hstep)
  obtain ⟨w, hw, hvalue⟩ := Reply.ok_of_map hanswer
  obtain rfl := Answer.value.inj hvalue
  have hstate := get_state hget
  obtain ⟨answer, c', log⟩ := reply
  obtain rfl : answer = .ok p.2 := hw
  obtain rfl : c' = c := hstate
  exact ⟨log, hget⟩

/-- A node that was removed, or given back without being put in, is not found
again, whatever came into its slot. -/
theorem Register.missed (h : Register id capacity past born c s) (hmade : made past < UInt32.size)
    (hborn : node ∈ born)
    (hgone : node ∈ deleted past ∨ ended past = true ∨ ∀ v, (node, v) ∉ added past) :
    c.Misses node := by
  apply h.holds.misses
  · intro hm
    obtain ⟨p, hp, rfl⟩ := List.mem_map.1 hm
    obtain ⟨hadded, hdeleted, hended⟩ := (h.members p).1 hp
    rcases hgone with hgone | hgone | hgone
    · exact hdeleted hgone
    · exact nomatch hended.symm.trans hgone
    · exact hgone p.2 hadded
  · intro _
    have hle := h.stamp_le hborn
    refine ⟨fun h0 => ?_, fun hnext hstamp => ?_⟩
    · rw [h0] at hle
      exact absurd hle.1 (by decide)
    · by_cases hmax : made past + 1 < UInt32.size
      · have htake : c.table.takeStamp.1 = node.stamp := by
          rw [NodeTable.takeStamp, if_neg hnext, hstamp]
        have := h.toNat_takeStamp hmax
        rw [htake] at this
        omega
      · -- all stamps are used, and the counter says so
        have hlast : made past + 1 = UInt32.size := by omega
        rw [h.stamp, hlast] at hnext
        exact hnext rfl

/-- A node of another arena is never found. -/
theorem Register.foreign (h : Register id capacity past born c s) (ha : node.arena ≠ id) :
    c.Misses node := by
  apply h.holds.misses
  · intro hm
    obtain ⟨p, hp, rfl⟩ := List.mem_map.1 hm
    exact ha ((h.holds.stored.owned p hp).1.trans h.arena)
  · exact fun harena => absurd (harena.trans h.arena) ha

theorem register_empty {config : Pool.Config} (id : ArenaId)
    (hmax : config.capacity ≤ NodeTable.maxCapacity) :
    Register id config.capacity [] [] (empty id config) [] where
  toLedger := ledger_empty id hmax
  numbered := rfl
  owned := fun _ hn => nomatch hn
  created := fun _ hp => nomatch hp
  removed := fun _ hn => nomatch hn
  members := fun _ => ⟨fun hp => (nomatch hp), fun hp => nomatch hp.1⟩

end Chain
end FirstFit
