/-
# Adding a node to a chain

A new node is stored before anything is linked. It is linked at the end, or
next to an anchor, by changing where one node leads; if the anchor is not
there its storage is given back, and all that remains is that a stamp is used.
That the pool is torn down in between is looked at, but does not happen where
requests come one after another.

Key theorems: `linked_of_created`, `insert_simulates`, `insertAfter_cases`,
`insertBefore_simulates`.
-/
import FirstFit.Proofs.Chain.Holds

namespace FirstFit
namespace Chain

open Sequence (Linked Owned first)
open NodeTable (Added Stored)

variable {c : Chain} {s s' : Sequence} {r : Request} {v : UInt16} {node : NodeRef}
  {t' : NodeTable}

/-! ### The pool is live -/

/-- The pool that gave a node is not torn down before the node is linked, so
what becomes of the node then is no matter. -/
theorem linked_of_created {α : Type} {t : NodeTable} {next : Option NodeRef}
    (full : NodeTable → Error → List Event → Checked α)
    (linked lost : NodeTable → NodeRef → List Event → Checked α) :
    (do
      let made ← t.create v next
      match made.answer with
      | .error e => full made.state e made.log
      | .ok node =>
        if made.state.pool.isLive then linked made.state node made.log
        else lost made.state node made.log) = (do
      let made ← t.create v next
      match made.answer with
      | .error e => full made.state e made.log
      | .ok node => linked made.state node made.log) := by
  cases hcreate : t.create v next with
  | error f => rfl
  | ok made =>
    simp only [Checked.ok_bind]
    cases hanswer : made.answer with
    | error e => rfl
    | ok node => exact if_pos (NodeTable.live_of_create hcreate hanswer)

theorem insert_eq (c : Chain) (v : UInt16) : c.insert v = (do
    let made ← c.table.create v none
    match made.answer with
    | .error e => return ⟨.error e, { c with table := made.state }, made.log⟩
    | .ok node => c.linkLast made.state node v made.log) := by
  unfold insert
  exact linked_of_created (fun table e log => pure ⟨.error e, { c with table }, log⟩)
    (fun table node log => c.linkLast table node v log)
    fun table node log => c.discard table node log [] (.allocationFailed .uninitialised)

theorem insertBefore_eq (c : Chain) (anchor : NodeRef) (v : UInt16) :
    c.insertBefore (some anchor) v = (do
      let made ← c.table.create v (some anchor)
      match made.answer with
      | .error e => return ⟨.error e, { c with table := made.state }, made.log⟩
      | .ok node => c.linkBefore made.state anchor node v made.log) := by
  unfold insertBefore
  exact linked_of_created (fun table e log => pure ⟨.error e, { c with table }, log⟩)
    (fun table node log => c.linkBefore table anchor node v log)
    fun table node log => c.discard table node log [] (.allocationFailed .uninitialised)

/-- A table with one node more: what a request finds after it asked for one. -/
structure Extended (c : Chain) (s : Sequence) (v : UInt16) (next : Option NodeRef)
    (node : NodeRef) (t' : NodeTable) : Prop where
  offers : Offers c.table s (.ok node)
  live : t'.isLive = true
  stamp : t'.nextStamp = node.stamp + 1
  same : c.table.arena.SameOutside t'.arena node.offset.toNat Node.size
  stored : t'.Stored ((node, v) :: s)
  cell : t'.arena.HasCell node.offset.toNat (.leadingTo v node.stamp next)
  linked : Linked t'.arena none s

/-- A request for a node is refused, or leads to a table with one node more. -/
theorem Holds.create (h : c.Holds s) (v : UInt16) (next : Option NodeRef) :
    (∃ e log, c.table.create v next = .ok ⟨.error (.allocationFailed e), c.table, log⟩ ∧
      Offers c.table s (.error e) ∧ Logged 0 log) ∨
    ∃ node t', c.table.create v next =
        .ok ⟨.ok node, t', [.pool (.allocated node.offset.toNat Node.size)]⟩ ∧
      c.Extended s v next node t' := by
  obtain ⟨reply, hreply, hcase⟩ := h.stored.create v next
  cases hcase with
  | @full e log hroom hlog =>
    refine .inl ⟨e, log, hreply, hroom, ?_⟩
    rcases hlog with rfl | rfl <;> exact ⟨rfl, rfl⟩
  | @added node t' hlive hlive' hroom harena hstamp hnext hsame hcell hstored =>
    refine .inr ⟨node, t', hreply, ⟨hlive, hroom, harena, hstamp, ?_⟩, hlive',
      hnext, hsame, hstored, hcell, hstored.frame (List.Subset.refl s) hsame h.linked⟩
    intro p hp he
    exact (List.nodup_cons.1 hstored.nodup).1
      (List.mem_map.2 ⟨p, hp, congrArg UInt32.toNat he⟩)

/-- The reply of a request that is refused a node. -/
theorem Holds.simulates_full (h : c.Holds s) {e : Pool.Error} {log : List Event}
    (hoffer : Offers c.table s (.error e)) (hlog : Logged 0 log)
    (hcreates : r.creates = true)
    (hstep : s.step (.error e) r = (.error (.allocationFailed e), s)) :
    Simulates c s r (.error e) ⟨.error (.allocationFailed e), c, log⟩ where
  offers _ := hoffer
  answer := .inl (congrArg Prod.fst hstep).symm
  holds := (congrArg Prod.snd hstep).symm ▸ h
  id := rfl
  capacity := rfl
  live := by rw [Request.ends_of_creates hcreates]; exact (Bool.and_true _).symm
  stamp := by rw [Request.taken, hcreates]; rfl
  logged := by rw [Request.taken, hcreates]; exact hlog

/-- The reply of a request that got a node, whatever became of the node. -/
theorem Extended.simulates {next : Option NodeRef} {c' : Chain} {answer : Except Error Answer}
    {log : List Event} (he : c.Extended s v next node t') (hcreates : r.creates = true)
    (hstep : s.step (.ok node) r = (answer, s')) (hholds : c'.Holds s')
    (hid : c'.table.arena.id = t'.arena.id)
    (hcapacity : c'.table.arena.capacity = t'.arena.capacity) (hlive : c'.table.isLive = true)
    (hstamp : c'.table.nextStamp = node.stamp + 1) (hlog : Logged 1 log) :
    Simulates c s r (.ok node) ⟨answer, c', log⟩ where
  offers _ := he.offers
  answer := .inl (congrArg Prod.fst hstep).symm
  holds := (congrArg Prod.snd hstep).symm ▸ hholds
  id := hid.trans he.same.id
  capacity := hcapacity.trans he.same.capacity
  live := by rw [hlive, he.offers.1, Request.ends_of_creates hcreates]; rfl
  stamp := by rw [Request.taken, hcreates]; exact hstamp
  logged := by rw [Request.taken, hcreates]; exact hlog

/-- A stored node that leads to those of `post` is linked behind the node in
front of them. -/
theorem link {t : NodeTable} {pre : Sequence} (post : Sequence) {p : NodeRef × UInt16}
    (h : t.Stored ((node, v) :: (pre ++ p :: post))) (hl : Linked t.arena none (pre ++ p :: post))
    (hcell : t.arena.HasCell node.offset.toNat (.leadingTo v node.stamp (first none post))) :
    ∃ a, t.setNext p.1 (some node) = .ok (t.withArena a) ∧
      t.arena.SameOutside a p.1.offset.toNat Node.size ∧
      (t.withArena a).Stored (pre ++ p :: (node, v) :: post) ∧
      Linked a none (pre ++ p :: (node, v) :: post) := by
  obtain ⟨hpre, hp, hpost⟩ := Sequence.linked_append.1 hl
  have hperm : ((node, v) :: (pre ++ p :: post)).Perm (p :: (node, v) :: (pre ++ post)) := calc
    ((node, v) :: (pre ++ p :: post)).Perm ((node, v) :: p :: (pre ++ post)) :=
      List.perm_middle.cons _
    List.Perm _ (p :: (node, v) :: (pre ++ post)) := .swap _ _ _
  have hstored := h.perm hperm
  obtain ⟨a, hset, hsame, hnew, hstored'⟩ := hstored.setNext hp (some node)
  have hnode : Linked a (first none post) [(node, v)] :=
    hstored.frame (by simp) hsame ⟨hcell, trivial⟩
  have hperm' : (p :: (node, v) :: (pre ++ post)).Perm (pre ++ p :: (node, v) :: post) := calc
    (p :: (node, v) :: (pre ++ post)).Perm (p :: (pre ++ (node, v) :: post)) :=
      List.perm_middle.symm.cons _
    List.Perm _ (pre ++ p :: (node, v) :: post) := List.perm_middle.symm
  refine ⟨a, hset, hsame, hstored'.perm hperm', Sequence.linked_append.2 ⟨?_, hnew, hnode.1, ?_⟩⟩
  · exact hstored.frame (by simp) hsame hpre
  · exact hstored.frame (by simp) hsame hpost

/-! ### At the end -/

theorem insert_simulates (h : c.Holds s) (v : UInt16) :
    ∃ offer reply, c.insert v = .ok reply ∧
      Simulates c s (.insert v) offer (reply.map .node) := by
  rcases h.create v none with ⟨e, log, hcreate, hoffer, hlog⟩ | ⟨node, t', hcreate, he⟩
  · refine ⟨.error e, ⟨.error (.allocationFailed e), c, log⟩, ?_,
      h.simulates_full hoffer hlog rfl rfl⟩
    rw [insert_eq, hcreate]
    rfl
  · have hhead := h.head
    rcases List.eq_nil_or_concat' s with rfl | ⟨pre, p, rfl⟩
    · refine ⟨.ok node, ⟨.ok node, ⟨t', some node⟩,
        [.pool (.allocated node.offset.toNat Node.size), .appended v node]⟩, ?_,
        he.simulates rfl rfl ⟨he.stored, ⟨he.cell, trivial⟩, rfl⟩ rfl rfl he.live he.stamp
          ⟨rfl, rfl⟩⟩
      rw [insert_eq, hcreate, Checked.ok_bind]
      dsimp only
      rw [linkLast, hhead]
      rfl
    · obtain ⟨a, hset, hsame, hstored, hlinked⟩ := link [] he.stored he.linked he.cell
      obtain ⟨head, hfirst⟩ : ∃ head, first (some p.1) pre = some head := by
        cases pre <;> exact ⟨_, rfl⟩
      rw [Sequence.first_append] at hhead
      have hsome : c.head = some head := hhead.trans hfirst
      have hlast : t'.last head = .ok p.1 := by
        refine NodeTable.lastFrom_eq hfirst he.linked (fun q hq => he.stored.owned q
          (List.mem_cons_of_mem _ hq)) ?_
        have := he.stored.length_le
        simp only [List.length_cons, List.length_append] at this
        omega
      refine ⟨.ok node, ⟨.ok node, ⟨t'.withArena a, c.head⟩,
        [.pool (.allocated node.offset.toNat Node.size), .appended v node]⟩, ?_,
        he.simulates rfl rfl ⟨?_, ?_, ?_⟩ hsame.id hsame.capacity he.live he.stamp ⟨rfl, rfl⟩⟩
      · simp only [insert_eq, linkLast, hcreate, hsome, hlast, hset, Checked.ok_bind]
        rfl
      · rw [List.append_assoc]
        exact hstored
      · rw [List.append_assoc]
        exact hlinked
      · rw [hhead, Sequence.first_append, Sequence.first_append]
        rfl

/-! ### Next to an anchor -/

/-- A node that was stored for nothing is given back, and the call is refused. -/
theorem Extended.discard {next : Option NodeRef} {e : Error} (before after : List Event)
    (h : c.Holds s) (he : c.Extended s v next node t') (hcreates : r.creates = true)
    (hstep : s.step (.ok node) r = (.error e, s)) (hbefore : Logged 0 before)
    (hafter : Logged 0 after) :
    ∃ reply : Reply Error Chain Event NodeRef,
      c.discard t' node (.pool (.allocated node.offset.toNat Node.size) :: before) after e =
        .ok reply ∧ Simulates c s r (.ok node) (reply.map .node) := by
  obtain ⟨t'', hrelease, hsame, hstored, hlive, hnext⟩ := he.stored.release he.live
  have hlinked := he.stored.frame (List.Subset.refl s) hsame he.linked
  refine ⟨⟨.error e, { c with table := t'' },
    (.pool (.allocated node.offset.toNat Node.size) :: before) ++
      [.pool (.freed node.offset.toNat Node.size)] ++ after⟩, ?_,
    he.simulates hcreates hstep ⟨hstored, hlinked, h.head⟩ hsame.id hsame.capacity hlive
      (hnext.trans he.stamp) ?_⟩
  · unfold Chain.discard
    rw [hrelease]
    rfl
  · have hallocated : Logged 1 [.pool (.allocated node.offset.toNat Node.size)] := ⟨rfl, rfl⟩
    have hfreed : Logged 0 [.pool (.freed node.offset.toNat Node.size)] := ⟨rfl, rfl⟩
    exact ((hallocated.append hbefore).append hfreed).append hafter

/-- Even an anchor that is the new node itself makes no call fault: it takes
its storage, and one stamp. -/
theorem insertAfter_self (he : c.Extended s v none node t')
    (hcreate : c.table.create v none =
      .ok ⟨.ok node, t', [.pool (.allocated node.offset.toNat Node.size)]⟩) :
    ∃ reply, c.insertAfter (some node) v = .ok reply ∧ reply.answer = .ok node ∧
      Logged 1 reply.log := by
  have hlive : t'.checkLive node = .ok (.ok (), []) :=
    he.stored.checkLive_live (by simp) he.cell
  have hnext : t'.next node = .ok none := NodeTable.next_eq he.cell fun _ hn => nomatch hn
  obtain ⟨a₁, hset₁, -, hcell₁, hstored₁⟩ := he.stored.setNext he.cell none
  obtain ⟨a₂, hset₂, -, -, -⟩ := hstored₁.setNext hcell₁ (some node)
  refine ⟨⟨.ok node, ⟨(t'.withArena a₁).withArena a₂, c.head⟩,
    [.pool (.allocated node.offset.toNat Node.size), .insertedAfter v node node]⟩, ?_, rfl, rfl,
    rfl⟩
  simp only [insertAfter, hcreate, hlive, hnext, hset₁, hset₂, Checked.ok_bind]
  rfl

/-- The anchor is a node of the sequence. -/
theorem insertAfter_found {pre post : Sequence} {anchor : NodeRef} {w : UInt16}
    (hpre : anchor ∉ pre.nodes) (h : c.Holds (pre ++ (anchor, w) :: post))
    (he : c.Extended (pre ++ (anchor, w) :: post) v none node t')
    (hcreate : c.table.create v none =
      .ok ⟨.ok node, t', [.pool (.allocated node.offset.toNat Node.size)]⟩) :
    ∃ reply, c.insertAfter (some anchor) v = .ok reply ∧
      Simulates c (pre ++ (anchor, w) :: post) (.insertAfter (some anchor) v) (.ok node)
        (reply.map .node) := by
  have hsuffix := (Sequence.linked_append.1 he.linked).2
  have hlive : t'.checkLive anchor = .ok (.ok (), []) :=
    he.stored.checkLive_live (by simp) hsuffix.1
  have hnext : t'.next anchor = .ok (first none post) := by
    refine NodeTable.next_linked hsuffix fun q hq => he.stored.owned q ?_
    exact List.mem_cons_of_mem _ (List.mem_append_right _ hq)
  -- the new node takes over the successor of the anchor, then the anchor leads to it
  obtain ⟨a₁, hset₁, hsame₁, hcell₁, hstored₁⟩ := he.stored.setNext he.cell (first none post)
  have hlinked₁ := he.stored.frame (List.Subset.refl _) hsame₁ he.linked
  obtain ⟨a₂, hset₂, hsame₂, hstored₂, hlinked₂⟩ := link post hstored₁ hlinked₁ hcell₁
  have hm : anchor ∈ Sequence.nodes (pre ++ (anchor, w) :: post) := Sequence.mem_nodes_append
  have hstep : Sequence.step (.ok node) (pre ++ (anchor, w) :: post)
        (.insertAfter (some anchor) v) =
      (.ok (.node node), pre ++ (anchor, w) :: (node, v) :: post) := by
    simp only [Sequence.step, Sequence.add, if_pos hm, Sequence.behind_append hpre]
  refine ⟨⟨.ok node, ⟨(t'.withArena a₁).withArena a₂, c.head⟩,
    [.pool (.allocated node.offset.toNat Node.size), .insertedAfter v anchor node]⟩, ?_,
    he.simulates rfl hstep ⟨hstored₂, hlinked₂, ?_⟩ (hsame₂.id.trans hsame₁.id)
      (hsame₂.capacity.trans hsame₁.capacity) he.live he.stamp ⟨rfl, rfl⟩⟩
  · simp only [insertAfter, hcreate, hlive, hnext, hset₁, hset₂, Checked.ok_bind]
    rfl
  · rw [h.head, Sequence.first_append, Sequence.first_append]
    rfl

/-- The anchor is no node, nor will it be one. -/
theorem insertAfter_missed {anchor : NodeRef} (hm : anchor ∉ s.nodes) (hnode : anchor ≠ node)
    (hstamp : anchor.arena = c.table.arena.id → anchor.stamp ≠ 0) (h : c.Holds s)
    (he : c.Extended s v none node t')
    (hcreate : c.table.create v none =
      .ok ⟨.ok node, t', [.pool (.allocated node.offset.toNat Node.size)]⟩) :
    ∃ reply, c.insertAfter (some anchor) v = .ok reply ∧
      Simulates c s (.insertAfter (some anchor) v) (.ok node) (reply.map .node) := by
  have hm' : anchor ∉ ((node, v) :: s).map Prod.fst := fun hmem =>
    (List.mem_cons.1 hmem).elim hnode hm
  have hcells : ∀ p ∈ (node, v) :: s, ∃ next,
      t'.arena.HasCell p.1.offset.toNat (.leadingTo p.2 p.1.stamp next) :=
    List.forall_mem_cons.2 ⟨⟨none, he.cell⟩, fun p hp => he.linked.cell p hp⟩
  obtain ⟨log, hrefused, hlog⟩ := he.stored.checkLive_refused hcells hm' fun ha =>
    hstamp (ha.trans he.same.id)
  have hstep : s.step (.ok node) (.insertAfter (some anchor) v) = (.error .nullReference, s) := by
    simp only [Sequence.step, Sequence.add, if_neg hm]
  obtain ⟨reply, hdiscard, hsimulates⟩ :=
    he.discard log [] h rfl hstep (logged_stale hlog) ⟨rfl, rfl⟩
  refine ⟨reply, ?_, hsimulates⟩
  simp only [insertAfter, hcreate, hrefused, Checked.ok_bind]
  exact hdiscard

theorem insertAfter_cases (h : c.Holds s) (anchor : Option NodeRef) (v : UInt16)
    (hstamp : ∀ n ∈ anchor, n.arena = c.table.arena.id → n.stamp ≠ 0) :
    ∃ reply, c.insertAfter anchor v = .ok reply ∧
      ((∃ offer, Simulates c s (.insertAfter anchor v) offer (reply.map .node)) ∨
        Logged 1 reply.log ∧ ∃ n, anchor = some n ∧ reply.answer = .ok n ∧
          n.arena = c.table.arena.id ∧ n.stamp = c.table.takeStamp.1) := by
  cases anchor with
  | none =>
    exact ⟨⟨.error .nullReference, c, []⟩, rfl,
      .inl ⟨.error .uninitialised, h.same rfl rfl rfl ⟨rfl, rfl⟩⟩⟩
  | some anchor =>
    rcases h.create v none with ⟨e, log, hcreate, hoffer, hlog⟩ | ⟨node, t', hcreate, he⟩
    · refine ⟨⟨.error (.allocationFailed e), c, log⟩, ?_,
        .inl ⟨.error e, h.simulates_full hoffer hlog rfl rfl⟩⟩
      unfold insertAfter
      rw [hcreate]
      rfl
    · by_cases hm : anchor ∈ s.nodes
      · obtain ⟨pre, w, post, rfl, hpre⟩ := Sequence.exists_split hm
        obtain ⟨reply, hreply, hs⟩ := insertAfter_found hpre h he hcreate
        exact ⟨reply, hreply, .inl ⟨.ok node, hs⟩⟩
      by_cases hnode : anchor = node
      · subst hnode
        obtain ⟨reply, hreply, hanswer, hlog⟩ := insertAfter_self he hcreate
        obtain ⟨-, -, harena, hstamp', -⟩ := he.offers
        exact ⟨reply, hreply, .inr ⟨hlog, anchor, rfl, hanswer, harena, hstamp'⟩⟩
      · obtain ⟨reply, hreply, hs⟩ := insertAfter_missed hm hnode (hstamp anchor rfl) h he hcreate
        exact ⟨reply, hreply, .inl ⟨.ok node, hs⟩⟩

/-- The anchor is the head. -/
theorem insertBefore_head {q : NodeRef × UInt16} {rest : Sequence}
    (hhead : c.head = some q.1) (he : c.Extended (q :: rest) v (some q.1) node t')
    (hcreate : c.table.create v (some q.1) =
      .ok ⟨.ok node, t', [.pool (.allocated node.offset.toNat Node.size)]⟩) :
    ∃ offer reply, c.insertBefore (some q.1) v = .ok reply ∧
      Simulates c (q :: rest) (.insertBefore (some q.1) v) offer (reply.map .node) := by
  have hm : q.1 ∈ Sequence.nodes (q :: rest) := List.mem_cons_self
  have hstep : Sequence.step (.ok node) (q :: rest) (.insertBefore (some q.1) v) =
      (.ok (.node node), (node, v) :: q :: rest) := by
    simp only [Sequence.step, Sequence.add, if_pos hm, Sequence.inFront, if_pos]
  refine ⟨.ok node, ⟨.ok node, ⟨t', some node⟩,
    [.pool (.allocated node.offset.toNat Node.size), .insertedAtHead v q.1 node]⟩, ?_,
    he.simulates rfl hstep ⟨he.stored, ⟨he.cell, he.linked⟩, rfl⟩ rfl rfl he.live he.stamp
      ⟨rfl, rfl⟩⟩
  simp only [insertBefore_eq, linkBefore, hcreate, hhead, Checked.ok_bind, if_pos]
  rfl

/-- The anchor comes behind the node `p`. -/
theorem insertBefore_found {pre post : Sequence} {p : NodeRef × UInt16} {w : UInt16}
    {anchor head : NodeRef} {stop : NodeTable.Stop} (hs : s = pre ++ p :: (anchor, w) :: post)
    (h : c.Holds s) (hhead : c.head = some head) (hne : head ≠ anchor)
    (he : c.Extended s v (some anchor) node t')
    (hcreate : c.table.create v (some anchor) =
      .ok ⟨.ok node, t', [.pool (.allocated node.offset.toNat Node.size)]⟩)
    (hfind : t'.findBefore anchor head = .ok (some stop)) (hstop : stop.node = p.1) :
    ∃ offer reply, c.insertBefore (some anchor) v = .ok reply ∧
      Simulates c s (.insertBefore (some anchor) v) offer (reply.map .node) := by
  subst hs
  obtain ⟨a, hset, hsame, hstored, hlinked⟩ :=
    link ((anchor, w) :: post) he.stored he.linked he.cell
  have hnodup := (List.nodup_cons.1 he.stored.nodup_nodes).2
  rw [List.append_cons, List.map_append] at hnodup
  have hpre : anchor ∉ Sequence.nodes (pre ++ [p]) := fun hm =>
    (List.nodup_append.1 hnodup).2.2 anchor hm anchor List.mem_cons_self rfl
  have hm : anchor ∈ Sequence.nodes ((pre ++ [p]) ++ (anchor, w) :: post) :=
    Sequence.mem_nodes_append
  have hfront : Sequence.inFront anchor (node, v) ((pre ++ [p]) ++ (anchor, w) :: post) = _ :=
    Sequence.inFront_append hpre
  rw [← List.append_cons] at hm
  rw [← List.append_cons, ← List.append_cons] at hfront
  have hstep : Sequence.step (.ok node) (pre ++ p :: (anchor, w) :: post)
        (.insertBefore (some anchor) v) =
      (.ok (.node node), pre ++ p :: (node, v) :: (anchor, w) :: post) := by
    simp only [Sequence.step, Sequence.add, if_pos hm, hfront]
  refine ⟨.ok node, ⟨.ok node, ⟨t'.withArena a, c.head⟩,
    [.pool (.allocated node.offset.toNat Node.size), .insertedBefore v anchor node]⟩, ?_,
    he.simulates rfl hstep ⟨hstored, hlinked, ?_⟩ hsame.id hsame.capacity he.live he.stamp
      ⟨rfl, rfl⟩⟩
  · simp only [insertBefore_eq, linkBefore, hcreate, hhead, if_neg hne, hfind, hstop, hset,
      Checked.ok_bind]
    rfl
  · rw [h.head, Sequence.first_append, Sequence.first_append]
    rfl

/-- The walk from the head does not come to the anchor. -/
theorem insertBefore_missed {anchor : NodeRef} (hm : anchor ∉ s.nodes) (h : c.Holds s)
    (he : c.Extended s v (some anchor) node t')
    (hcreate : c.table.create v (some anchor) =
      .ok ⟨.ok node, t', [.pool (.allocated node.offset.toNat Node.size)]⟩)
    (hfind : ∀ head, c.head = some head → head ≠ anchor ∧ t'.findBefore anchor head = .ok none) :
    ∃ offer reply, c.insertBefore (some anchor) v = .ok reply ∧
      Simulates c s (.insertBefore (some anchor) v) offer (reply.map .node) := by
  have hstep : s.step (.ok node) (.insertBefore (some anchor) v) = (.error .notFound, s) := by
    simp only [Sequence.step, Sequence.add, if_neg hm]
  cases hhead : c.head with
  | none =>
    obtain ⟨reply, hdiscard, hsimulates⟩ :=
      he.discard [] [.nothingBefore anchor] h rfl hstep ⟨rfl, rfl⟩ ⟨rfl, rfl⟩
    refine ⟨.ok node, reply, ?_, hsimulates⟩
    simp only [insertBefore_eq, linkBefore, hcreate, hhead, Checked.ok_bind]
    exact hdiscard
  | some head =>
    obtain ⟨hne, hwalk⟩ := hfind head hhead
    obtain ⟨reply, hdiscard, hsimulates⟩ :=
      he.discard [] [.missingBefore anchor] h rfl hstep ⟨rfl, rfl⟩ ⟨rfl, rfl⟩
    refine ⟨.ok node, reply, ?_, hsimulates⟩
    simp only [insertBefore_eq, linkBefore, hcreate, hhead, if_neg hne, hwalk, Checked.ok_bind]
    exact hdiscard

/-- The walk from the head to the node in front of the anchor. -/
theorem Extended.findBefore {q : NodeRef × UInt16} {rest : Sequence} {next : Option NodeRef}
    (he : c.Extended (q :: rest) v next node t') (anchor : NodeRef) :
    t'.findBefore anchor q.1 =
      .ok (Sequence.stopAt (fun r => r.next == some anchor) none (q :: rest)) := by
  have hlength := he.stored.length_le
  rw [List.length_cons, List.length_cons] at hlength
  exact NodeTable.walk_eq _ none he.linked
    (fun p hp => he.stored.owned p (List.mem_cons_of_mem _ hp)) (Nat.le_of_succ_le hlength)

theorem insertBefore_simulates (h : c.Holds s) (anchor : Option NodeRef) (v : UInt16) :
    ∃ offer reply, c.insertBefore anchor v = .ok reply ∧
      Simulates c s (.insertBefore anchor v) offer (reply.map .node) := by
  cases anchor with
  | none =>
    exact ⟨.error .uninitialised, ⟨.error .nullReference, c, []⟩, rfl,
      h.same rfl rfl rfl ⟨rfl, rfl⟩⟩
  | some anchor =>
    have hhead := h.head
    rcases h.create v (some anchor) with
      ⟨e, log, hcreate, hoffer, hlog⟩ | ⟨node, t', hcreate, he⟩
    · refine ⟨.error e, ⟨.error (.allocationFailed e), c, log⟩, ?_,
        h.simulates_full hoffer hlog rfl rfl⟩
      rw [insertBefore_eq, hcreate]
      rfl
    cases s with
    | nil =>
      exact insertBefore_missed List.not_mem_nil h he hcreate fun head hsome =>
        nomatch hhead.symm.trans hsome
    | cons q rest =>
      by_cases hq : q.1 = anchor
      · subst hq
        exact insertBefore_head hhead he hcreate
      have hwalk := he.findBefore anchor
      rcases Sequence.stopAt_before anchor (q :: rest) none with
        ⟨hne, hstop⟩ | ⟨pre, p, w, post, hsplit, hstop⟩
      · rw [hstop] at hwalk
        have hm : anchor ∉ Sequence.nodes (q :: rest) := by
          intro hm
          rcases List.mem_cons.1 hm with hm | hm
          · exact hq hm.symm
          · obtain ⟨p, hp, hpa⟩ := List.mem_map.1 hm
            exact hne p hp hpa
        apply insertBefore_missed hm h he hcreate
        intro head hsome
        obtain rfl : q.1 = head := Option.some.inj (hhead.symm.trans hsome)
        exact ⟨hq, hwalk⟩
      · rw [hstop] at hwalk
        exact insertBefore_found hsplit h hhead hq he hcreate hwalk rfl

end Chain
end FirstFit
