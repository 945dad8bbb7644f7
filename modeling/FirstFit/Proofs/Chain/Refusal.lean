/-
# Refused requests to a chain

A request next to a reference takes a node from the storage before it looks
for the place. If there is no such place the node is given back, and its slot
is zero again, as a free slot always is: the blocks, the links and every byte
are those from before, and one stamp is used. The counter of the stamps goes up
by one for that, but zero is no stamp: where the counter has come round to zero
it goes on to two. A request that is refused for any other reason leaves no
trace at all.

Key definitions: `Chain.spent`, `Exchange.selfAnchored`, `Chain.Refused`,
`Chain.Steady`, `Chain.Lasting`, `Chain.Vacant`.
Key theorems: `Created.release`, `placing_of_serve`, `Steady.simulation`,
`Steady.serve`, `Run.lasting`, `Vacant.refusals`, `refused_of_run`.
-/
import FirstFit.Proofs.Chain.Refinement

namespace FirstFit

/-! ### A node that is given back -/

namespace NodeTable

open Chain (Event Error)

variable {t : NodeTable} {data : UInt16} {next : Option NodeRef}

/-- The table with one stamp less to give: zero is no stamp, and the counter
steps over it. -/
def spent (t : NodeTable) : NodeTable :=
  { t with nextStamp := if t.nextStamp = 0 then 2 else t.nextStamp + 1 }

theorem takeStamp_snd (t : NodeTable) : t.takeStamp.2 = t.spent := by
  unfold takeStamp spent
  by_cases h : t.nextStamp = 0
  · simp [h]
  · simp [h]

/-- A node that was just created and is released leaves the table as it was,
but for the stamp: what the slot was before, it is again. -/
theorem Created.release {node : NodeRef} {t' : NodeTable} {log : List Event} (ht : t.Tidy)
    (hr : t.Created data next ⟨.ok node, t', log⟩) :
    ∃ log', t'.release node = .ok (t.spent, log') := by
  have ht' := hr.tidy ht
  cases hr with
  | @made pre post offset a hlive hsplit hfit hsame hcell =>
    obtain ⟨a', hrelease, hsame', hblank⟩ :=
      @release_eq _ pre post ⟨t.arena.id, offset, t.takeStamp.1⟩ ht' hlive hsame.id.symm rfl
    refine ⟨[.pool (.freed offset.toNat Node.size)], hrelease.trans ?_⟩
    have harena : a' = t.arena := by
      refine Arena.ext_byte (hsame'.id.trans hsame.id) (hsame'.capacity.trans hsame.capacity) ?_
      intro i
      by_cases hi : offset.toNat ≤ i ∧ i < offset.toNat + Node.size
      · have hfree : Layout.IsFree t.blocks t.space.capacity offset.toNat Node.size := by
          rw [hsplit]
          exact hfit.isFree
        rw [Arena.byte_blank hblank hi.1 hi.2, ht.byte_isFree hfree i hi.1 hi.2]
      · have hout : i < offset.toNat ∨ offset.toNat + Node.size ≤ i := by omega
        exact (hsame'.byte i hout).trans (hsame.byte i hout)
    have hlayout : (⟨pre ++ post⟩ : Layout) = t.space.layout := congrArg Layout.mk hsplit.symm
    rw [← takeStamp_snd, harena, hlayout]
    rfl

end NodeTable

namespace Chain

variable {c start : Chain} {s : Sequence} {r : Request} {v : UInt16} {node : NodeRef} {e : Error}
  {past : List Exchange} {supply : Supply} {config : Pool.Config} {id : ArenaId}

/-- The chain with one stamp less to give. -/
def spent (c : Chain) : Chain := { c with table := c.table.spent }

/-- A request for a node is refused and changes nothing, or gets one, and then
discarding it takes everything back. -/
theorem create_restored (ht : c.table.Tidy) (v : UInt16) (next : Option NodeRef) :
    (∃ e log, c.table.create v next = .ok ⟨.error (.allocationFailed e), c.table, log⟩) ∨
    ∃ node t' log, c.table.create v next = .ok ⟨.ok node, t', log⟩ ∧
      ∀ before after e, ∃ log', c.discard t' node before after e =
        .ok ⟨.error e, c.spent, log'⟩ := by
  obtain ⟨reply, hreply, hcase⟩ := NodeTable.create_cases ht v next
  obtain ⟨answer, t', log⟩ := reply
  cases answer with
  | error e =>
    cases hcase with
    | full => exact .inl ⟨_, log, hreply⟩
  | ok node =>
    obtain ⟨released, hrelease⟩ := hcase.release ht
    refine .inr ⟨node, t', log, hreply, ?_⟩
    intro before after e
    refine ⟨before ++ released ++ after, ?_⟩
    unfold discard
    rw [hrelease]
    rfl

/-! ### One request -/

theorem checkLive_error {t : NodeTable} {log : List Event}
    (h : t.checkLive node = .ok (.error e, log)) : e = .nullReference := by
  unfold NodeTable.checkLive at h
  obtain ⟨standing, -, h⟩ := Checked.bind_eq_ok.1 h
  cases standing with
  | live => exact nomatch h
  | stale => exact (Except.error.inj (congrArg Prod.fst (Except.ok.inj h))).symm
  | foreign => exact (Except.error.inj (congrArg Prod.fst (Except.ok.inj h))).symm

variable {reply : Reply Error Chain Event NodeRef} {next : Option NodeRef} {refusal : Option Error}

/-- What becomes of a request that asks for a node: it gets none, the node is
given back since its place is missing, or it is in its place. -/
inductive Placing (c : Chain) (v : UInt16) (next : Option NodeRef) (refusal : Option Error) :
    Reply Error Chain Event NodeRef → Prop
  | refused {e : Error} {t : NodeTable} {log : List Event}
      (hcreate : c.table.create v next = .ok ⟨.error e, t, log⟩) :
      Placing c v next refusal ⟨.error e, { c with table := t }, log⟩
  | discarded {node : NodeRef} {t : NodeTable} {log before after : List Event} {e : Error}
      {reply : Reply Error Chain Event NodeRef}
      (hcreate : c.table.create v next = .ok ⟨.ok node, t, log⟩) (hmissing : refusal = some e)
      (hdiscard : c.discard t node before after e = .ok reply) : Placing c v next refusal reply
  | placed {node : NodeRef} {t : NodeTable} {log : List Event}
      {reply : Reply Error Chain Event NodeRef}
      (hcreate : c.table.create v next = .ok ⟨.ok node, t, log⟩)
      (hanswer : reply.answer = .ok node) : Placing c v next refusal reply

theorem insert_placing (h : c.insert v = .ok reply) : c.Placing v none none reply := by
  rw [insert_eq] at h
  obtain ⟨⟨answer, t, log⟩, hcreate, h⟩ := Checked.bind_eq_ok.1 h
  cases answer with
  | error e =>
    obtain rfl := Except.ok.inj h
    exact .refused hcreate
  | ok node =>
    apply Placing.placed hcreate
    dsimp only [linkLast] at h
    cases hhead : c.head with
    | none =>
      rw [hhead] at h
      exact Except.ok.inj h ▸ rfl
    | some first =>
      rw [hhead] at h
      obtain ⟨last, -, h⟩ := Checked.bind_eq_ok.1 h
      obtain ⟨table, -, h⟩ := Checked.bind_eq_ok.1 h
      exact Except.ok.inj h ▸ rfl

theorem insertAfter_placing (h : c.insertAfter (some node) v = .ok reply) :
    c.Placing v none (some .nullReference) reply := by
  rw [insertAfter] at h
  obtain ⟨⟨answer, t, log⟩, hcreate, h⟩ := Checked.bind_eq_ok.1 h
  cases answer with
  | error e =>
    obtain rfl := Except.ok.inj h
    exact .refused hcreate
  | ok new =>
    obtain ⟨⟨standing, log'⟩, hlive, h⟩ := Checked.bind_eq_ok.1 h
    cases standing with
    | error e =>
      obtain rfl := checkLive_error hlive
      exact .discarded hcreate rfl h
    | ok u =>
      apply Placing.placed hcreate
      obtain ⟨next, -, h⟩ := Checked.bind_eq_ok.1 h
      obtain ⟨t₁, -, h⟩ := Checked.bind_eq_ok.1 h
      obtain ⟨t₂, -, h⟩ := Checked.bind_eq_ok.1 h
      exact Except.ok.inj h ▸ rfl

theorem insertBefore_placing (h : c.insertBefore (some node) v = .ok reply) :
    c.Placing v (some node) (some .notFound) reply := by
  rw [insertBefore_eq] at h
  obtain ⟨⟨answer, t, log⟩, hcreate, h⟩ := Checked.bind_eq_ok.1 h
  cases answer with
  | error e =>
    obtain rfl := Except.ok.inj h
    exact .refused hcreate
  | ok new =>
    dsimp only [linkBefore] at h
    cases hhead : c.head with
    | none =>
      rw [hhead] at h
      exact .discarded hcreate rfl h
    | some first =>
      simp only [hhead] at h
      split at h
      · exact .placed hcreate (Except.ok.inj h ▸ rfl)
      · obtain ⟨found, -, h⟩ := Checked.bind_eq_ok.1 h
        cases found with
        | none => exact .discarded hcreate rfl h
        | some stop =>
          obtain ⟨table, -, h⟩ := Checked.bind_eq_ok.1 h
          exact .placed hcreate (Except.ok.inj h ▸ rfl)

/-- The value of the node that a request asks for, and the node it is to lead to. -/
def Request.wants : Request → Option (UInt16 × Option NodeRef)
  | .insert v | .insertAfter (some _) v => some (v, none)
  | .insertBefore (some anchor) v => some (v, some anchor)
  | _ => none

/-- The error if there is a node, but no place for it. -/
def Request.missing : Request → Option Error
  | .insertAfter _ _ => some .nullReference
  | .insertBefore _ _ => some .notFound
  | _ => none

theorem Request.creates_eq (r : Request) : r.creates = r.wants.isSome := by
  cases r with
  | insertAfter anchor v => cases anchor <;> rfl
  | insertBefore anchor v => cases anchor <;> rfl
  | _ => rfl

theorem placing_of_serve {reply : Reply Error Chain Event Answer}
    (hserve : c.serve r = .ok reply) (hwants : r.wants = some (v, next)) :
    ∃ inner, Reply.map Answer.node inner = reply ∧ c.Placing v next r.missing inner := by
  cases r with
  | insert w =>
    obtain ⟨rfl, rfl⟩ := Prod.mk.inj (Option.some.inj hwants)
    obtain ⟨inner, hinner, hmap⟩ := Checked.map_eq_ok.1 hserve
    exact ⟨inner, hmap, insert_placing hinner⟩
  | insertAfter anchor w =>
    cases anchor with
    | none => exact nomatch hwants
    | some anchor =>
      obtain ⟨rfl, rfl⟩ := Prod.mk.inj (Option.some.inj hwants)
      obtain ⟨inner, hinner, hmap⟩ := Checked.map_eq_ok.1 hserve
      exact ⟨inner, hmap, insertAfter_placing hinner⟩
  | insertBefore anchor w =>
    cases anchor with
    | none => exact nomatch hwants
    | some anchor =>
      obtain ⟨rfl, rfl⟩ := Prod.mk.inj (Option.some.inj hwants)
      obtain ⟨inner, hinner, hmap⟩ := Checked.map_eq_ok.1 hserve
      exact ⟨inner, hmap, insertBefore_placing hinner⟩
  | _ => exact nomatch hwants

/-- A refused request that asked for a node got none, or had it taken back. -/
theorem Placing.error (hr : c.Placing v next refusal reply) (ht : c.table.Tidy)
    (he : reply.answer = .error e) :
    (reply.state = c ∧ ∃ e', e = .allocationFailed e') ∨
      reply.state = c.spent ∧ refusal = some e := by
  rcases create_restored ht v next with ⟨e', log, hcreate⟩ | ⟨node, t, log, hcreate, htaken⟩
  · cases hr with
    | refused hcreate' =>
      obtain ⟨hfull, rfl, -⟩ := Reply.mk.inj (Except.ok.inj (hcreate'.symm.trans hcreate))
      exact .inl ⟨rfl, e', Except.error.inj (he.symm.trans hfull)⟩
    | discarded hcreate' => exact nomatch hcreate'.symm.trans hcreate
    | placed hcreate' => exact nomatch hcreate'.symm.trans hcreate
  · cases hr with
    | refused hcreate' => exact nomatch hcreate'.symm.trans hcreate
    | @discarded node' t' log' before after e' _ hcreate' hmissing hdiscard =>
      obtain ⟨hnode, rfl, -⟩ := Reply.mk.inj (Except.ok.inj (hcreate'.symm.trans hcreate))
      obtain rfl := Except.ok.inj hnode
      obtain ⟨log'', hdiscard'⟩ := htaken before after e'
      obtain rfl := Except.ok.inj (hdiscard'.symm.trans hdiscard)
      obtain rfl := Except.error.inj he
      exact .inr ⟨rfl, hmissing⟩
    | placed hcreate' hanswer => exact nomatch hanswer.symm.trans he

theorem delete_error {reply : Reply Error Chain Event Unit} (h : c.delete v = .ok reply)
    (he : reply.answer = .error e) : reply.state = c := by
  unfold delete at h
  cases hhead : c.head with
  | none =>
    rw [hhead] at h
    obtain rfl := Except.ok.inj h
    rfl
  | some first =>
    rw [hhead] at h
    obtain ⟨found, -, h⟩ := Checked.bind_eq_ok.1 h
    cases found with
    | none =>
      obtain rfl := Except.ok.inj h
      rfl
    | some stop =>
      obtain ⟨previous, node, record⟩ := stop
      have hok : ∀ (table : NodeTable) (head : Option NodeRef), (do
          let released ← table.release node
          return ⟨.ok (), ⟨released.1, head⟩, released.2 ++ [.deleted v node]⟩) =
            Except.ok reply → False := by
        intro table head h
        obtain ⟨released, -, h⟩ := Checked.bind_eq_ok.1 h
        obtain rfl := Except.ok.inj h
        cases he
      cases previous with
      | none => exact (hok _ _ h).elim
      | some previous =>
        obtain ⟨table, -, h⟩ := Checked.bind_eq_ok.1 h
        exact (hok _ _ h).elim

theorem search_state (h : c.search v = .ok reply) : reply.state = c := by
  unfold search at h
  cases hhead : c.head with
  | none =>
    rw [hhead] at h
    obtain rfl := Except.ok.inj h
    rfl
  | some first =>
    rw [hhead] at h
    obtain ⟨found, -, h⟩ := Checked.bind_eq_ok.1 h
    cases found <;> exact Except.ok.inj h ▸ rfl

theorem get_state {reply : Reply Error Chain Event UInt16} (h : c.get node = .ok reply) :
    reply.state = c := by
  unfold get at h
  obtain ⟨⟨standing, log⟩, -, h⟩ := Checked.bind_eq_ok.1 h
  cases standing with
  | error e => exact Except.ok.inj h ▸ rfl
  | ok u =>
    obtain ⟨data, -, h⟩ := Checked.bind_eq_ok.1 h
    exact Except.ok.inj h ▸ rfl

theorem cleanUp_ok {reply : Reply Error Chain Event Unit} (h : c.cleanUp = .ok reply) :
    reply.answer = .ok () := by
  unfold cleanUp at h
  obtain ⟨⟨table, released, count⟩, -, h⟩ := Checked.bind_eq_ok.1 h
  exact Except.ok.inj h ▸ rfl

/-- What a request that is refused leaves of a chain that holds `s`. -/
inductive Refused (c : Chain) (s : Sequence) : Request → Error → Chain → Prop
  /-- No node was created: none was asked for, or there was no storage for it. -/
  | untouched {r : Request} {e : Error}
      (h : r.creates = true → ∃ e', e = .allocationFailed e') : Refused c s r e c
  /-- A node was created to come behind one that is not there. -/
  | behind {node : NodeRef} {v : UInt16} (hm : node ∉ s.nodes) :
      Refused c s (.insertAfter (some node) v) .nullReference c.spent
  /-- A node was created to come in front of one that is not there. -/
  | inFront {node : NodeRef} {v : UInt16} (hm : node ∉ s.nodes) :
      Refused c s (.insertBefore (some node) v) .notFound c.spent

variable {offer : Except Pool.Error NodeRef}

/-- A sequence refuses a reference because its node is not there. -/
theorem Sequence.not_mem_of_add {put : NodeRef × UInt16 → Except Error Sequence}
    (hput : node ∈ s.nodes → ∀ new, ∃ s', put new = .ok s')
    (h : (s.add offer v put).1 = .error e) (he : ∀ e', e ≠ .allocationFailed e') :
    node ∉ s.nodes := by
  intro hm
  cases offer with
  | error e' => exact he e' (Except.error.inj h).symm
  | ok new =>
    obtain ⟨s', hs'⟩ := hput hm (new, v)
    simp only [Sequence.add, hs'] at h
    cases h

theorem Simulates.not_mem_behind {reply : Reply Error Chain Event Answer}
    (hs : Simulates c s (.insertAfter (some node) v) offer reply)
    (he : reply.answer = .error .nullReference) : node ∉ s.nodes := by
  have hanswer := hs.answer_eq (by simp)
  refine Sequence.not_mem_of_add ?_ (hanswer.symm.trans he) fun e' h => nomatch h
  exact fun hm new => ⟨_, if_pos hm⟩

theorem Simulates.not_mem_inFront {reply : Reply Error Chain Event Answer}
    (hs : Simulates c s (.insertBefore (some node) v) offer reply)
    (he : reply.answer = .error .notFound) : node ∉ s.nodes := by
  have hanswer := hs.answer_eq (by simp)
  refine Sequence.not_mem_of_add ?_ (hanswer.symm.trans he) fun e' h => nomatch h
  exact fun hm new => ⟨_, if_pos hm⟩

theorem Simulates.refused {reply : Reply Error Chain Event Answer}
    (hs : Simulates c s r offer reply) (ht : c.table.Tidy) (hserve : c.serve r = .ok reply)
    (he : reply.answer = .error e) : Refused c s r e reply.state := by
  cases r with
  | insert v =>
    obtain ⟨inner, rfl, hplacing⟩ := placing_of_serve hserve rfl
    rcases hplacing.error ht (Reply.error_of_map he) with ⟨hstate, hfull⟩ | ⟨-, hmissing⟩
    · exact hstate ▸ .untouched fun _ => hfull
    · exact nomatch hmissing
  | insertAfter anchor v =>
    cases anchor with
    | none => exact Except.ok.inj hserve ▸ .untouched fun h => nomatch h
    | some node =>
      obtain ⟨inner, rfl, hplacing⟩ := placing_of_serve hserve rfl
      rcases hplacing.error ht (Reply.error_of_map he) with ⟨hstate, hfull⟩ | ⟨hstate, hmissing⟩
      · exact hstate ▸ .untouched fun _ => hfull
      · obtain rfl := Option.some.inj hmissing
        exact hstate ▸ .behind (hs.not_mem_behind he)
  | insertBefore anchor v =>
    cases anchor with
    | none => exact Except.ok.inj hserve ▸ .untouched fun h => nomatch h
    | some node =>
      obtain ⟨inner, rfl, hplacing⟩ := placing_of_serve hserve rfl
      rcases hplacing.error ht (Reply.error_of_map he) with ⟨hstate, hfull⟩ | ⟨hstate, hmissing⟩
      · exact hstate ▸ .untouched fun _ => hfull
      · obtain rfl := Option.some.inj hmissing
        exact hstate ▸ .inFront (hs.not_mem_inFront he)
  | delete v =>
    obtain ⟨inner, hinner, rfl⟩ := Checked.map_eq_ok.1 hserve
    exact delete_error hinner (Reply.error_of_map he) ▸ .untouched fun h => nomatch h
  | search v =>
    obtain ⟨inner, hinner, rfl⟩ := Checked.map_eq_ok.1 hserve
    exact search_state hinner ▸ .untouched fun h => nomatch h
  | get node =>
    obtain ⟨inner, hinner, rfl⟩ := Checked.map_eq_ok.1 hserve
    exact get_state hinner ▸ .untouched fun h => nomatch h
  | cleanUp =>
    obtain ⟨inner, hinner, rfl⟩ := Checked.map_eq_ok.1 hserve
    exact nomatch (cleanUp_ok hinner).symm.trans (Reply.error_of_map he)
  | head => exact Except.ok.inj hserve ▸ .untouched fun h => nomatch h
  | isEmpty => exact Except.ok.inj hserve ▸ .untouched fun h => nomatch h
  | count =>
    obtain ⟨n, -, rfl⟩ := Checked.map_eq_ok.1 hserve
    exact .untouched fun h => nomatch h
  | segment first last =>
    obtain ⟨values, -, rfl⟩ := Checked.map_eq_ok.1 hserve
    exact .untouched fun h => nomatch h
  | stats =>
    obtain ⟨stats, -, rfl⟩ := Checked.map_eq_ok.1 hserve
    exact .untouched fun h => nomatch h

/-! ### Runs of any length -/

variable {reply : Reply Error Chain Event Answer}

/-- The request put its new node behind an anchor that is this very node. It
holds the slot of the anchor while it asks for the slot of the new node, which
is the same one, so nobody ever sees it return. -/
def Exchange.selfAnchored : Exchange → Bool
  | ⟨.insertAfter (some anchor) _, .ok (.node node), _⟩ => anchor == node
  | _ => false

theorem Exchange.eq_of_selfAnchored {x : Exchange} (h : x.selfAnchored = true) :
    ∃ n v, x.request = .insertAfter (some n) v ∧ x.answer = .ok (.node n) := by
  unfold selfAnchored at h
  split at h
  · rename_i anchor v node log
    obtain rfl := eq_of_beq h
    exact ⟨anchor, v, rfl, rfl⟩
  · exact nomatch h

theorem Exchange.returned_of_all (h : past.all (fun x => !x.selfAnchored) = true) :
    ∀ x ∈ past, x.selfAnchored = false := by
  simpa using h

/-- What a run keeps however many stamps were used, also when they are used for
the second time: the chain holds a sequence, and a reference that an answer
has named has a stamp. -/
structure Steady (id : ArenaId) (past : List Exchange) (c : Chain) (s : Sequence) : Prop where
  holds : c.Holds s
  arena : c.table.arena.id = id
  stamp : ∀ n ∈ issued past, n.stamp ≠ 0

theorem Steady.simulates (h : Steady id past c s) (hs : Simulates c s r offer reply) :
    Steady id (past ++ [⟨r, reply.answer, reply.log⟩]) reply.state (s.step offer r).2 where
  holds := hs.holds
  arena := hs.id.trans h.arena
  stamp := by
    intro n hn
    rw [issued_concat, List.mem_append] at hn
    rcases hn with hn | hn
    · exact h.stamp n hn
    · rcases hs.mem_answered hn with hn | ht
      · obtain ⟨p, hp, rfl⟩ := List.mem_map.1 hn
        exact (h.holds.stored.owned p hp).2
      · obtain ⟨⟨-, -, -, hstamp, -⟩, -⟩ := hs.taken ht
        exact hstamp ▸ NodeTable.takeStamp_ne_zero _

/-- A request with references that are known has a reply, and if it returns at
all it is the one that the sequence calls for. -/
theorem Steady.simulation (h : Steady id past c s)
    (hknown : ∀ n ∈ r.nodes, n.arena = id → n ∈ issued past) :
    ∃ reply, c.serve r = .ok reply ∧
      (Exchange.selfAnchored ⟨r, reply.answer, reply.log⟩ = false →
        ∃ offer, Simulates c s r offer reply) := by
  obtain ⟨reply, hserve, hcase⟩ := serve_cases h.holds r fun n hn ha =>
    h.stamp n (hknown n hn (ha.trans h.arena))
  refine ⟨reply, hserve, ?_⟩
  rcases hcase with hs | ⟨-, n, v, rfl, hanswer, -⟩
  · exact fun _ => hs
  · obtain ⟨answer, c', log⟩ := reply
    obtain rfl : answer = .ok (.node n) := hanswer
    intro hself
    simp [Exchange.selfAnchored] at hself

/-- A request with references that are known has a reply. If it returns at all
the chain holds a sequence afterwards, and if it is refused it leaves no more
than a stamp used. -/
theorem Steady.serve (h : Steady id past c s)
    (hknown : ∀ n ∈ r.nodes, n.arena = id → n ∈ issued past) :
    ∃ reply, c.serve r = .ok reply ∧
      (Exchange.selfAnchored ⟨r, reply.answer, reply.log⟩ = false →
        ∃ s', Steady id (past ++ [⟨r, reply.answer, reply.log⟩]) reply.state s') ∧
      ∀ e, reply.answer = .error e → Refused c s r e reply.state := by
  obtain ⟨reply, hserve, hsimulation⟩ := h.simulation hknown
  refine ⟨reply, hserve, fun hself => ?_, fun e he => ?_⟩
  · obtain ⟨offer, hs⟩ := hsimulation hself
    exact ⟨_, h.simulates hs⟩
  · have hself : Exchange.selfAnchored ⟨r, reply.answer, reply.log⟩ = false := by
      refine Bool.eq_false_iff.2 fun hself => ?_
      obtain ⟨n, v, -, hanswer⟩ := Exchange.eq_of_selfAnchored hself
      exact nomatch hanswer.symm.trans he
    obtain ⟨offer, hs⟩ := hsimulation hself
    exact hs.refused h.holds.stored.tidy hserve he

/-- What no request changes but the one to clean up, which ends the pool. -/
structure Lasting (start : Chain) (past : List Exchange) (c : Chain) : Prop where
  id : c.table.arena.id = start.table.arena.id
  capacity : c.table.arena.capacity = start.table.arena.capacity
  live : c.table.isLive = (start.table.isLive && !ended past)

theorem Lasting.simulates (h : Lasting start past c) (hs : Simulates c s r offer reply) :
    Lasting start (past ++ [⟨r, reply.answer, reply.log⟩]) reply.state where
  id := hs.id.trans h.id
  capacity := hs.capacity.trans h.capacity
  live := by rw [hs.live, h.live, ended_concat, Bool.not_or, Bool.and_assoc]

theorem Run.lasting (hstart : Steady id [] start []) (h : start.Run past c)
    (hreturn : ∀ x ∈ past, x.selfAnchored = false) :
    ∃ s, Steady id past c s ∧ Lasting start past c := by
  induction h with
  | nil => exact ⟨[], hstart, rfl, rfl, (Bool.and_true _).symm⟩
  | @snoc past c r reply h hknown hserve ih =>
    obtain ⟨s, hsteady, hlasting⟩ := ih fun x hx => hreturn x (List.mem_append_left _ hx)
    obtain ⟨reply', hserve', hsimulation⟩ := hsteady.simulation fun n hn ha =>
      hknown n hn (ha.trans hsteady.arena.symm)
    obtain rfl : reply = reply' := Except.ok.inj (hserve.symm.trans hserve')
    obtain ⟨offer, hs⟩ := hsimulation (hreturn _ (List.mem_append_right _ List.mem_cons_self))
    exact ⟨_, hsteady.simulates hs, hlasting.simulates hs⟩

theorem Run.steady (hstart : Steady id [] start []) (h : start.Run past c)
    (hreturn : ∀ x ∈ past, x.selfAnchored = false) : ∃ s, Steady id past c s := by
  obtain ⟨s, hsteady, -⟩ := h.lasting hstart hreturn
  exact ⟨s, hsteady⟩

/-- While stamps are new every request returns. -/
theorem Run.not_selfAnchored {capacity : Nat} (hstart : Ledger id capacity [] start [])
    (h : start.Run past c) (hmade : made past < UInt32.size) :
    ∀ x ∈ past, x.selfAnchored = false := by
  induction h with
  | nil => exact fun x hx => nomatch hx
  | @snoc past c r reply h hknown hserve ih =>
    have hbefore : made past < UInt32.size := by
      rw [made_concat] at hmade
      omega
    obtain ⟨s, -, hledger⟩ := h.ledger hstart hbefore
    obtain ⟨reply', hserve', hstep⟩ := hledger.serve fun n hn ha =>
      hknown n hn (ha.trans hledger.arena.symm)
    obtain rfl : reply = reply' := Except.ok.inj (hserve.symm.trans hserve')
    obtain ⟨offer, hs, hfresh, -⟩ := hstep hmade
    intro x hx
    rcases List.mem_append.1 hx with hx | hx
    · exact ih hbefore x hx
    · obtain rfl := List.mem_singleton.1 hx
      refine Bool.eq_false_iff.2 fun hself => ?_
      obtain ⟨n, v, rfl, hanswer⟩ := Exchange.eq_of_selfAnchored hself
      have hstep : (s.step offer (.insertAfter (some n) v)).1 = .ok (.node n) :=
        (hs.answer_eq (by simp)).symm.trans hanswer
      have hn : n ∈ answered (s.step offer (.insertAfter (some n) v)).1 := by
        rw [hstep]
        exact List.mem_singleton_self n
      -- the new node would be an anchor that is known, but a new node is not known
      have htaken : Request.taken (.insertAfter (some n) v) offer = some n :=
        Sequence.mem_answered_add hn
      obtain ⟨⟨-, -, harena, -⟩, -⟩ := hs.taken htaken
      exact hfresh n htaken (hknown n (List.mem_singleton_self n) harena)

/-! ### A counter that comes round -/

/-- An empty chain that has room for a node, which will get the stamp `next`. -/
structure Vacant (id : ArenaId) (next : UInt32) (c : Chain) : Prop where
  holds : c.Holds []
  arena : c.table.arena.id = id
  slots : Node.size ≤ c.table.arena.capacity
  live : c.table.isLive = true
  next : c.table.nextStamp = next

variable {next : UInt32} {anchor : NodeRef}

/-- There is nothing to put a value in front of. The node for it is made and
given back, and a stamp is gone. -/
theorem Vacant.refuse (h : Vacant id next c) (anchor : NodeRef) (v : UInt16) :
    ∃ reply, c.serve (.insertBefore (some anchor) v) = .ok reply ∧
      reply.answer = .error .notFound ∧
      Vacant id (if next = 0 then 2 else next + 1) reply.state := by
  obtain ⟨offer, inner, hinner, hs⟩ := insertBefore_simulates h.holds (some anchor) v
  have hslots : 0 < c.table.slots := Nat.div_pos h.slots (by decide)
  have hserve : c.serve (.insertBefore (some anchor) v) = .ok (inner.map .node) :=
    Checked.map_eq_ok.2 ⟨inner, hinner, rfl⟩
  refine ⟨_, hserve, ?_⟩
  generalize inner.map Answer.node = reply at hs
  cases offer with
  | error e => exact absurd (hs.offers rfl h.live) (Nat.not_le_of_lt hslots)
  | ok node =>
    obtain ⟨-, -, -, hstamp, -⟩ := hs.offers rfl
    refine ⟨hs.answer_eq (fun hr => nomatch hr), hs.holds, hs.id.trans h.arena,
      Nat.le_trans h.slots (Nat.le_of_eq hs.capacity.symm), ?_, ?_⟩
    · rw [hs.live, h.live]
      rfl
    · have htaken : reply.state.table.nextStamp = node.stamp + 1 := hs.stamp
      have hspent := congrArg NodeTable.nextStamp (NodeTable.takeStamp_snd c.table)
      rw [htaken, hstamp, ← h.next]
      exact hspent

/-- Until the stamps wrap round each refused request takes the next one. -/
theorem Vacant.refusals (h : Vacant id 1 start) (hanchor : anchor.arena ≠ id) (v : UInt16) :
    ∀ k < UInt32.size, ∃ past c, start.Run past c ∧ (∀ x ∈ past, x.selfAnchored = false) ∧
      Vacant id (UInt32.ofNat (k + 1)) c := by
  intro k
  induction k with
  | zero => exact fun _ => ⟨[], start, .nil, List.forall_mem_nil _, h⟩
  | succ k ih =>
    intro hk
    obtain ⟨past, c, hrun, hreturn, hvacant⟩ := ih (Nat.lt_of_succ_lt hk)
    obtain ⟨reply, hserve, hanswer, hafter⟩ := hvacant.refuse anchor v
    have hknown : ∀ n ∈ Request.nodes (.insertBefore (some anchor) v),
        n.arena = c.table.arena.id → n ∈ issued past := by
      intro n hn ha
      obtain rfl := List.mem_singleton.1 hn
      exact absurd (ha.trans hvacant.arena) hanchor
    refine ⟨_, _, hrun.snoc hknown hserve, ?_, ?_⟩
    · intro x hx
      rcases List.mem_append.1 hx with hx | hx
      · exact hreturn x hx
      · obtain rfl := List.mem_singleton.1 hx
        rfl
    · have hne : UInt32.ofNat (k + 1) ≠ 0 := fun h0 => by
        have := congrArg UInt32.toNat h0
        rw [UInt32.toNat_ofNat_of_lt' hk] at this
        exact nomatch this
      rw [if_neg hne] at hafter
      rwa [UInt32.ofNat_add]

/-! ### After any run -/

/-- Whatever was asked of a chain before, and whether or not it was cleaned up,
a request that is refused changes nothing at all, or no more than the counter
of the stamps, and that only if a node was created for a place that was not
there. The counter is then past the stamp that this node had. -/
theorem refused_of_run (hinit : (initialise supply config).answer = .ok start)
    (h : start.Run past c) (hreturn : ∀ x ∈ past, x.selfAnchored = false) :
    ∃ s, c.sequence = .ok s ∧
      ∀ r : Request, (∀ n ∈ r.nodes, n.arena = c.table.arena.id → n ∈ issued past) →
        ∃ reply, c.serve r = .ok reply ∧
          ∀ e, reply.answer = .error e → Refused c s r e reply.state := by
  obtain ⟨hpos, hmax⟩ := bounds_of_initialise hinit
  obtain rfl : empty supply.next config = start :=
    Except.ok.inj ((initialise_eq supply hpos hmax).symm.trans hinit)
  have hempty := ledger_empty supply.next hmax
  obtain ⟨s, hsteady⟩ := h.steady ⟨hempty.holds, hempty.arena, fun n hn => nomatch hn⟩ hreturn
  refine ⟨s, hsteady.holds.sequence_eq, ?_⟩
  intro r hknown
  obtain ⟨reply, hserve, -, hrefused⟩ := hsteady.serve fun n hn ha =>
    hknown n hn (ha.trans hsteady.arena.symm)
  exact ⟨reply, hserve, hrefused⟩

/-- The anchor was removed, and its slot is that of another node. -/
theorem refused_of_run_stale :
    let first : NodeRef := ⟨⟨1⟩, 0, 1⟩
    let rs : List Request := [.insert 7, .delete 7, .insert 8]
    ∃ start past c, (initialise {} ⟨32, true⟩).answer = .ok start ∧
      start.replay [] rs = some (past, c) ∧ (∀ x ∈ past, x.selfAnchored = false) ∧
      ∃ reply, c.serve (.insertAfter (some first) 9) = .ok reply ∧
        reply.answer = .error .nullReference ∧ reply.state = c.spent := by
  intro first rs
  have hany : ((empty ⟨1⟩ ⟨32, true⟩).replay [] rs).any (fun last =>
      decide (made last.1 < UInt32.size ∧ last.2.table.arena.id = ⟨1⟩ ∧ first ∈ issued last.1) &&
        (last.2.serve (.insertAfter (some first) 9)).toOption.any fun reply =>
          decide (reply.answer = .error .nullReference)) = true := by decide
  obtain ⟨⟨past, c⟩, hreplay, hlast⟩ := (Option.any_eq_true _ _).1 hany
  obtain ⟨hknown, hanswer⟩ := Bool.and_eq_true_iff.1 hlast
  obtain ⟨hmade, harena, hissued⟩ := of_decide_eq_true hknown
  have hrun := Run.nil.replay hreplay
  have hreturn := hrun.not_selfAnchored (ledger_empty ⟨1⟩ (by decide)) hmade
  obtain ⟨s, -, h⟩ := @refused_of_run c (empty ⟨1⟩ ⟨32, true⟩) past {} ⟨32, true⟩ rfl hrun hreturn
  obtain ⟨reply, hserve, hrefused⟩ := h (.insertAfter (some first) 9) fun n hn _ => by
    obtain rfl := List.mem_singleton.1 hn
    exact hissued
  rw [hserve] at hanswer
  have hanswer : reply.answer = .error .nullReference := of_decide_eq_true hanswer
  refine ⟨_, past, c, rfl, hreplay, hreturn, reply, hserve, hanswer, ?_⟩
  have hstate := hrefused _ hanswer
  generalize reply.state = c' at hstate ⊢
  cases hstate with
  | untouched hfull =>
    obtain ⟨e, he⟩ := hfull rfl
    exact nomatch he
  | behind => rfl

/-- After `2 ^ 32 - 1` refusals the counter is at zero, and one refusal more takes
it on by two. -/
theorem refused_of_run_wrapped :
    let foreign : NodeRef := ⟨⟨9⟩, 0, 1⟩
    let r : Request := .insertBefore (some foreign) 5
    ∃ start past c, (initialise {} ⟨16, true⟩).answer = .ok start ∧ start.Run past c ∧
      (∀ x ∈ past, x.selfAnchored = false) ∧ foreign.arena ≠ c.table.arena.id ∧
      ∃ reply, c.serve r = .ok reply ∧ reply.answer = .error .notFound ∧
        c.table.nextStamp = 0 ∧ reply.state.table.nextStamp = 2 ∧
        reply.state.table.nextStamp ≠ c.table.nextStamp + 1 := by
  intro foreign r
  have hempty := @ledger_empty ⟨16, true⟩ ⟨1⟩ (by decide)
  have hvacant : Vacant ⟨1⟩ 1 (empty ⟨1⟩ ⟨16, true⟩) :=
    ⟨hempty.holds, rfl, by decide, rfl, rfl⟩
  have hforeign : foreign.arena ≠ ⟨1⟩ := by decide
  obtain ⟨past, c, hrun, hreturn, hlast⟩ :=
    hvacant.refusals hforeign 5 (UInt32.size - 1) (by decide)
  have hzero : UInt32.ofNat (UInt32.size - 1 + 1) = 0 := by decide
  rw [hzero] at hlast
  obtain ⟨reply, hserve, hanswer, hafter⟩ := hlast.refuse foreign 5
  have htwo : reply.state.table.nextStamp = 2 := hafter.next
  refine ⟨_, past, c, rfl, hrun, hreturn, ?_, reply, hserve, hanswer, hlast.next, htwo, ?_⟩
  · rwa [hlast.arena]
  · rw [htwo, hlast.next]
    decide
end Chain
end FirstFit
