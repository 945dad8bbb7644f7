/-
# Cleaning up

A walk that releases nodes reads each link before the slot is zeroed, and so
reaches every slot that is in use. All bytes of the arena are zero afterwards.
That is what makes the old references fail: the pool is gone, but a reference
is still compared with the stamp in its slot, and no node has the stamp zero.
Nothing that is asked of the chain from then on changes it.

Key definitions: `Chain.CleanedUp`, `Chain.Genuine`, `Request.lastAnswer`,
`Chain.Finished`.
Key theorems: `Holds.cleanedUp`, `Holds.serve_finished`, `cleanedUp_of_run`.
-/
import FirstFit.Proofs.Chain.Locks

namespace FirstFit

namespace Chain

variable {c start : Chain} {s : Sequence} {r : Request} {node : NodeRef} {past : List Exchange}
  {supply : Supply} {config : Pool.Config}

/-! ### Nothing is left -/

/-- What cleaning up a chain with the nodes of `s` comes to: each of them is
released once, and their number is logged. -/
structure CleanedUp (c : Chain) (s : Sequence) (reply : Reply Error Chain Event Answer) :
    Prop where
  answer : reply.answer = .ok .done
  log : reply.log = releases s ++ [c.torn] ++ [.cleanedUp s.length]
  arena : reply.state.table.arena.id = c.table.arena.id
  capacity : reply.state.table.arena.capacity = c.table.arena.capacity
  zero : ∀ i, reply.state.table.arena.byte i = 0
  pool : reply.state.table.pool = {}
  blocks : reply.state.blocks = []

theorem Holds.cleanedUp (h : c.Holds s) :
    ∃ reply, c.serve .cleanUp = .ok reply ∧ CleanedUp c s reply := by
  obtain ⟨t', hreply, hstored, hid, hcapacity, hended, -⟩ := cleanUp_eq h
  have hholds : Holds ⟨t', none⟩ [] := ⟨hstored, trivial, rfl⟩
  refine ⟨_, by rw [serve, hreply]; rfl, rfl, rfl, hid, hcapacity, hstored.byte_nil,
    NodeTable.pool_of_ended hended, ?_⟩
  exact hholds.blocks_eq.trans (hstored.tidy.ended hended)

/-! ### Nothing comes back -/

/-- The reference is of another arena, or some run of the chain creates its node. -/
def Genuine (start : Chain) (n : NodeRef) : Prop :=
  n.arena = start.table.arena.id → ∃ past c r, start.Run past c ∧ c.creation r = some n

/-- The reference that a request looks up although there is nothing to be had. -/
def Request.lookedUp : Request → Option NodeRef
  | .get node => some node
  | .segment first _ => first
  | _ => none

/-- The answer to a request once the chain was cleaned up. -/
def Request.lastAnswer : Request → Except Error Answer
  | .insert _ | .insertAfter (some _) _ | .insertBefore (some _) _ =>
    .error (.allocationFailed .uninitialised)
  | .insertAfter none _ | .insertBefore none _ | .get _ => .error .nullReference
  | .delete _ => .error .notFound
  | .search _ => .error .empty
  | .head => .ok (.head none)
  | .isEmpty => .ok (.flag true)
  | .count => .ok (.number 0)
  | .segment _ _ => .ok (.values [])
  | .stats => .error (.pool .uninitialised)
  | .cleanUp => .ok .done

/-- The chain was cleaned up: it has no node, no block and no byte but zero, and
whatever is asked of it, this is how it stays. -/
structure Finished (start c : Chain) : Prop where
  zero : ∀ i, c.table.arena.byte i = 0
  pool : c.table.pool = {}
  blocks : c.blocks = []
  values : c.values = .ok []
  served : ∀ r : Request, (∀ n ∈ r.lookedUp, Genuine start n) →
    ∃ log, c.serve r = .ok ⟨r.lastAnswer, c, log⟩
  again : c.serve .cleanUp = .ok ⟨.ok .done, c, [.pool .notLive, .cleanedUp 0]⟩

theorem Genuine.stamp_ne_zero (h : Genuine start node) (ha : node.arena = start.table.arena.id) :
    node.stamp ≠ 0 := by
  obtain ⟨past, c, r, -, hcreation⟩ := h ha
  obtain ⟨v, next, t, log, -, hcreate⟩ := exists_create hcreation
  exact (NodeTable.create_reply hcreate).2 node rfl

theorem Sequence.segment_nil (first last : Option NodeRef) :
    Sequence.segment first last [] = [] := by
  cases first <;> rfl

theorem Holds.cleanUp_again (h : c.Holds []) (hlive : c.table.isLive = false) :
    c.serve .cleanUp = .ok ⟨.ok .done, c, [.pool .notLive, .cleanedUp 0]⟩ := by
  have hreleased := releaseAll_none c.table c.table.slots
  have hsame : (⟨c.table, none⟩ : Chain) = c := congrArg (Chain.mk c.table) h.head.symm
  simp only [serve, cleanUp, h.head, Sequence.first, hreleased, Checked.ok_bind,
    NodeTable.tearDown_ended h.stored.tidy hlive, hsame]
  rfl

/-- A chain without a pool stays the same, whatever is asked of it. -/
theorem Holds.serve_finished (h : c.Holds []) (hlive : c.table.isLive = false)
    (hstamp : ∀ n ∈ r.lookedUp, n.arena = c.table.arena.id → n.stamp ≠ 0) :
    ∃ log, c.serve r = .ok ⟨r.lastAnswer, c, log⟩ := by
  have hhead : c.head = none := h.head
  have hcreate := NodeTable.create_ended h.stored.tidy hlive
  cases r with
  | insert v => exact ⟨[], by simp only [serve, insert, hcreate, Checked.ok_bind]; rfl⟩
  | insertAfter anchor v =>
    cases anchor with
    | none => exact ⟨[], rfl⟩
    | some anchor => exact ⟨[], by simp only [serve, insertAfter, hcreate, Checked.ok_bind]; rfl⟩
  | insertBefore anchor v =>
    cases anchor with
    | none => exact ⟨[], rfl⟩
    | some anchor => exact ⟨[], by simp only [serve, insertBefore, hcreate, Checked.ok_bind]; rfl⟩
  | delete v => exact ⟨[.nothingToDelete v], by rw [serve, delete, hhead]; rfl⟩
  | search v => exact ⟨[], by rw [serve, search, hhead]; rfl⟩
  | get node =>
    rcases h.checkLive_cases node (hstamp node rfl) with ⟨hm, -⟩ | ⟨-, log, hrefused, -⟩
    · exact absurd hm List.not_mem_nil
    · exact ⟨log, by rw [serve, get, hrefused]; rfl⟩
  | head => exact ⟨[], by rw [serve, hhead]; rfl⟩
  | isEmpty => exact ⟨[], by rw [serve, isEmpty, hhead]; rfl⟩
  | count => exact ⟨[], by rw [serve, count_eq h]; rfl⟩
  | segment first last =>
    obtain ⟨log, hsegment, -⟩ := segment_eq h first last hstamp
    rw [Sequence.segment_nil] at hsegment
    exact ⟨log, by rw [serve, hsegment]; rfl⟩
  | stats => exact ⟨[], by rw [serve, stats_ended hlive]; rfl⟩
  | cleanUp => exact ⟨_, h.cleanUp_again hlive⟩

theorem Holds.finished (h : c.Holds []) (hlive : c.table.isLive = false)
    (hid : c.table.arena.id = start.table.arena.id) : Finished start c where
  zero := h.stored.byte_nil
  pool := NodeTable.pool_of_ended hlive
  blocks := h.blocks_eq.trans (h.stored.tidy.ended hlive)
  values := values_eq h
  served _ hgenuine := h.serve_finished hlive fun n hn ha =>
    (hgenuine n hn).stamp_ne_zero (ha.trans hid)
  again := h.cleanUp_again hlive

/-- Whatever was asked of a chain before, cleaning it up releases every node and
leaves no block and no byte but zero. Once that was asked, nothing that is
asked then changes the chain, and nothing is found in it, whichever references
the chain gave out. -/
theorem cleanedUp_of_run (hinit : (initialise supply config).answer = .ok start)
    (h : start.Run past c) (hreturn : ∀ x ∈ past, x.selfAnchored = false) :
    ∃ s, c.sequence = .ok s ∧ c.count = .ok s.length ∧
      (∃ reply, c.serve .cleanUp = .ok reply ∧ CleanedUp c s reply) ∧
      (ended past = true → Finished start c) := by
  obtain ⟨rfl, hmax, -⟩ := initialise_ok hinit
  have hempty := ledger_empty supply.next hmax
  obtain ⟨s, hsteady, hlasting⟩ :=
    h.lasting ⟨hempty.holds, hempty.arena, fun n hn => nomatch hn⟩ hreturn
  have hholds := hsteady.holds
  refine ⟨s, hholds.sequence_eq, count_eq hholds, hholds.cleanedUp, fun hended => ?_⟩
  have hlive : c.table.isLive = false := by rw [hlasting.live, hended]; rfl
  obtain rfl : s = [] := hholds.stored.eq_nil hlive
  exact hholds.finished hlive hlasting.id

/-- The head is in a slot that was used before. After the chain is cleaned up
neither it nor the node that was there first is found. -/
theorem cleanedUp_of_run_reused :
    let first : NodeRef := ⟨⟨1⟩, 0, 1⟩
    let second : NodeRef := ⟨⟨1⟩, 16, 2⟩
    let rs : List Request := [.insert 7, .insert 8, .delete 7, .insertBefore (some second) 9]
    ∃ start past c past' c', (initialise {} ⟨40, false⟩).answer = .ok start ∧
      start.replay [] rs = some (past, c) ∧ (∀ x ∈ past, x.selfAnchored = false) ∧
      (∃ reply, c.serve .cleanUp = .ok reply ∧
        reply.log = [.pool (.freed 0 16), .pool (.freed 16 16), .pool (.tornDown ⟨1⟩ 0),
          .cleanedUp 2] ∧
        ∀ i, reply.state.table.arena.byte i = 0) ∧
      start.replay [] (rs ++ [.cleanUp, .insert 5]) = some (past', c') ∧
      (∀ x ∈ past', x.selfAnchored = false) ∧ ended past' = true ∧ Genuine start first ∧
      (∃ log, c'.serve (.get first) = .ok ⟨.error .nullReference, c', log⟩) ∧
      c'.serve .cleanUp = .ok ⟨.ok .done, c', [.pool .notLive, .cleanedUp 0]⟩ := by
  intro first second rs
  let start := empty ⟨1⟩ ⟨40, false⟩
  have hbefore : (start.replay [] rs).any (fun reached =>
      reached.1.all (fun x => !x.selfAnchored) && decide (reached.2.table.isLive = true ∧
        reached.2.table.arena.id = ⟨1⟩ ∧
        reached.2.sequence = .ok [(⟨⟨1⟩, 0, 3⟩, 9), (second, 8)])) = true := by decide
  have hafter : (start.replay [] (rs ++ [.cleanUp, .insert 5])).any (fun reached =>
      reached.1.all (fun x => !x.selfAnchored) && ended reached.1) = true := by decide
  obtain ⟨⟨past, c⟩, hreplay, hreached⟩ := (Option.any_eq_true _ _).1 hbefore
  obtain ⟨⟨past', c'⟩, hreplay', hreached'⟩ := (Option.any_eq_true _ _).1 hafter
  obtain ⟨hall, hfacts⟩ := Bool.and_eq_true_iff.1 hreached
  obtain ⟨hall', hended⟩ := Bool.and_eq_true_iff.1 hreached'
  have hreturn := Exchange.returned_of_all hall
  have hreturn' := Exchange.returned_of_all hall'
  obtain ⟨hlive, hid, hsequence⟩ := of_decide_eq_true hfacts
  have hgenuine : Genuine start first := fun _ => ⟨[], start, .insert 7, .nil, by decide⟩
  obtain ⟨s, hs, -, ⟨reply, hreply, hcleaned⟩, -⟩ :=
    @cleanedUp_of_run c start past {} ⟨40, false⟩ rfl (Run.nil.replay hreplay) hreturn
  obtain ⟨-, -, -, -, hfinished⟩ :=
    @cleanedUp_of_run c' start past' {} ⟨40, false⟩ rfl (Run.nil.replay hreplay') hreturn'
  obtain rfl := Except.ok.inj (hsequence.symm.trans hs)
  refine ⟨start, past, c, past', c', rfl, hreplay, hreturn, ⟨reply, hreply, ?_,
    hcleaned.zero⟩, hreplay', hreturn', hended, hgenuine, ?_, (hfinished hended).again⟩
  · rw [hcleaned.log, torn, hlive, hid]
    rfl
  · refine (hfinished hended).served (.get first) fun n hn => ?_
    obtain rfl := Option.some.inj hn
    exact hgenuine

end Chain
end FirstFit
