/-
# Chains are sequences

The links of a chain are bytes in slots that the storage gives out again and
again. Whatever is asked of a chain, and in whatever order, its answers are
those of a list of nodes and values, and that list is what one reads off the
links. What a list cannot say is which slot a new node gets, and the figures
of the pool.

Key definitions: `Sequence.Room`, `Sequence.Run`.
Key theorems: `Ledger.room`, `Run.ledger`.
-/
import FirstFit.Proofs.Chain.Run

namespace FirstFit
namespace Chain

variable {c : Chain} {s : Sequence} {past : List Exchange} {id : ArenaId} {capacity slots : Nat}

namespace Sequence

/-- What a request for a new node can find: a node that no answer has named, in
a slot that no node is in, or none if all slots are taken or the chain was
cleaned up. -/
def Room (id : ArenaId) (slots : Nat) (past : List Exchange) (s : Sequence) :
    Except Pool.Error NodeRef → Prop
  | .ok node => ended past = false ∧ s.length < slots ∧ node.arena = id ∧ node ∉ issued past ∧
      ∀ p ∈ s, p.1.offset ≠ node.offset
  | .error _ => ended past = true ∨ slots ≤ s.length

/-- Requests to a list of nodes and values that is empty at first, the answers,
and the list afterwards. The figures of the pool are no matter of the list. -/
inductive Run (id : ArenaId) (slots : Nat) : List Exchange → Sequence → Prop
  | nil : Run id slots [] []
  | snoc {past : List Exchange} {s : Sequence} {x : Exchange} {offer : Except Pool.Error NodeRef}
      (h : Run id slots past s) (hroom : x.request.creates = true → Room id slots past s offer)
      (hanswer : x.request ≠ .stats → x.answer = (s.step offer x.request).1) :
      Run id slots (past ++ [x]) (s.step offer x.request).2

end Sequence

/-- What the storage offers is what the list can find. -/
theorem Ledger.room (h : Ledger id capacity past c s) {r : Request}
    {offer : Except Pool.Error NodeRef} (hoffer : Offers c.table s offer)
    (hcreates : r.creates = true) (hfresh : ∀ n, r.taken offer = some n → n ∉ issued past) :
    Sequence.Room id (capacity / Node.size) past s offer := by
  have hslots : c.table.slots = capacity / Node.size := congrArg (· / Node.size) h.capacity
  have hlive : c.table.isLive = true ↔ ended past = false := by
    rw [h.live, Bool.not_eq_true']
  cases offer with
  | error e =>
    cases hended : ended past with
    | true => exact .inl hended
    | false => exact .inr (hslots ▸ hoffer (hlive.2 hended))
  | ok node =>
    obtain ⟨hl, hroom, harena, -, hoffset⟩ := hoffer
    refine ⟨hlive.1 hl, hslots ▸ hroom, harena.trans h.arena, hfresh node ?_, hoffset⟩
    unfold Request.taken
    rw [if_pos hcreates]
    rfl

/-- A run leads to a chain that holds the sequence that the answers make. -/
theorem Run.ledger {start : Chain} (hstart : Ledger id capacity [] start []) (h : start.Run past c)
    (hmade : made past < UInt32.size) :
    ∃ s, Sequence.Run id (capacity / Node.size) past s ∧ Ledger id capacity past c s := by
  induction h with
  | nil => exact ⟨[], .nil, hstart⟩
  | @snoc past c r reply h hknown hserve ih =>
    have hbefore : made past < UInt32.size := by
      rw [made_concat] at hmade
      omega
    obtain ⟨s, hrun, hledger⟩ := ih hbefore
    obtain ⟨reply', hserve', hstep⟩ := hledger.serve fun n hn ha =>
      hknown n hn (ha.trans hledger.arena.symm)
    obtain rfl : reply = reply' := Except.ok.inj (hserve.symm.trans hserve')
    obtain ⟨offer, hs, hfresh, hafter⟩ := hstep hmade
    refine ⟨_, hrun.snoc (x := ⟨r, reply.answer, reply.log⟩)
      (fun hcreates => hledger.room (hs.offers hcreates) hcreates hfresh) ?_, hafter⟩
    intro hstats
    exact hs.answer.resolve_right fun ha => hstats ha.1

/-- A chain over an arena of any length refines a list: every request has a
reply, and after any run in which fewer than `2 ^ 32` nodes were created, all
answers are those of the list, which is what the links of the chain say. -/
theorem run_sequence (supply : Supply) {config : Pool.Config} (hpos : 1 ≤ config.capacity)
    (hmax : config.capacity ≤ NodeTable.maxCapacity) :
    ∃ start, (initialise supply config).answer = .ok start ∧
      ∀ past c, start.Run past c → made past < UInt32.size →
        (∃ s, Sequence.Run supply.next (config.capacity / Node.size) past s ∧
          c.sequence = .ok s) ∧
        ∀ r : Request, (∀ n ∈ r.nodes, n.arena = supply.next → n ∈ issued past) →
          ∃ reply, c.serve r = .ok reply := by
  refine ⟨_, initialise_eq supply hpos hmax, ?_⟩
  intro past c h hmade
  obtain ⟨s, hrun, hledger⟩ := h.ledger (ledger_empty supply.next hmax) hmade
  refine ⟨⟨s, hrun, hledger.holds.sequence_eq⟩, ?_⟩
  intro r hknown
  obtain ⟨reply, hserve, -⟩ := hledger.serve hknown
  exact ⟨reply, hserve⟩

/-- A slot that is used again: the node that was in it first is not found, though
the other one lies in the same place. -/
theorem run_sequence_reused :
    let first : NodeRef := ⟨⟨1⟩, 0, 1⟩
    let second : NodeRef := ⟨⟨1⟩, 0, 2⟩
    let past : List Exchange :=
      [⟨.insert 7, .ok (.node first), [.pool (.allocated 0 16), .appended 7 first]⟩,
      ⟨.delete 7, .ok .done, [.pool (.freed 0 16), .deleted 7 first]⟩,
      ⟨.insert 8, .ok (.node second), [.pool (.allocated 0 16), .appended 8 second]⟩,
      ⟨.get first, .error .nullReference, [.staleReference first]⟩]
    made past < UInt32.size ∧ ∃ start c, (initialise {} ⟨16, true⟩).answer = .ok start ∧
      start.Run past c ∧ ∃ s, Sequence.Run ⟨1⟩ 1 past s ∧ c.sequence = .ok s := by
  intro first second past
  obtain ⟨start, hstart, h⟩ := @run_sequence {} ⟨16, true⟩ (by decide) (by decide)
  obtain rfl : empty ⟨1⟩ ⟨16, true⟩ = start := Except.ok.inj hstart
  have hreplay : ((empty ⟨1⟩ ⟨16, true⟩).replay []
      [.insert 7, .delete 7, .insert 8, .get first]).map Prod.fst = some past := by decide
  obtain ⟨⟨_, c⟩, hreplay, rfl⟩ := Option.map_eq_some_iff.1 hreplay
  exact ⟨by decide, _, c, rfl, Run.nil.replay hreplay,
    (h _ c (Run.nil.replay hreplay) (by decide)).1⟩

end Chain
end FirstFit
