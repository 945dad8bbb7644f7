/-
# Runs of several chains

Chains are initialised one after another, with identities from one supply that
also serves arenas of other kinds, and asked this and that in any order. The
nodes of all of them are told apart by their references, though every chain
numbers its nodes from one on and places them from the first byte on, so that
nodes of two chains may differ in their arena alone.

Key definitions: `Chains.Member`, `Chains.Run`, `Chains.Unaliased`.
Key theorems: `Run.sound`, `unaliased_of_run`.
-/
import Mathlib.Data.List.Nodup
import FirstFit.Chains
import FirstFit.Proofs.Chain.References

namespace FirstFit
namespace Chains

open Chain (Exchange Request Answer Error Event Register)

/-- A chain with all that was asked of it, and the nodes it created, in this order. -/
structure Member where
  past : List Exchange := []
  born : List NodeRef := []
  chain : Chain

namespace Member

/-- The identity of the arena of the chain. -/
def id (m : Member) : ArenaId := m.chain.table.arena.id

/-- The member after a request. -/
def after (m : Member) (r : Request) (reply : Reply Error Chain Event Answer) : Member where
  past := m.past ++ [⟨r, reply.answer, reply.log⟩]
  born := m.born ++ (m.chain.creation r).toList
  chain := reply.state

end Member

/-- Chains that came about, all the way from a supply of which nothing was
given out; `arenas` identities have been since. A reference to a node of the
chain that is asked is one that an answer named. -/
inductive Run : (arenas : Nat) → List Member → Supply → Prop
  | nil : Run 0 [] {}
  | initialise {arenas : Nat} {ms : List Member} {supply : Supply} {config : Pool.Config}
      {chain : Chain} (h : Run arenas ms supply)
      (hinit : (Chain.initialise supply config).answer = .ok chain) :
      Run (arenas + 1) (ms ++ [⟨[], [], chain⟩]) (Chain.initialise supply config).state
  | refused {arenas : Nat} {ms : List Member} {supply : Supply} {config : Pool.Config}
      {available : Bool} {e : Error} (h : Run arenas ms supply)
      (hinit : (Chain.initialise supply config available).answer = .error e) :
      Run arenas ms (Chain.initialise supply config available).state
  /-- An arena of another kind takes an identity. -/
  | elsewhere {arenas : Nat} {ms : List Member} {supply : Supply} (h : Run arenas ms supply) :
      Run (arenas + 1) ms supply.rest
  | serve {arenas : Nat} {pre post : List Member} {m : Member} {supply : Supply} {r : Request}
      {reply : Reply Error Chain Event Answer} (h : Run arenas (pre ++ m :: post) supply)
      (hknown : ∀ n ∈ r.nodes, n.arena = m.id →
        ∃ m' ∈ pre ++ m :: post, n ∈ Chain.issued m'.past)
      (hserve : m.chain.serve r = .ok reply) :
      Run arenas (pre ++ m.after r reply :: post) supply

variable {arenas : Nat} {ms pre post : List Member} {m m' : Member} {supply : Supply}
  {r : Request} {reply : Reply Error Chain Event Answer}

/-! ### What a run keeps -/

/-- A chain of which the register is right. -/
def Member.Sound (m : Member) : Prop :=
  ∃ capacity s, Register m.id capacity m.past m.born m.chain s

/-- The identities of the chains were given out and are different from one
another, and the register of each chain is right. -/
structure Sound (arenas : Nat) (ms : List Member) (supply : Supply) : Prop where
  next : supply.next.val = UInt64.ofNat (arenas + 1)
  given : ∀ m ∈ ms, m.id.val.toNat ≤ arenas
  distinct : ms.Pairwise fun m m' => m.id ≠ m'.id
  sound : ∀ m ∈ ms, m.Sound

theorem Sound.rest (h : Sound arenas ms supply) : Sound (arenas + 1) ms supply.rest where
  next := by
    show supply.next.val + 1 = _
    rw [h.next]
    exact (UInt64.ofNat_add _ 1).symm
  given := fun m hm => Nat.le_succ_of_le (h.given m hm)
  distinct := h.distinct
  sound := h.sound

/-- The next identity is that of no chain so far. -/
theorem Sound.initialise (h : Sound arenas ms supply) (harenas : arenas + 1 < UInt64.size)
    {config : Pool.Config} {chain : Chain}
    (hinit : (Chain.initialise supply config).answer = .ok chain) :
    Sound (arenas + 1) (ms ++ [⟨[], [], chain⟩]) (Chain.initialise supply config).state := by
  obtain ⟨rfl, hmax, hstate⟩ := Chain.initialise_ok hinit
  rw [hstate]
  have hrest := h.rest
  have hnew : supply.next.val.toNat = arenas + 1 := by
    rw [h.next, UInt64.toNat_ofNat_of_lt' harenas]
  refine ⟨hrest.next, ?_, ?_, ?_⟩
  · intro m hm
    rcases List.mem_append.1 hm with hm | hm
    · exact hrest.given m hm
    · obtain rfl := List.mem_singleton.1 hm
      exact Nat.le_of_eq hnew
  · refine List.pairwise_append.2 ⟨h.distinct, List.pairwise_singleton _ _, ?_⟩
    intro m hm m' hm' he
    obtain rfl := List.mem_singleton.1 hm'
    have hle := h.given m hm
    rw [he] at hle
    have : supply.next.val.toNat ≤ arenas := hle
    omega
  · intro m hm
    rcases List.mem_append.1 hm with hm | hm
    · exact h.sound m hm
    · obtain rfl := List.mem_singleton.1 hm
      exact ⟨_, _, Chain.register_empty supply.next hmax⟩

/-- The other chains have other identities. -/
theorem Sound.id_ne (h : Sound arenas (pre ++ m :: post) supply) (hm' : m' ∈ pre ++ post) :
    m'.id ≠ m.id := by
  obtain ⟨-, hpost, hpre⟩ := List.pairwise_append.1 h.distinct
  rcases List.mem_append.1 hm' with hm' | hm'
  · exact hpre m' hm' m List.mem_cons_self
  · exact ((List.pairwise_cons.1 hpost).1 m' hm').symm

theorem Sound.serve (h : Sound arenas (pre ++ m :: post) supply)
    (hknown : ∀ n ∈ r.nodes, n.arena = m.id → ∃ m' ∈ pre ++ m :: post, n ∈ Chain.issued m'.past)
    (hserve : m.chain.serve r = .ok reply)
    (hmade : Chain.made (m.after r reply).past < UInt32.size) :
    Sound arenas (pre ++ m.after r reply :: post) supply := by
  have hmiddle : m ∈ pre ++ m :: post := List.mem_append_right _ List.mem_cons_self
  obtain ⟨capacity, s, hregister⟩ := h.sound m hmiddle
  obtain ⟨s', hregister'⟩ := hregister.serve (fun n hn ha => by
    obtain ⟨m', hm', hissued⟩ := hknown n hn ha
    obtain ⟨capacity', s', hregister'⟩ := h.sound m' hm'
    have hid : m'.id = m.id := (hregister'.bounded n hissued).1.symm.trans ha
    rcases List.mem_cons.1 (List.perm_middle.mem_iff.1 hm') with rfl | hm'
    · exact hissued
    · exact absurd hid (h.id_ne hm')) hserve hmade
  have hid : (m.after r reply).id = m.id := hregister'.arena
  have hothers : ∀ m' ∈ pre ++ m.after r reply :: post,
      m' = m.after r reply ∨ m' ∈ pre ++ m :: post := by
    intro m' hm'
    refine (List.mem_cons.1 (List.perm_middle.mem_iff.1 hm')).imp_right fun hm' => ?_
    exact List.perm_middle.mem_iff.2 (List.mem_cons_of_mem _ hm')
  refine ⟨h.next, ?_, ?_, ?_⟩
  · intro m' hm'
    rcases hothers m' hm' with rfl | hm'
    · rw [hid]
      exact h.given m hmiddle
    · exact h.given m' hm'
  · have hdistinct := h.distinct
    rw [List.pairwise_append, List.pairwise_cons] at hdistinct ⊢
    simp only [List.mem_cons, forall_eq_or_imp, hid] at hdistinct ⊢
    exact hdistinct
  · intro m' hm'
    rcases hothers m' hm' with rfl | hm'
    · exact ⟨capacity, s', hid.symm ▸ hregister'⟩
    · exact h.sound m' hm'

theorem Run.sound (h : Run arenas ms supply) (harenas : arenas < UInt64.size)
    (hmade : ∀ m ∈ ms, Chain.made m.past < UInt32.size) : Sound arenas ms supply := by
  induction h with
  | nil => exact ⟨rfl, fun _ hm => (nomatch hm), .nil, fun _ hm => nomatch hm⟩
  | initialise h hinit ih =>
    have hbefore := ih (Nat.lt_of_succ_lt harenas) fun m hm =>
      hmade m (List.mem_append_left _ hm)
    exact hbefore.initialise harenas hinit
  | refused h hinit ih =>
    rw [Chain.initialise_error hinit]
    exact ih harenas hmade
  | elsewhere h ih => exact (ih (Nat.lt_of_succ_lt harenas) hmade).rest
  | @serve arenas pre post m supply r reply h hknown hserve ih =>
    have hafter := hmade (m.after r reply) (List.mem_append_right _ List.mem_cons_self)
    refine (ih harenas ?_).serve hknown hserve hafter
    intro m' hm'
    rcases List.mem_cons.1 (List.perm_middle.mem_iff.1 hm') with rfl | hm'
    · rw [Member.after, Chain.made_concat] at hafter
      exact Nat.lt_of_le_of_lt (Nat.le_add_right _ _) hafter
    · exact hmade m' (List.perm_middle.mem_iff.2 (List.mem_cons_of_mem _ hm'))

/-! ### References that mean one node each -/

/-- The nodes of several chains, and what the references to them are good for. -/
structure Unaliased (ms : List Member) : Prop where
  /-- No two nodes were given the same reference, by one chain or by two. -/
  distinct : (ms.flatMap Member.born).Nodup
  /-- The stamps of a chain ascend in the order in which its nodes were created. -/
  ascending : ∀ m ∈ ms, m.born.Pairwise fun n n' => n.stamp < n'.stamp
  created : ∀ m ∈ ms, ∀ p ∈ Chain.added m.past, p.1 ∈ m.born
  /-- A node that was neither removed nor cleaned up has its value. -/
  found : ∀ m ∈ ms, ∀ p ∈ Chain.added m.past, p.1 ∉ Chain.deleted m.past →
    Chain.ended m.past = false → ∃ log, m.chain.get p.1 = .ok ⟨.ok p.2, m.chain, log⟩
  /-- One that is gone, or was given back at once, is not found. -/
  missed : ∀ m ∈ ms, ∀ n ∈ m.born,
    (n ∈ Chain.deleted m.past ∨ Chain.ended m.past = true ∨ ∀ v, (n, v) ∉ Chain.added m.past) →
    m.chain.Misses n
  /-- No other chain finds it at any time. -/
  foreign : ∀ pre m post, ms = pre ++ m :: post → ∀ m' ∈ pre ++ post, ∀ n ∈ m.born,
    m'.chain.Misses n

/-- Whatever is asked of chains, while there are fewer than `2 ^ 64` arenas and
each chain creates fewer than `2 ^ 32` nodes, a reference means the one node it
was given to, or nothing. -/
theorem unaliased_of_run (h : Run arenas ms supply) (harenas : arenas < UInt64.size)
    (hmade : ∀ m ∈ ms, Chain.made m.past < UInt32.size) : Unaliased ms := by
  have hsound := h.sound harenas hmade
  have howned : ∀ m ∈ ms, ∀ n ∈ m.born, n.arena = m.id := by
    intro m hm
    obtain ⟨capacity, s, hregister⟩ := hsound.sound m hm
    exact hregister.owned
  refine ⟨List.nodup_flatMap.2 ⟨?_, ?_⟩, ?_, ?_, ?_, ?_, ?_⟩
  · intro m hm
    obtain ⟨capacity, s, hregister⟩ := hsound.sound m hm
    refine hregister.ascending.imp ?_
    rintro n _ hlt rfl
    exact UInt32.lt_irrefl _ hlt
  · refine hsound.distinct.imp_of_mem ?_
    intro m m' hm hm' hne n hn hn'
    exact hne ((howned m hm n hn).symm.trans (howned m' hm' n hn'))
  · intro m hm
    obtain ⟨capacity, s, hregister⟩ := hsound.sound m hm
    exact hregister.ascending
  · intro m hm
    obtain ⟨capacity, s, hregister⟩ := hsound.sound m hm
    exact hregister.created
  · intro m hm p hp hdeleted hended
    obtain ⟨capacity, s, hregister⟩ := hsound.sound m hm
    exact hregister.found hp hdeleted hended
  · intro m hm n hn hgone
    obtain ⟨capacity, s, hregister⟩ := hsound.sound m hm
    exact hregister.missed (hmade m hm) hn hgone
  · rintro pre m post rfl m' hm' n hn
    have hmem : m' ∈ pre ++ m :: post :=
      List.perm_middle.mem_iff.2 (List.mem_cons_of_mem _ hm')
    obtain ⟨capacity, s, hregister⟩ := hsound.sound m' hmem
    apply hregister.foreign
    rw [howned m (List.mem_append_right _ List.mem_cons_self) n hn]
    exact (hsound.id_ne hm').symm

/-- Requests to one of the chains, each with references that it named itself. -/
theorem Run.replay : ∀ {rs : List Request} {m : Member} {past : List Exchange} {c : Chain},
    Run arenas (pre ++ m :: post) supply → m.chain.replay m.past rs = some (past, c) →
      ∃ born, Run arenas (pre ++ ⟨past, born, c⟩ :: post) supply
  | [], m, past, c, h, hreplay => by
    obtain ⟨rfl, rfl⟩ := Prod.mk.inj (Option.some.inj hreplay)
    exact ⟨m.born, h⟩
  | r :: rest, m, past, c, h, hreplay => by
    unfold Chain.replay at hreplay
    split at hreplay
    · rename_i hknown
      cases hserve : m.chain.serve r with
      | error e => rw [hserve] at hreplay; cases hreplay
      | ok reply =>
        rw [hserve] at hreplay
        refine (h.serve (fun n hn ha => ?_) hserve).replay hreplay
        exact ⟨m, List.mem_append_right _ List.mem_cons_self, hknown n hn ha⟩
    · cases hreplay

/-- Two chains with one slot each: the node of the second has the offset and the
stamp of the node that was removed from the first. -/
theorem unaliased_of_run_coinciding :
    ∃ a b supply, Run 2 [a, b] supply ∧ 2 < UInt64.size ∧
      (∀ m ∈ [a, b], Chain.made m.past < UInt32.size) ∧
      Chain.added a.past = [(⟨⟨1⟩, 0, 1⟩, 7), (⟨⟨1⟩, 0, 2⟩, 8)] ∧
      Chain.deleted a.past = [⟨⟨1⟩, 0, 1⟩] ∧ Chain.added b.past = [(⟨⟨2⟩, 0, 1⟩, 9)] ∧
      Unaliased [a, b] := by
  let config : Pool.Config := ⟨16, true⟩
  have hfirst : ((Chain.empty ⟨1⟩ config).replay [] [.insert 7, .delete 7, .insert 8]).any
      (fun last => decide (Chain.added last.1 = [(⟨⟨1⟩, 0, 1⟩, 7), (⟨⟨1⟩, 0, 2⟩, 8)] ∧
        Chain.deleted last.1 = [⟨⟨1⟩, 0, 1⟩] ∧ Chain.made last.1 < UInt32.size)) = true := by
    decide
  have hsecond : ((Chain.empty ⟨2⟩ config).replay [] [.insert 9]).any
      (fun last => decide (Chain.added last.1 = [(⟨⟨2⟩, 0, 1⟩, 9)] ∧
        Chain.made last.1 < UInt32.size)) = true := by decide
  obtain ⟨⟨past, c⟩, hreplay, hlast⟩ := (Option.any_eq_true _ _).1 hfirst
  obtain ⟨⟨past', c'⟩, hreplay', hlast'⟩ := (Option.any_eq_true _ _).1 hsecond
  obtain ⟨hadded, hdeleted, hmade⟩ := of_decide_eq_true hlast
  obtain ⟨hadded', hmade'⟩ := of_decide_eq_true hlast'
  have hinit : (Chain.initialise {} config).answer = .ok (Chain.empty ⟨1⟩ config) := rfl
  have hinit' : (Chain.initialise (Chain.initialise {} config).state config).answer =
      .ok (Chain.empty ⟨2⟩ config) := rfl
  obtain ⟨born, hrun⟩ := (Run.nil.initialise hinit).replay hreplay
  obtain ⟨born', hrun'⟩ := (hrun.initialise hinit').replay hreplay'
  let a : Member := ⟨past, born, c⟩
  let b : Member := ⟨past', born', c'⟩
  have hbound : ∀ m ∈ [a, b], Chain.made m.past < UInt32.size :=
    List.forall_mem_cons.2 ⟨hmade, List.forall_mem_singleton.2 hmade'⟩
  exact ⟨a, b, _, hrun', by decide, hbound, hadded, hdeleted, hadded',
    unaliased_of_run hrun' (by decide) hbound⟩

end Chains
end FirstFit
