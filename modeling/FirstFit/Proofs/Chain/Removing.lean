/-
# Removing nodes from a chain

A node is unlinked before its storage is given back. Cleaning up gives back
the storage of every node, one after another along the links, and then ends
the pool, so no block and no byte of a node is left.

Key definitions: `releases`, `Chain.torn`.
Key theorems: `delete_simulates`, `releaseAll_eq`, `cleanUp_eq`,
`cleanUp_simulates`.
-/
import FirstFit.Proofs.Chain.Holds

namespace FirstFit
namespace Chain

open Sequence (Linked Owned first last)
open NodeTable (Stored)

variable {c : Chain} {s pre post : Sequence} {v : UInt16} {node : NodeRef} {t : NodeTable}

/-! ### One node -/

/-- Behind a node there is a way around the next one. -/
theorem unlink {p : NodeRef × UInt16} (h : t.Stored (pre ++ p :: (node, v) :: post))
    (hl : Linked t.arena none (pre ++ p :: (node, v) :: post)) :
    ∃ a, t.setNext p.1 (first none post) = .ok (t.withArena a) ∧
      t.arena.SameOutside a p.1.offset.toNat Node.size ∧
      (t.withArena a).Stored ((node, v) :: (pre ++ p :: post)) ∧
      Linked a none (pre ++ p :: post) := by
  obtain ⟨hpre, hp, -, hpost⟩ := Sequence.linked_append.1 hl
  have hmiddle : (pre ++ p :: (node, v) :: post).Perm (p :: (pre ++ (node, v) :: post)) :=
    List.perm_middle
  have hstored := h.perm hmiddle
  obtain ⟨a, hset, hsame, hnew, hstored'⟩ := hstored.setNext hp (first none post)
  have hperm : (p :: (pre ++ (node, v) :: post)).Perm ((node, v) :: (pre ++ p :: post)) := calc
    (p :: (pre ++ (node, v) :: post)).Perm (p :: (node, v) :: (pre ++ post)) :=
      List.perm_middle.cons _
    List.Perm _ ((node, v) :: p :: (pre ++ post)) := .swap _ _ _
    List.Perm _ ((node, v) :: (pre ++ p :: post)) := List.perm_middle.symm.cons _
  refine ⟨a, hset, hsame, hstored'.perm hperm, Sequence.linked_append.2 ⟨?_, hnew, ?_⟩⟩
  · exact hstored.frame (by simp) hsame hpre
  · exact hstored.frame (by simp) hsame hpost

/-- The storage of a node that nothing leads to is given back. -/
theorem release_unlinked (h : t.Stored ((node, v) :: s)) (hl : Linked t.arena none s) :
    ∃ t', t.release node = .ok (t', [.pool (.freed node.offset.toNat Node.size)]) ∧
      t.arena.SameOutside t'.arena node.offset.toNat Node.size ∧ t'.Stored s ∧
      Linked t'.arena none s ∧ t'.isLive = t.isLive ∧ t'.nextStamp = t.nextStamp := by
  have hlive := h.live List.mem_cons_self
  obtain ⟨t', hrelease, hsame, hstored, hlive', hnext⟩ := h.release hlive
  exact ⟨t', hrelease, hsame, hstored, h.frame (List.Subset.refl s) hsame hl,
    hlive'.trans hlive.symm, hnext⟩

theorem last_concat (previous : Option NodeRef) : ∀ (s : Sequence) (p : NodeRef × UInt16),
    last previous (s ++ [p]) = some p.1
  | [], _ => rfl
  | q :: s, p => last_concat (some q.1) s p

/-- The first node with the value is the one between `pre` and `post`. -/
theorem delete_found (h : c.Holds (pre ++ (node, v) :: post)) (hne : ∀ p ∈ pre, p.2 ≠ v)
    {head : NodeRef} (hhead : c.head = some head)
    (hfind : c.table.findValue v head =
      .ok (some ⟨last none pre, node, ⟨v, first none post⟩⟩)) (offer : Except Pool.Error NodeRef) :
    ∃ reply, c.delete v = .ok reply ∧
      Simulates c (pre ++ (node, v) :: post) (.delete v) offer (reply.map fun _ => .done) ∧
      reply.log.filterMap Event.deletion = [node] := by
  have hstep : Sequence.step offer (pre ++ (node, v) :: post) (.delete v) = _ :=
    Sequence.step_delete_append offer hne
  have hanswer := (congrArg Prod.fst hstep).symm
  rcases List.eq_nil_or_concat' pre with rfl | ⟨front, p, rfl⟩
  · -- the head itself: what it led to is the head from now on
    obtain ⟨t', hrelease, hsame, hstored, hlinked, hlive, hnext⟩ :=
      release_unlinked h.stored h.linked.2
    refine ⟨⟨.ok (), ⟨t', first none post⟩,
      [.pool (.freed node.offset.toNat Node.size), .deleted v node]⟩, ?_,
      simulates_of_not_creates rfl (.inl hanswer) ?_ hsame.id hsame.capacity
        (hlive.trans (Bool.and_true _).symm) hnext ⟨rfl, rfl⟩, rfl⟩
    · simp only [delete, hhead, hfind, last, hrelease, Checked.ok_bind, pure_bind]
      rfl
    · rw [hstep]
      exact ⟨hstored, hlinked, rfl⟩
  · have hstored := h.stored
    have hlinked := h.linked
    have hfirst := h.head
    rw [← List.append_cons] at hstored hlinked
    rw [← List.append_cons, Sequence.first_append] at hfirst
    rw [last_concat] at hfind
    obtain ⟨a, hset, hsame₁, hstored₁, hlinked₁⟩ := unlink hstored hlinked
    obtain ⟨t', hrelease, hsame₂, hstored₂, hlinked₂, hlive, hnext⟩ :=
      release_unlinked hstored₁ hlinked₁
    refine ⟨⟨.ok (), ⟨t', c.head⟩,
      [.pool (.freed node.offset.toNat Node.size), .deleted v node]⟩, ?_,
      simulates_of_not_creates rfl (.inl hanswer) ?_ (hsame₂.id.trans hsame₁.id)
        (hsame₂.capacity.trans hsame₁.capacity) (hlive.trans (Bool.and_true _).symm) hnext
        ⟨rfl, rfl⟩, rfl⟩
    · simp only [delete, hhead, hfind, hset, hrelease, Checked.ok_bind, pure_bind]
      rfl
    · rw [hstep, ← List.append_cons]
      refine ⟨hstored₂, hlinked₂, ?_⟩
      rw [hfirst, Sequence.first_append]
      rfl

theorem delete_simulates (h : c.Holds s) (offer : Except Pool.Error NodeRef) (v : UInt16) :
    ∃ reply, c.delete v = .ok reply ∧
      Simulates c s (.delete v) offer (reply.map fun _ => .done) ∧
      reply.log.filterMap Event.deletion =
        ((s.find? fun p => p.2 == v).map Prod.fst).toList := by
  have hhead := h.head
  cases s with
  | nil =>
    exact ⟨⟨.error .notFound, c, [.nothingToDelete v]⟩, by rw [delete, hhead]; rfl,
      h.same rfl rfl rfl ⟨rfl, rfl⟩, rfl⟩
  | cons q rest =>
    have hwalk : c.table.findValue v q.1 = _ :=
      NodeTable.walk_eq _ none h.linked h.stored.owned h.stored.length_le
    rcases Sequence.stopAt_value v (q :: rest) none with
      ⟨hne, hstop⟩ | ⟨pre, node, post, hsplit, hne, hstop⟩
    · refine ⟨⟨.error .notFound, c, [.deleteMissed v]⟩, ?_,
        h.same rfl rfl (Sequence.step_delete_missed offer hne) ⟨rfl, rfl⟩, ?_⟩
      · simp only [delete, hhead, first, hwalk, hstop, Checked.ok_bind]
        rfl
      · rw [Sequence.find_missed hne]
        rfl
    · have hfind := hwalk.trans (congrArg Except.ok hstop)
      rw [hsplit] at h ⊢
      rw [Sequence.find_append hne]
      exact delete_found h hne hhead hfind offer

/-! ### All nodes -/

/-- What is logged when the nodes of a sequence are released in order. -/
def releases (s : Sequence) : List Event :=
  s.nodes.map fun n => .pool (.freed n.offset.toNat Node.size)

/-- What is logged when the pool ends after the last node is gone. -/
def torn (c : Chain) : Event :=
  .pool (if c.table.isLive then .tornDown c.table.arena.id 0 else .notLive)

theorem logged_releases (s : Sequence) : Logged 0 (releases s) := by
  induction s with
  | nil => exact ⟨rfl, rfl⟩
  | cons p s ih =>
    have hfreed : Logged 0 [.pool (.freed p.1.offset.toNat Node.size)] := ⟨rfl, rfl⟩
    exact hfreed.append ih

theorem releaseAll_none (t : NodeTable) (steps : Nat) :
    releaseAll steps t none = .ok (t, [], 0) := by
  cases steps <;> rfl

/-- Releasing the nodes from the first on: the induction is on the sequence, of
which each step takes the head off. -/
theorem releaseAll_eq : ∀ {s : Sequence} {t : NodeTable} {steps : Nat}, t.Stored s →
    Linked t.arena none s → s.length ≤ steps →
    ∃ t', releaseAll steps t (first none s) = .ok (t', releases s, s.length) ∧ t'.Stored [] ∧
      t'.arena.id = t.arena.id ∧ t'.arena.capacity = t.arena.capacity ∧
      t'.isLive = t.isLive ∧ t'.nextStamp = t.nextStamp
  | [], t, steps, h, _, _ => ⟨t, releaseAll_none t steps, h, rfl, rfl, rfl, rfl⟩
  | (node, v) :: s, t, steps + 1, h, hl, hlen => by
    have hnext := NodeTable.next_linked hl h.owned
    obtain ⟨t₁, hrelease, hsame, hstored, hlinked, hlive, hstamp⟩ := release_unlinked h hl.2
    obtain ⟨t', hrest, hempty, hid, hcapacity, hlive', hstamp'⟩ :=
      releaseAll_eq hstored hlinked (Nat.le_of_succ_le_succ hlen)
    refine ⟨t', ?_, hempty, hid.trans hsame.id, hcapacity.trans hsame.capacity,
      hlive'.trans hlive, hstamp'.trans hstamp⟩
    show releaseAll (steps + 1) t (some node) = _
    simp only [releaseAll, hnext, hrelease, hrest, Checked.ok_bind]
    rfl

/-- The end of the pool leaves a table without nodes. -/
theorem tearDown_eq (h : t.Stored []) :
    ∃ t', t.tearDown = (t', [.pool (if t.isLive then .tornDown t.arena.id 0 else .notLive)]) ∧
      t'.Stored [] ∧ t'.arena = t.arena ∧ t'.isLive = false ∧ t'.nextStamp = t.nextStamp := by
  have hstored : NodeTable.Stored { t with
      space := { t.space with layout := {} }, isLive := false } [] := by
    have htidy := h.tidy
    exact ⟨⟨⟨.nil _, htidy.sound.small⟩, htidy.reach, fun _ hb => (nomatch hb),
      fun i _ => h.byte_nil i, fun _ => rfl⟩, fun _ hp => (nomatch hp), .nil⟩
  refine ⟨_, ?_, hstored, rfl, rfl, rfl⟩
  cases hlive : t.isLive with
  | true =>
    have hsize : t.space.layout.size = 0 := congrArg List.length h.blocks_nil
    rw [NodeTable.tearDown, NodeTable.pool_of_live hlive, if_pos rfl, ← hsize]
    rfl
  | false =>
    rw [NodeTable.tearDown, NodeTable.pool, hlive]
    rfl

/-- Cleaning up releases the nodes in order, one at a time. -/
theorem cleanUp_eq (h : c.Holds s) :
    ∃ t', c.cleanUp =
        .ok ⟨.ok (), ⟨t', none⟩, releases s ++ [c.torn] ++ [.cleanedUp s.length]⟩ ∧
      t'.Stored [] ∧ t'.arena.id = c.table.arena.id ∧
      t'.arena.capacity = c.table.arena.capacity ∧ t'.isLive = false ∧
      t'.nextStamp = c.table.nextStamp := by
  obtain ⟨t₁, hall, hempty, hid, hcapacity, hlive, hstamp⟩ :=
    releaseAll_eq h.stored h.linked h.stored.length_le
  obtain ⟨t₂, htear, hstored, harena, hended, hstamp'⟩ := tearDown_eq hempty
  rw [hid, hlive] at htear
  refine ⟨t₂, ?_, hstored, (congrArg Arena.id harena).trans hid,
    (congrArg Arena.capacity harena).trans hcapacity, hended, hstamp'.trans hstamp⟩
  simp only [cleanUp, h.head, hall, htear, Checked.ok_bind]
  rfl

theorem cleanUp_simulates (h : c.Holds s) (offer : Except Pool.Error NodeRef) :
    ∃ reply, c.cleanUp = .ok reply ∧
      Simulates c s .cleanUp offer (reply.map fun _ => .done) := by
  obtain ⟨t', hreply, hstored, hid, hcapacity, hended, hstamp⟩ := cleanUp_eq h
  refine ⟨_, hreply, simulates_of_not_creates rfl (.inl rfl) ⟨hstored, trivial, rfl⟩ hid hcapacity
    (hended.trans (Bool.and_false _).symm) hstamp ?_⟩
  have htorn : Logged 0 [c.torn] := by
    unfold torn
    cases c.table.isLive <;> exact ⟨rfl, rfl⟩
  have hcleaned : Logged 0 [.cleanedUp s.length] := ⟨rfl, rfl⟩
  exact ((logged_releases s).append htorn).append hcleaned

end Chain
end FirstFit
