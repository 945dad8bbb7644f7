/-
# Nodes linked one to the next

A sequence of nodes is linked in an arena if the cell of each says the stamp
and the value of the node and leads to the next one. Walks along the links are
computations on the sequence, and take no more steps than it has nodes.

Key definitions: `Chain.Sequence`, `Sequence.Linked`, `Sequence.stopAt`,
`NodeTable.trace`.
Key theorems: `lastFrom_eq`, `walk_eq`, `drain_eq`, `trace_eq`,
`stopAt_value`, `stopAt_before`.
-/
import FirstFit.Chain.Range
import FirstFit.Proofs.Chain.Storage

namespace FirstFit
namespace Chain

/-- Nodes in order, each with its value. -/
abbrev Sequence := List (NodeRef × UInt16)

namespace Sequence

open NodeTable (Record Stop)

variable {a a' : Arena} {after : Option NodeRef} {s : Sequence} {id : ArenaId}

/-- The first node, or `after` if there is none. -/
def first (after : Option NodeRef) : Sequence → Option NodeRef
  | [] => after
  | p :: _ => some p.1

/-- The last node, or `before` if there is none. -/
def last (before : Option NodeRef) : Sequence → Option NodeRef
  | [] => before
  | p :: rest => last (some p.1) rest

/-- The cell of each node leads to the next node, that of the last to `after`. -/
def Linked (a : Arena) (after : Option NodeRef) : Sequence → Prop
  | [] => True
  | p :: rest =>
    a.HasCell p.1.offset.toNat (.leadingTo p.2 p.1.stamp (first after rest)) ∧
      Linked a after rest

/-- The nodes are of the arena `id` and have stamps. -/
def Owned (id : ArenaId) (s : Sequence) : Prop := ∀ p ∈ s, p.1.arena = id ∧ p.1.stamp ≠ 0

theorem first_append (after : Option NodeRef) (s s' : Sequence) :
    first after (s ++ s') = first (first after s') s := by
  cases s <;> rfl

theorem linked_append : ∀ {s s' : Sequence},
    Linked a after (s ++ s') ↔ Linked a (first after s') s ∧ Linked a after s'
  | [], _ => ⟨fun h => ⟨trivial, h⟩, fun h => h.2⟩
  | p :: rest, s' => by
    simp only [List.cons_append, Linked, first_append, linked_append (s := rest), and_assoc]

/-- Nodes stay linked while bytes outside their cells are written. -/
theorem Linked.frame {base : Nat} (hs : a.SameOutside a' base Node.size) :
    ∀ {s : Sequence}, Linked a after s →
      (∀ p ∈ s, p.1.offset.toNat + Node.size ≤ base ∨ base + Node.size ≤ p.1.offset.toNat) →
      Linked a' after s
  | [], _, _ => trivial
  | p :: _, h, hd =>
    ⟨h.1.frame hs (hd p List.mem_cons_self),
      h.2.frame hs fun q hq => hd q (List.mem_cons_of_mem _ hq)⟩

theorem Linked.cell : ∀ {s : Sequence}, Linked a after s → ∀ p ∈ s,
    ∃ next, a.HasCell p.1.offset.toNat (.leadingTo p.2 p.1.stamp next)
  | q :: _, h, p, hp => by
    rcases List.mem_cons.1 hp with rfl | hp
    · exact ⟨_, h.1⟩
    · exact h.2.cell p hp

theorem Owned.first (h : Owned id s) : ∀ n ∈ first none s, n.arena = id ∧ n.stamp ≠ 0 := by
  cases s with
  | nil => exact fun _ hn => nomatch hn
  | cons p rest => exact fun n hn => Option.some.inj hn ▸ h p List.mem_cons_self

theorem Owned.tail {p : NodeRef × UInt16} (h : Owned id (p :: s)) : Owned id s :=
  fun q hq => h q (List.mem_cons_of_mem _ hq)

/-! ### Where a walk stops -/

/-- The first node that meets a condition; `previous` comes before the first. -/
def stopAt (meets : Record → Bool) (previous : Option NodeRef) : Sequence → Option Stop
  | [] => none
  | p :: rest =>
    if meets ⟨p.2, first none rest⟩ then some ⟨previous, p.1, ⟨p.2, first none rest⟩⟩
    else stopAt meets (some p.1) rest

/-- Going for a value: no node has it, or the walk stops at the first that has. -/
theorem stopAt_value (v : UInt16) : ∀ (s : Sequence) (previous : Option NodeRef),
    ((∀ p ∈ s, p.2 ≠ v) ∧ stopAt (fun r => r.data == v) previous s = none) ∨
    ∃ pre r post, s = pre ++ (r, v) :: post ∧ (∀ p ∈ pre, p.2 ≠ v) ∧
      stopAt (fun r => r.data == v) previous s =
        some ⟨last previous pre, r, ⟨v, first none post⟩⟩
  | [], _ => .inl ⟨fun _ h => (nomatch h), rfl⟩
  | (r, w) :: rest, previous => by
    by_cases hw : w = v
    · subst hw
      exact .inr ⟨[], r, rest, rfl, fun _ h => (nomatch h), if_pos (beq_self_eq_true w)⟩
    · have hstep : stopAt (fun r => r.data == v) previous ((r, w) :: rest) =
          stopAt (fun r => r.data == v) (some r) rest :=
        if_neg fun h => hw (eq_of_beq h)
      rw [hstep]
      rcases stopAt_value v rest (some r) with ⟨hne, hstop⟩ | ⟨pre, q, post, rfl, hne, hstop⟩
      · exact .inl ⟨List.forall_mem_cons.2 ⟨hw, hne⟩, hstop⟩
      · exact .inr ⟨(r, w) :: pre, q, post, rfl, List.forall_mem_cons.2 ⟨hw, hne⟩, hstop⟩

/-- Going for the node in front of `target`: no node behind the first is the
target, or the walk stops at one that leads to it. -/
theorem stopAt_before (target : NodeRef) : ∀ (s : Sequence) (previous : Option NodeRef),
    ((∀ p ∈ s.tail, p.1 ≠ target) ∧
      stopAt (fun r => r.next == some target) previous s = none) ∨
    ∃ pre p v post, s = pre ++ p :: (target, v) :: post ∧
      stopAt (fun r => r.next == some target) previous s =
        some ⟨last previous pre, p.1, ⟨p.2, some target⟩⟩
  | [], _ => .inl ⟨fun _ h => (nomatch h), rfl⟩
  | [p], previous => .inl ⟨fun _ h => (nomatch h), rfl⟩
  | p :: q :: rest, previous => by
    by_cases hq : q.1 = target
    · subst hq
      exact .inr ⟨[], p, q.2, rest, rfl, if_pos (beq_self_eq_true (some q.1))⟩
    · have hstep : stopAt (fun r => r.next == some target) previous (p :: q :: rest) =
          stopAt (fun r => r.next == some target) (some p.1) (q :: rest) :=
        if_neg fun h => hq (Option.some.inj (eq_of_beq h))
      rw [hstep]
      rcases stopAt_before target (q :: rest) (some p.1) with
        ⟨hne, hstop⟩ | ⟨pre, r, v, post, hsplit, hstop⟩
      · exact .inl ⟨List.forall_mem_cons.2 ⟨hq, hne⟩, hstop⟩
      · exact .inr ⟨p :: pre, r, v, post, by rw [hsplit]; rfl, hstop⟩

/-- The values up to and including that of the node `last`. -/
def upTo (last : Option NodeRef) : Sequence → List UInt16
  | [] => []
  | p :: rest => if last = some p.1 then [p.2] else p.2 :: upTo last rest

theorem upTo_none : ∀ s : Sequence, upTo none s = s.map Prod.snd
  | [] => rfl
  | _ :: rest => by rw [upTo, if_neg (by simp), upTo_none rest, List.map_cons]

end Sequence
end Chain

namespace NodeTable

open Chain (Sequence)
open Chain.Sequence (Linked Owned first stopAt upTo)

variable {t : NodeTable} {s : Sequence} {p : NodeRef × UInt16}

/-! ### Walks along linked nodes -/

/-- The node at the head of linked nodes, read from its cell. -/
theorem record_linked (hl : Linked t.arena none (p :: s)) (ho : Owned t.arena.id (p :: s)) :
    t.record p.1 = .ok ⟨p.2, first none s⟩ :=
  record_eq hl.1 ho.tail.first

theorem next_linked (hl : Linked t.arena none (p :: s)) (ho : Owned t.arena.id (p :: s)) :
    t.next p.1 = .ok (first none s) :=
  next_eq hl.1 ho.tail.first

theorem lastFrom_eq : ∀ {pre : Sequence} {steps : Nat} {node : NodeRef},
    first (some p.1) pre = some node → Linked t.arena none (pre ++ [p]) →
    Owned t.arena.id (pre ++ [p]) → pre.length < steps → t.lastFrom steps node = .ok p.1
  | [], steps + 1, node, hn, hl, ho, _ => by
    obtain rfl := Option.some.inj hn
    unfold lastFrom
    rw [next_linked hl ho, Checked.ok_bind]
    rfl
  | q :: pre, steps + 1, node, hn, hl, ho, hlen => by
    obtain rfl := Option.some.inj hn
    have hnext := next_linked (s := pre ++ [p]) hl ho
    have hlen' : pre.length < steps := Nat.lt_of_succ_lt_succ hlen
    unfold lastFrom
    rw [hnext, Checked.ok_bind, Sequence.first_append]
    cases pre with
    | nil =>
      have hl' : Linked t.arena none ([] ++ [p]) := hl.2
      exact lastFrom_eq rfl hl' ho.tail hlen'
    | cons r pre =>
      have hl' : Linked t.arena none ((r :: pre) ++ [p]) := hl.2
      exact lastFrom_eq rfl hl' ho.tail hlen'

theorem walk_eq (meets : Record → Bool) : ∀ {s : Sequence} {steps : Nat}
    {p : NodeRef × UInt16} (previous : Option NodeRef), Linked t.arena none (p :: s) →
    Owned t.arena.id (p :: s) → s.length < steps →
    t.walk meets steps previous p.1 = .ok (stopAt meets previous (p :: s))
  | [], steps + 1, p, previous, hl, ho, _ => by
    rw [walk, record_linked hl ho, Checked.ok_bind, stopAt, stopAt]
    by_cases hm : meets ⟨p.2, first none []⟩
    · rw [if_pos hm, if_pos hm]
      rfl
    · rw [if_neg hm, if_neg hm]
      rfl
  | q :: s, steps + 1, p, previous, hl, ho, hlen => by
    rw [walk, record_linked hl ho, Checked.ok_bind, stopAt]
    by_cases hm : meets ⟨p.2, first none (q :: s)⟩
    · rw [if_pos hm, if_pos hm]
      rfl
    · rw [if_neg hm, if_neg hm]
      exact walk_eq meets (some p.1) hl.2 ho.tail (Nat.lt_of_succ_lt_succ hlen)

/-- The slots of linked nodes exist. -/
theorem mapM_slotOf (hl : Linked t.arena none s) :
    ∃ bases, (first none s).mapM t.slotOf = .ok bases := by
  cases s with
  | nil => exact ⟨none, rfl⟩
  | cons p s =>
    refine ⟨some p.1.offset.toNat, ?_⟩
    show (some <$> t.slotOf p.1) = _
    rw [slotOf_eq hl.1.inside]
    rfl

theorem pull_eq (last : Option NodeRef) (hl : Linked t.arena none (p :: s))
    (ho : Owned t.arena.id (p :: s)) :
    Range.pull ⟨some p.1, last⟩ t =
      .ok (some p.2, ⟨if last = some p.1 then none else first none s, last⟩) := by
  obtain ⟨bases, hbases⟩ := mapM_slotOf hl.2
  simp only [Range.pull, record_linked hl ho, Checked.ok_bind]
  by_cases hlast : last = some p.1
  · rw [if_pos hlast, if_pos hlast]
    rfl
  · rw [if_neg hlast, if_neg hlast, hbases]
    rfl

/-- A range that has ended has no values. -/
theorem drain_ended (t : NodeTable) (last : Option NodeRef) (steps : Nat) :
    Range.drain ⟨none, last⟩ t steps = .ok [] := by
  cases steps <;> rfl

theorem drain_eq (last : Option NodeRef) : ∀ {s : Sequence} {steps : Nat},
    Linked t.arena none s → Owned t.arena.id s → s.length ≤ steps →
    Range.drain ⟨first none s, last⟩ t steps = .ok (upTo last s)
  | [], steps, _, _, _ => drain_ended t last steps
  | p :: s, steps + 1, hl, ho, hlen => by
    have ih := drain_eq last hl.2 ho.tail (Nat.le_of_succ_le_succ hlen)
    rw [Range.drain, first, pull_eq last hl ho, Checked.ok_bind, upTo]
    by_cases hlast : last = some p.1
    · rw [if_pos hlast, if_pos hlast]
      simp only [drain_ended, Checked.ok_bind]
      rfl
    · rw [if_neg hlast, if_neg hlast]
      show (Range.drain ⟨first none s, last⟩ t steps >>= _) = _
      rw [ih]
      rfl

/-- The nodes met from `node` on and their values, in at most `steps` steps. -/
def trace (t : NodeTable) : (steps : Nat) → (node : Option NodeRef) → Checked Sequence
  | _, none => return []
  | 0, some _ => .error .endless
  | steps + 1, some node => do
    let record ← t.record node
    let rest ← t.trace steps record.next
    return (node, record.data) :: rest

theorem trace_eq : ∀ {s : Sequence} {steps : Nat}, Linked t.arena none s →
    Owned t.arena.id s → s.length ≤ steps → t.trace steps (first none s) = .ok s
  | [], 0, _, _, _ => rfl
  | [], steps + 1, _, _, _ => rfl
  | p :: s, steps + 1, hl, ho, hlen => by
    rw [first, trace, record_linked hl ho, Checked.ok_bind,
      trace_eq hl.2 ho.tail (Nat.le_of_succ_le_succ hlen)]
    rfl

end NodeTable
end FirstFit
