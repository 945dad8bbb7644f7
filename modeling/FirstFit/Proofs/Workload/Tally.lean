/-
# Counting operations

A tally counts operations when it holds each of them once, under its own kind.
Which of two outcomes an operation had is for the chain to say; that it had one
is all that the sums of a tally depend on. Tallies are sums of their counters,
so it does not matter whose tally an operation went to, nor in which order
tallies are merged.

Key definitions: `Op.isInsert`, `Op.isDelete`, `Op.isSearch`, `Tally.Counts`,
`Op.Effect`.
Key theorems: `Counts.record`, `Counts.total`, `Op.effect`.
-/
import FirstFit.Proofs.Chain.Refinement
import FirstFit.Workload.Run

namespace FirstFit

namespace Op

def isInsert : Op → Bool
  | insert _ => true
  | _ => false

def isDelete : Op → Bool
  | delete _ => true
  | _ => false

def isSearch : Op → Bool
  | search _ => true
  | _ => false

end Op

namespace Tally

variable {t u : Tally} {ops ops' : List Op} {op : Op} {ε : Type} {answer : Except ε Unit}

/-! ### Merging -/

theorem merge_assoc (t u v : Tally) : (t.merge u).merge v = t.merge (u.merge v) := by
  simp only [merge, Nat.add_assoc]

theorem merge_empty (t : Tally) : t.merge {} = t := rfl

theorem empty_merge (t : Tally) : merge {} t = t := by
  simp only [merge, Nat.zero_add]

theorem merge_comm (t u : Tally) : t.merge u = u.merge t := by
  simp only [merge, Nat.add_comm]

instance : Std.Associative merge := ⟨merge_assoc⟩

instance : Std.Commutative merge := ⟨merge_comm⟩

/-- Tallies can be merged in any order. -/
theorem foldl_merge_perm {ts us : List Tally} (h : ts.Perm us) :
    ts.foldl merge {} = us.foldl merge {} :=
  h.foldl_op_eq

/-- Counting one more operation adds the tally of this one. -/
theorem record_eq_merge (t : Tally) (op : Op) (answer : Except ε Unit) :
    t.record op answer = t.merge (record {} op answer) := by
  cases op <;> cases answer <;> rfl

/-- It does not matter in which of the tallies it is counted. -/
theorem merge_record (t u v : Tally) (op : Op) (answer : Except ε Unit) :
    t.merge ((u.record op answer).merge v) = (t.merge (u.merge v)).record op answer := by
  rw [record_eq_merge u, record_eq_merge (t.merge _)]
  simp only [merge, mk.injEq]
  omega

/-! ### What a tally counts -/

/-- The tally counts the operations of a list, each of them once. -/
structure Counts (t : Tally) (ops : List Op) : Prop where
  inserts : t.inserted + t.rejected = ops.countP Op.isInsert
  others : t.deleted + t.found + t.missed = ops.countP Op.isDelete + ops.countP Op.isSearch
  deletes : t.deleted ≤ ops.countP Op.isDelete
  searches : t.found ≤ ops.countP Op.isSearch

theorem Counts.empty : Counts {} [] := ⟨rfl, rfl, Nat.le_refl _, Nat.le_refl _⟩

theorem Counts.perm (h : t.Counts ops) (hp : ops.Perm ops') : t.Counts ops' where
  inserts := h.inserts.trans (hp.countP_eq _)
  others := h.others.trans (congrArg₂ (· + ·) (hp.countP_eq _) (hp.countP_eq _))
  deletes := Nat.le_trans h.deletes (Nat.le_of_eq (hp.countP_eq _))
  searches := Nat.le_trans h.searches (Nat.le_of_eq (hp.countP_eq _))

theorem Counts.record (h : t.Counts ops) (op : Op) (answer : Except ε Unit) :
    (t.record op answer).Counts (op :: ops) := by
  obtain ⟨hinserts, hothers, hdeletes, hsearches⟩ := h
  cases op <;> cases answer <;> constructor <;>
    simp only [Tally.record, List.countP_cons, Op.isInsert, Op.isDelete, Op.isSearch,
      Bool.false_eq_true, if_true, if_false] <;> omega

/-- Every operation is of one kind. -/
theorem length_eq_countP : ∀ ops : List Op,
    ops.countP Op.isInsert + ops.countP Op.isDelete + ops.countP Op.isSearch = ops.length
  | [] => rfl
  | op :: ops => by
    have ih := length_eq_countP ops
    cases op <;>
      simp only [List.countP_cons, Op.isInsert, Op.isDelete, Op.isSearch, List.length_cons,
        Bool.false_eq_true, if_true, if_false] <;> omega

theorem Counts.total (h : t.Counts ops) : t.total = ops.length := by
  have hlength := length_eq_countP ops
  have hinserts := h.inserts
  have hothers := h.others
  unfold Tally.total
  omega

end Tally

/-! ### What an operation does to a chain -/

namespace Op

open Chain (Sequence Simulates Event Error)

variable {c : Chain} {s s' : Sequence} {op : Op}

/-- What an operation does to a chain that holds `s`, as far as a tally tells. -/
structure Effect (c : Chain) (s : Sequence) (op : Op) (reply : Reply Error Chain Event Unit)
    (s' : Sequence) : Prop where
  holds : reply.state.Holds s'
  capacity : reply.state.table.arena.capacity = c.table.arena.capacity
  live : reply.state.table.isLive = c.table.isLive
  balance : s'.length + (Tally.record {} op reply.answer).deleted =
    s.length + (Tally.record {} op reply.answer).inserted
  room : c.table.isLive = true → s.length < c.table.slots →
    (Tally.record {} op reply.answer).rejected = 0

/-- An operation is carried out, whatever the chain: it adds a node, removes
one, or leaves all as they are. -/
theorem effect (h : c.Holds s) (op : Op) :
    ∃ reply s', op.apply c = .ok reply ∧ op.Effect c s reply s' := by
  cases op with
  | insert v =>
    obtain ⟨offer, ⟨answer, c', log⟩, hreply, hs⟩ := Chain.insert_simulates h v
    have hlive : c'.table.isLive = c.table.isLive := hs.live.trans (Bool.and_true _)
    have hanswer : answer.map Chain.Answer.node = (s.step offer (.insert v)).1 :=
      hs.answer_eq (by simp)
    refine ⟨_, (s.step offer (.insert v)).2, by rw [apply, hreply]; rfl, ?_⟩
    cases offer with
    | error e =>
      obtain rfl : answer = .error (.allocationFailed e) := Reply.error_of_map hanswer
      refine ⟨hs.holds, hs.capacity, hlive, rfl, fun hl hroom => ?_⟩
      exact absurd (hs.offers rfl hl) (Nat.not_le_of_lt hroom)
    | ok node =>
      obtain ⟨n, rfl, -⟩ := Reply.ok_of_map hanswer
      exact ⟨hs.holds, hs.capacity, hlive, List.length_append, fun _ _ => rfl⟩
  | delete v =>
    obtain ⟨⟨answer, c', log⟩, hreply, hs, -⟩ :=
      Chain.delete_simulates h (.error .uninitialised) v
    have hlive : c'.table.isLive = c.table.isLive := hs.live.trans (Bool.and_true _)
    have hholds := hs.holds
    have hanswer : answer.map (fun _ => Chain.Answer.done) = _ := hs.answer_eq (by simp)
    rcases Sequence.stopAt_value v s none with ⟨hne, -⟩ | ⟨pre, q, post, rfl, hne, -⟩
    · rw [Sequence.step_delete_missed _ hne] at hanswer hholds
      obtain rfl := Reply.error_of_map hanswer
      exact ⟨_, s, hreply, hholds, hs.capacity, hlive, rfl, fun _ _ => rfl⟩
    · rw [Sequence.step_delete_append _ hne] at hanswer hholds
      obtain ⟨_, rfl, -⟩ := Reply.ok_of_map hanswer
      refine ⟨_, pre ++ post, hreply, hholds, hs.capacity, hlive, ?_, fun _ _ => rfl⟩
      simp only [List.length_append, List.length_cons]
      rfl
  | search v =>
    obtain ⟨⟨answer, c', log⟩, hreply, hs⟩ := Chain.search_simulates h (.error .uninitialised) v
    have hlive : c'.table.isLive = c.table.isLive := hs.live.trans (Bool.and_true _)
    have hsame : (s.step (.error .uninitialised) (.search v)).2 = s := by
      rw [Sequence.step]
      split <;> rfl
    refine ⟨_, s, by rw [apply, hreply]; rfl, ?_⟩
    cases answer <;> exact ⟨hsame ▸ hs.holds, hs.capacity, hlive, rfl, fun _ _ => rfl⟩

end Op
end FirstFit
