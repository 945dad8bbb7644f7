/-
# The audit is sound and complete

The audit compares each block with the end of the one before it and with
nothing else, yet what passes is well-formed for all pairs of blocks, and all
that is well-formed passes. The block it names is the first that does not go
with those in front of it.

Key definitions: `Layout.Behind`, `Layout.Audited`.
Key theorems: `behind_cons`, `auditFrom_cases`, `audit_eq_ok`, `verdict_of_audit`.
-/
import Mathlib.Order.Bounds.Defs
import FirstFit.Layout.Audit
import FirstFit.Proofs.Layout.WellFormed

namespace FirstFit
namespace Layout

variable {blocks pre post : List Block} {b : Block} {capacity index cursor : Nat}
  {verdict : Except Flaw Unit} {flaw : Flaw}

/-- The blocks are well-formed, and none of them starts before `cursor`. -/
structure Behind (cursor : Nat) (blocks : List Block) (capacity : Nat) : Prop where
  wellFormed : WellFormed blocks capacity
  start : ∀ b ∈ blocks, cursor ≤ b.start

theorem Behind.sublist (h : Behind cursor blocks capacity) {some : List Block}
    (hs : some.Sublist blocks) : Behind cursor some capacity :=
  ⟨h.wellFormed.sublist hs, fun b hb => h.start b (hs.subset hb)⟩

/-- What starts behind the end of a block starts behind every point up to it, so
one comparison for each block is enough. -/
theorem behind_cons : Behind cursor (b :: blocks) capacity ↔
    0 < b.len ∧ cursor ≤ b.start ∧ b.stop ≤ capacity ∧ Behind b.stop blocks capacity := by
  constructor
  · rintro ⟨hw, hstart⟩
    exact ⟨hw.nonempty b List.mem_cons_self, hstart b List.mem_cons_self,
      hw.inside b List.mem_cons_self, hw.tail, fun c hc => hw.stop_le_start hc⟩
  · rintro ⟨hlen, hstart, hstop, hw, hrest⟩
    refine ⟨⟨List.forall_mem_cons.2 ⟨hlen, hw.nonempty⟩, List.forall_mem_cons.2 ⟨hstop, hw.inside⟩,
      List.pairwise_cons.2 ⟨hrest, hw.apart⟩⟩, List.forall_mem_cons.2 ⟨hstart, fun c hc => ?_⟩⟩
    have hle : b.start ≤ b.stop := Nat.le_add_right _ _
    have := hrest c hc
    omega

/-- What an audit from `cursor` on says: all blocks lie there as they should, or
those of `pre` do and the next one does not go with them. -/
inductive Audited (capacity index cursor : Nat) (blocks : List Block) : Except Flaw Unit → Prop
  | passed (h : Behind cursor blocks capacity) : Audited capacity index cursor blocks (.ok ())
  | flawed {flaw : Flaw} (pre : List Block) {post : List Block} {b : Block}
      (hsplit : blocks = pre ++ b :: post) (hindex : flaw.index = index + pre.length)
      (hpre : Behind cursor pre capacity)
      (hnot : ¬ Behind cursor (pre ++ [b]) capacity) :
      Audited capacity index cursor blocks (.error flaw)

namespace Audited

/-- The first block is itself to blame. -/
theorem first (hindex : flaw.index = index) (hnot : ¬ Behind cursor [b] capacity) :
    Audited capacity index cursor (b :: blocks) (.error flaw) :=
  .flawed [] rfl hindex ⟨.nil capacity, fun _ hc => nomatch hc⟩ hnot

/-- The first block is in order, so the others decide. -/
theorem cons (h : Audited capacity (index + 1) b.stop blocks verdict) (hlen : 0 < b.len)
    (hstart : cursor ≤ b.start) (hstop : b.stop ≤ capacity) :
    Audited capacity index cursor (b :: blocks) verdict := by
  have hiff (rest : List Block) :
      Behind cursor (b :: rest) capacity ↔ Behind b.stop rest capacity :=
    behind_cons.trans ⟨fun h => h.2.2.2, fun h => ⟨hlen, hstart, hstop, h⟩⟩
  cases h with
  | passed h => exact .passed ((hiff _).2 h)
  | @flawed flaw pre post c hsplit hindex hpre hnot =>
    refine .flawed (b :: pre) (congrArg (b :: ·) hsplit) ?_ ((hiff pre).2 hpre)
      fun h => hnot ((hiff _).1 h)
    rw [hindex, List.length_cons]
    omega

end Audited

/-- The induction is on the blocks still ahead; `cursor` is where the last block
ends that was looked at. -/
theorem auditFrom_cases (capacity : Nat) : ∀ {blocks : List Block} (index cursor : Nat),
    (∀ b ∈ blocks, b.stop < Size.bound) →
    ∃ verdict, auditFrom capacity blocks index cursor = .ok verdict ∧
      Audited capacity index cursor blocks verdict
  | [], _, _, _ => ⟨_, rfl, .passed ⟨.nil capacity, fun _ hc => nomatch hc⟩⟩
  | b :: rest, index, cursor, hb => by
    unfold auditFrom
    by_cases hlen : b.len = 0
    · rw [if_pos hlen]
      exact ⟨_, rfl, .first rfl fun h => absurd (behind_cons.1 h).1 (by omega)⟩
    rw [if_neg hlen]
    by_cases hstart : b.start < cursor
    · rw [if_pos hstart]
      exact ⟨_, rfl, .first rfl fun h => absurd (behind_cons.1 h).2.1 (by omega)⟩
    rw [if_neg hstart, Block.checkedStop_of_lt (hb b List.mem_cons_self), Checked.ok_bind]
    by_cases hstop : capacity < b.stop
    · rw [if_pos hstop]
      exact ⟨_, rfl, .first rfl fun h => absurd (behind_cons.1 h).2.2.1 (by omega)⟩
    rw [if_neg hstop]
    obtain ⟨verdict, hverdict, haudited⟩ := auditFrom_cases capacity (index + 1) b.stop
      fun c hc => hb c (List.mem_cons_of_mem _ hc)
    exact ⟨verdict, hverdict, haudited.cons (by omega) (by omega) (by omega)⟩

theorem behind_zero : Behind 0 blocks capacity ↔ WellFormed blocks capacity :=
  ⟨Behind.wellFormed, fun h => ⟨h, fun _ _ => Nat.zero_le _⟩⟩

theorem Audited.eq_ok_iff (h : Audited capacity 0 0 blocks verdict) :
    verdict = .ok () ↔ WellFormed blocks capacity := by
  cases h with
  | passed h => exact iff_of_true rfl h.wellFormed
  | @flawed flaw pre post b hsplit hindex hpre hnot =>
    refine iff_of_false nofun fun hw => hnot ((behind_zero.2 hw).sublist ?_)
    rw [hsplit]
    exact (List.singleton_sublist.2 List.mem_cons_self).append_left _

/-- The block that is named is the first one at which the list goes wrong. -/
theorem Audited.isLeast (h : Audited capacity 0 0 blocks (.error flaw)) :
    IsLeast {i | WellFormed (blocks.take i) capacity ∧ ¬ WellFormed (blocks.take (i + 1)) capacity}
      flaw.index := by
  cases h with
  | @flawed _ pre post b hsplit hindex hpre hnot =>
    rw [Nat.zero_add] at hindex
    rw [hindex, hsplit]
    refine ⟨⟨?_, ?_⟩, fun i hi => ?_⟩
    · rw [List.take_left]
      exact hpre.wellFormed
    · rw [List.take_length_add_append]
      exact fun hw => hnot (behind_zero.2 hw)
    · by_contra hlt
      -- what was in order before is so as part of `pre`
      refine hi.2 (hpre.wellFormed.sublist ?_)
      rw [List.take_append_of_le_length (by omega)]
      exact List.take_sublist _ _

/-- The audit passes what is well-formed, and nothing else. -/
theorem audit_eq_ok (hb : ∀ b ∈ blocks, b.stop < Size.bound) :
    audit blocks capacity = .ok (.ok ()) ↔ WellFormed blocks capacity := by
  obtain ⟨verdict, hverdict, haudited⟩ := auditFrom_cases capacity 0 0 hb
  rw [audit, hverdict, ← haudited.eq_ok_iff]
  exact ⟨Except.ok.inj, congrArg Except.ok⟩

/-- The audit finds nothing wrong with a layout that is well-formed. -/
theorem audit_of_wellFormed (h : WellFormed blocks capacity) (hb : capacity < Size.bound) :
    audit blocks capacity = .ok (.ok ()) :=
  (audit_eq_ok fun b hm => Nat.lt_of_le_of_lt (h.inside b hm) hb).2 h

/-- A message begins with the block that it is about. -/
theorem Flaw.message_eq (flaw : Flaw) :
    ∃ what : String, flaw.message = s!"block {flaw.index} {what}" := by
  have hat : " at " = " " ++ "at " := rfl
  have hrange : " [" = " " ++ "[" := rfl
  cases flaw with
  | empty i start =>
    exact ⟨s!"at {start} is empty",
      by simp only [message, index, toString, hat, String.append_assoc]⟩
  | overlap i start previousStop =>
    exact ⟨s!"at {start} overlaps or precedes the previous end {previousStop}",
      by simp only [message, index, toString, hat, String.append_assoc]⟩
  | overrun i start stop capacity =>
    exact ⟨s!"[{start}, {stop}) runs past capacity {capacity}",
      by simp only [message, index, toString, hrange, String.append_assoc]⟩

/-- The audit has a verdict on every list of blocks whose ends are sizes. It is
good exactly if the list is well-formed, and otherwise names, also in its
message, the first block that spoils it. -/
theorem verdict_of_audit (capacity : Nat) (hb : ∀ b ∈ blocks, b.stop < Size.bound) :
    ∃ verdict, audit blocks capacity = .ok verdict ∧
      (verdict = .ok () ↔ WellFormed blocks capacity) ∧
      ∀ flaw, verdict = .error flaw →
        IsLeast {i | WellFormed (blocks.take i) capacity ∧
          ¬ WellFormed (blocks.take (i + 1)) capacity} flaw.index ∧
        ∃ what : String, flaw.message = s!"block {flaw.index} {what}" := by
  obtain ⟨verdict, hverdict, haudited⟩ := auditFrom_cases capacity 0 0 hb
  refine ⟨verdict, hverdict, haudited.eq_ok_iff, fun flaw hflaw => ⟨?_, flaw.message_eq⟩⟩
  subst hflaw
  exact haudited.isLeast

/-- A block that touches the one before it, and one that reaches back into it. -/
theorem verdict_of_audit_overlap :
    let blocks : List Block := [⟨0, 2⟩, ⟨2, 3⟩, ⟨4, 1⟩, ⟨9, 0⟩]
    (∀ b ∈ blocks, b.stop < Size.bound) ∧
    audit blocks 8 = .ok (.error (.overlap 2 4 5)) ∧ ¬ WellFormed blocks 8 ∧
      IsLeast {i | WellFormed (blocks.take i) 8 ∧ ¬ WellFormed (blocks.take (i + 1)) 8} 2 := by
  intro blocks
  have hb : ∀ b ∈ blocks, b.stop < Size.bound := by decide
  obtain ⟨verdict, hverdict, hiff, hflaw⟩ := verdict_of_audit 8 hb
  obtain rfl : .error (.overlap 2 4 5) = verdict := Except.ok.inj hverdict
  have hnot : ¬ WellFormed blocks 8 := fun hw => nomatch hiff.2 hw
  exact ⟨hb, hverdict, hnot, (hflaw _ rfl).1⟩

end Layout
end FirstFit
