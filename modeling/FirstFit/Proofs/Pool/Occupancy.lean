/-
# How full an arena is

The blocks of a layout and the gaps around them tile the arena: the occupied
bytes, the gap in front of all blocks and the gaps behind each of them add up
to the capacity. There is one gap more than there are blocks, so of the free
bytes at least that share lies in one piece.

Key definitions: `Layout.Tiled`, `Layout.covered`, `Space.Occupied`.
Key theorems: `sum_gapsBehind`, `map_gapAfter`, `card_covered`, `WellFormed.tiled`,
`occupancy_of_reached`.
-/
import Mathlib.Algebra.Order.BigOperators.Group.List
import Mathlib.Algebra.Order.Ring.Nat
import Mathlib.Order.Bounds.Defs
import Mathlib.Order.Interval.Finset.Nat
import FirstFit.Proofs.Pool.Allocate

namespace FirstFit
namespace Layout

variable {l : Layout} {blocks pre post : List Block} {b : Block}
  {capacity cursor used widest : Nat} {gaps : List Nat}

/-! ### The gaps of a layout -/

/-- From `cursor` on, the arena is the gap in front of the blocks, the blocks,
and the gaps behind them. -/
theorem sum_gapsBehind : ∀ {blocks : List Block} {cursor : Nat}, WellFormed blocks capacity →
    (∀ b ∈ blocks, cursor ≤ b.start) → cursor ≤ capacity →
    cursor + (blocks.map Block.len).sum + (limit blocks capacity - cursor) +
      (gapsBehind capacity blocks).sum = capacity
  | [], _, _, _, hc => Nat.add_sub_cancel' hc
  | b :: rest, cursor, h, hs, _ => by
    have hin := h.inside b List.mem_cons_self
    have ih := sum_gapsBehind h.tail (fun c hc => h.stop_le_start hc) hin
    have hfront : limit (b :: rest) capacity = b.start := rfl
    have hstart := hs b List.mem_cons_self
    rw [hfront, gapsBehind, List.map_cons, List.sum_cons, List.sum_cons]
    simp only [Block.stop] at ih hin ⊢
    omega

/-- The induction is on the blocks still ahead, `pre` being those behind. -/
theorem map_gapAfter_range' (hb : capacity < Size.bound) :
    ∀ pre post : List Block, l.blocks = pre ++ post → WellFormed l.blocks capacity →
    (List.range' pre.length post.length).map (l.gapAfter · capacity) =
      (gapsBehind capacity post).map .ok
  | _, [], _, _ => rfl
  | pre, b :: post, hl, h => by
    have hhead := gapAfter_append hl (hl ▸ h) hb
    have htail := map_gapAfter_range' hb (pre ++ [b]) post (by simp [hl]) h
    rw [List.length_append, List.length_singleton] at htail
    rw [List.length_cons, List.range'_succ, List.map_cons, hhead, htail]
    rfl

/-- Measuring behind every block gives all the gaps there. -/
theorem map_gapAfter (h : WellFormed l.blocks capacity) (hb : capacity < Size.bound) :
    (List.range l.size).map (l.gapAfter · capacity) = (gapsBehind capacity l.blocks).map .ok := by
  rw [List.range_eq_range']
  exact map_gapAfter_range' hb [] _ rfl h

/-- What the measurements of a layout say: `used` bytes are occupied, `gaps` are
the gaps behind each of the blocks, and `widest` is the widest gap. -/
structure Tiled (l : Layout) (capacity used : Nat) (gaps : List Nat) (widest : Nat) : Prop where
  occupied : l.used = .ok used
  behind : (List.range l.size).map (l.gapAfter · capacity) = gaps.map .ok
  largest : l.largestGap capacity = .ok widest
  /-- Without a block the gap in front is the whole arena. -/
  total : used + (l.blocks.head?.map Block.start).getD capacity + gaps.sum = capacity
  greatest : IsGreatest {gap | gap ∈ (l.blocks.head?.map Block.start).getD capacity :: gaps} widest

theorem WellFormed.tiled (h : WellFormed l.blocks capacity) (hb : capacity < Size.bound) :
    ∃ used gaps widest, l.Tiled capacity used gaps widest := by
  have hstart : ∀ b ∈ l.blocks, 0 ≤ b.start := fun _ _ => Nat.zero_le _
  have htotal := sum_gapsBehind h hstart (Nat.zero_le _)
  rw [Nat.zero_add, Nat.sub_zero] at htotal
  have hwidest := largestGapFrom_eq hb 0 h hstart (Nat.zero_le _)
  rw [Nat.zero_max] at hwidest
  have hmax : (limit l.blocks capacity :: gapsBehind capacity l.blocks).max? = some _ :=
    List.max?_cons'
  exact ⟨_, _, _, {
    occupied := used_eq h hb
    behind := map_gapAfter h hb
    largest := hwidest
    total := htotal
    greatest := List.max?_eq_some_iff.1 hmax }⟩

theorem Tiled.length_gaps (ht : l.Tiled capacity used gaps widest) : gaps.length = l.size := by
  have hlen := congrArg List.length ht.behind
  rw [List.length_map, List.length_map, List.length_range] at hlen
  exact hlen.symm

/-- Free bytes in one gap more than there are blocks: one of the gaps has its
share of them. -/
theorem Tiled.free_le (ht : l.Tiled capacity used gaps widest) :
    capacity - used ≤ (l.size + 1) * widest := by
  have hsum := List.sum_le_card_nsmul _ widest fun gap hgap => ht.greatest.2 hgap
  have htotal := ht.total
  rw [List.sum_cons, List.length_cons, ht.length_gaps, Nat.nsmul_eq_mul] at hsum
  omega

theorem Tiled.widest_le (ht : l.Tiled capacity used gaps widest) : widest ≤ capacity - used := by
  have hmem := List.le_sum_of_mem ht.greatest.1
  have htotal := ht.total
  rw [List.sum_cons] at hmem
  omega

/-- The bytes of the arena that are in a block. -/
def covered (blocks : List Block) (capacity : Nat) : Finset Nat :=
  (Finset.range capacity).filter fun i => ∃ b ∈ blocks, b.start ≤ i ∧ i < b.stop

/-- The bytes of the first block are in no other. -/
theorem card_covered : ∀ {blocks : List Block}, WellFormed blocks capacity →
    (covered blocks capacity).card = (blocks.map Block.len).sum
  | [], _ => by simp [covered]
  | b :: rest, h => by
    have hin := h.inside b List.mem_cons_self
    have hsplit : covered (b :: rest) capacity =
        Finset.Ico b.start b.stop ∪ covered rest capacity := by
      ext i
      simp only [covered, Finset.mem_filter, Finset.mem_range, Finset.mem_union, Finset.mem_Ico,
        List.exists_mem_cons_iff]
      constructor
      · rintro ⟨hi, hb | hrest⟩
        · exact .inl hb
        · exact .inr ⟨hi, hrest⟩
      · rintro (hb | ⟨hi, hrest⟩)
        · exact ⟨by omega, .inl hb⟩
        · exact ⟨hi, .inr hrest⟩
    have hdisjoint : Disjoint (Finset.Ico b.start b.stop) (covered rest capacity) := by
      refine Finset.disjoint_left.2 fun i hi hc => ?_
      obtain ⟨-, c, hc, hle, -⟩ := Finset.mem_filter.1 hc
      have := h.stop_le_start hc
      have := (Finset.mem_Ico.1 hi).2
      omega
    rw [hsplit, Finset.card_union_of_disjoint hdisjoint, Nat.card_Ico, card_covered h.tail,
      List.map_cons, List.sum_cons, Block.stop, Nat.add_sub_cancel_left]

end Layout

/-! ### The figures of a pool that can be reached -/

namespace Space

open Pool (Stats Handle Request Answer)
open Layout (IsWidest)

variable {s : Space} {size gap : Nat}

/-- What the figures of a space say about its arena. -/
structure Occupied (s : Space) (figures : Stats) : Prop where
  capacity : figures.capacity = s.capacity
  total : figures.used + figures.free = s.capacity
  covered : figures.used = (Layout.covered s.layout.blocks s.capacity).card
  liveBlocks : figures.liveBlocks = s.layout.blocks.length
  largestGap_le : figures.largestGap ≤ figures.free
  free_le : figures.free ≤ (figures.liveBlocks + 1) * figures.largestGap

theorem Sound.occupied (hs : s.Sound) (hgap : s.layout.largestGap s.capacity = .ok gap) :
    ∃ figures, s.stats = .ok figures ∧ figures.largestGap = gap ∧ s.Occupied figures := by
  obtain ⟨used, gaps, widest, ht⟩ := hs.wellFormed.tiled hs.bound
  obtain rfl : widest = gap := Except.ok.inj (ht.largest.symm.trans hgap)
  obtain rfl : used = (s.layout.blocks.map Block.len).sum :=
    Except.ok.inj (ht.occupied.symm.trans (Layout.used_eq hs.wellFormed hs.bound))
  have hused : (s.layout.blocks.map Block.len).sum ≤ s.capacity := by
    have := ht.total
    omega
  refine ⟨_, stats_eq hs hgap, rfl, ?_⟩
  exact {
    capacity := rfl
    total := Nat.add_sub_cancel' hused
    covered := (Layout.card_covered hs.wellFormed).symm
    liveBlocks := rfl
    largestGap_le := ht.widest_le
    free_le := ht.free_le }

end Space

namespace Pool

open Layout (WellFormed)

/-- The blocks and the gaps of a layout tile the arena, and the widest gap is the
maximum of the gaps. The figures of a pool say the same of its arena. Its free
bytes lie in one gap more than there are blocks, so a request is granted that
asks for no more than one gap's share of them, rounded up. -/
theorem occupancy_of_reached :
    (∀ (l : Layout) (capacity : Nat), WellFormed l.blocks capacity → capacity < Size.bound →
      ∃ used gaps widest, l.Tiled capacity used gaps widest) ∧
    ∀ s : Space, Reached ⟨some s⟩ →
      ∃ figures, stats ⟨some s⟩ = .ok (.ok figures) ∧ s.Occupied figures ∧
        ∀ supply size, 1 ≤ size → (figures.liveBlocks + 1) * (size - 1) < figures.free →
          ∃ reply new, serve ⟨some s⟩ supply (.allocate size) = .ok reply ∧
            reply.answer = .ok (.handle new) := by
  refine ⟨fun l capacity h hb => h.tiled hb, fun s h => ?_⟩
  have hs : s.Sound := sound_some.1 h.sound
  obtain ⟨gap, hgap, hwidest⟩ := Layout.largestGap_cases hs.wellFormed hs.bound
  obtain ⟨figures, hstats, rfl, hoccupied⟩ := hs.occupied hgap
  refine ⟨figures, stats_some hstats, hoccupied, fun supply size hsize hfree => ?_⟩
  have hfits : size ≤ figures.largestGap := by
    by_contra hlong
    have hshare : (figures.liveBlocks + 1) * figures.largestGap ≤
        (figures.liveBlocks + 1) * (size - 1) := Nat.mul_le_mul_left _ (by omega)
    have := hoccupied.free_le
    omega
  obtain ⟨r, hr, hcase⟩ := Space.allocate_cases hs size
  obtain ⟨new, hnew⟩ := ((hcase.answered hgap).decided hwidest).granted.2 ⟨hsize, hfits⟩
  exact ⟨_, new, serve_allocate hr, hnew⟩

/-- Eight free bytes around two blocks: three bytes are granted for sure. -/
theorem occupancy_of_reached_three :
    let rs : List Request := [.initialise ⟨12, true⟩, .allocate 4, .allocate 1, .allocate 2,
      .allocate 3, .free ⟨⟨1⟩, 0, 4⟩, .free ⟨⟨1⟩, 5, 2⟩]
    Layout.Tiled ⟨[⟨4, 1⟩, ⟨7, 3⟩]⟩ 12 4 [2, 2] 4 ∧
    ∃ answers s supply log, serveAll {} {} rs = .ok (answers, (⟨some s⟩, supply), log) ∧
      s.layout.blocks = [⟨4, 1⟩, ⟨7, 3⟩] ∧
      ∃ figures, stats ⟨some s⟩ = .ok (.ok figures) ∧ s.Occupied figures ∧
        figures = ⟨12, 4, 8, 2, 4⟩ ∧
        ∃ reply new, serve ⟨some s⟩ supply (.allocate 3) = .ok reply ∧
          reply.answer = .ok (.handle new) := by
  intro rs
  obtain ⟨htiled, hgranted⟩ := occupancy_of_reached
  have hlive := reached_of_any rs (fun s _ => decide (s.layout.blocks = [⟨4, 1⟩, ⟨7, 3⟩] ∧
    s.stats = .ok ⟨12, 4, 8, 2, 4⟩)) (by decide)
  obtain ⟨answers, s, supply, log, hrun, hreached, hs⟩ := hlive
  obtain ⟨hblocks, hfigures⟩ := of_decide_eq_true hs
  constructor
  · have hw : WellFormed [⟨4, 1⟩, ⟨7, 3⟩] 12 := ⟨by decide, by decide, by decide⟩
    obtain ⟨used, gaps, widest, ht⟩ := htiled ⟨[⟨4, 1⟩, ⟨7, 3⟩]⟩ 12 hw (by decide)
    obtain rfl : 4 = used := Except.ok.inj ht.occupied
    obtain rfl : 4 = widest := Except.ok.inj ht.largest
    obtain rfl : [2, 2] = gaps :=
      List.map_injective_iff.2 (fun _ _ => Except.ok.inj) ht.behind
    exact ht
  · obtain ⟨figures, hstats, hoccupied, hshare⟩ := hgranted s hreached
    obtain rfl := Except.ok.inj (Except.ok.inj ((stats_some hfigures).symm.trans hstats))
    exact ⟨answers, s, supply, log, hrun, hblocks, _, hstats, hoccupied, rfl,
      hshare supply 3 (by decide) (by decide)⟩

end Pool
end FirstFit
