/-
# The widest gap

The figure that a layout gives for its widest gap is the maximum of the gaps in
front of all blocks and behind each of them. It is the length of a range that
is free, and no free range is longer.

Key definitions: `Layout.IsWidest`, `Layout.gapsBehind`.
Key theorems: `largestGapFrom_eq`, `largestGap_cases`, `IsWidest.unique`.
-/
import FirstFit.Proofs.Layout.Search

namespace FirstFit
namespace Layout

variable {blocks : List Block} {b : Block} {capacity cursor widest gap gap' : Nat}

/-- Some free range has `gap` bytes, and none has more. -/
structure IsWidest (blocks : List Block) (capacity gap : Nat) : Prop where
  free : ∃ o, IsFree blocks capacity o gap
  widest : ∀ o len, IsFree blocks capacity o len → len ≤ gap

theorem IsWidest.unique (h : IsWidest blocks capacity gap) (h' : IsWidest blocks capacity gap') :
    gap = gap' := by
  obtain ⟨o, ho⟩ := h.free
  obtain ⟨o', ho'⟩ := h'.free
  exact Nat.le_antisymm (h'.widest o gap ho) (h.widest o' gap' ho')

/-- `gap` is the larger of `widest` and the length of the widest free range from
`cursor` on. -/
structure WidestBehind (cursor : Nat) (blocks : List Block) (capacity widest gap : Nat) :
    Prop where
  base : widest ≤ gap
  bound : ∀ o len, cursor ≤ o → IsFree blocks capacity o len → len ≤ gap
  attained : gap = widest ∨ ∃ o, cursor ≤ o ∧ IsFree blocks capacity o gap

namespace WidestBehind

theorem nil (hc : cursor ≤ capacity) (widest : Nat) :
    WidestBehind cursor [] capacity widest (max widest (capacity - cursor)) := by
  refine ⟨Nat.le_max_left _ _, ?_, ?_⟩
  · intro o len ho hfree
    have := hfree.1
    omega
  · rcases Nat.le_total (capacity - cursor) widest with hle | hle
    · exact .inl (Nat.max_eq_left hle)
    · rw [Nat.max_eq_right hle]
      exact .inr ⟨cursor, Nat.le_refl _, by omega, fun _ hb => nomatch hb⟩

/-- The range in front of a block is free, and any other one lies behind the block. -/
theorem cons (hw : WellFormed (b :: blocks) capacity) (hb : cursor ≤ b.start)
    (h : WidestBehind b.stop blocks capacity (max widest (b.start - cursor)) gap) :
    WidestBehind cursor (b :: blocks) capacity widest gap := by
  have hstop := hw.inside b List.mem_cons_self
  have hin : b.start ≤ b.stop := Nat.le_add_right _ _
  have hbase := h.base
  refine ⟨by omega, ?_, ?_⟩
  · intro o len ho hfree
    obtain ⟨hbehind | hfront, hrest⟩ := isFree_cons.1 hfree
    · exact h.bound o len hbehind hrest
    · omega
  · rcases h.attained with hgap | ⟨o, ho, hfree⟩
    · rcases Nat.le_total (b.start - cursor) widest with hle | hle
      · exact .inl (hgap.trans (Nat.max_eq_left hle))
      · rw [Nat.max_eq_right hle] at hgap
        refine .inr ⟨cursor, Nat.le_refl _, isFree_cons.2 ⟨.inr (by omega), by omega, ?_⟩⟩
        intro c hc
        have := hw.stop_le_start hc
        exact .inr (by omega)
    · exact .inr ⟨o, by omega, isFree_cons.2 ⟨.inl ho, hfree⟩⟩

end WidestBehind

/-- The gaps behind each of the blocks, in address order. -/
def gapsBehind (capacity : Nat) : List Block → List Nat
  | [] => []
  | b :: rest => (limit rest capacity - b.stop) :: gapsBehind capacity rest

/-- The measurement takes the maximum of `widest`, the gap in front of all
blocks, and the gaps behind each of them. -/
theorem largestGapFrom_eq (hb : capacity < Size.bound) :
    ∀ {blocks : List Block} {cursor : Nat} (widest : Nat),
    WellFormed blocks capacity → (∀ b ∈ blocks, cursor ≤ b.start) → cursor ≤ capacity →
    largestGapFrom capacity blocks cursor widest =
      .ok ((gapsBehind capacity blocks).foldl max (max widest (limit blocks capacity - cursor)))
  | [], _, _, _, _, hc => by
    rw [largestGapFrom, Size.sub_of_le hc]
    rfl
  | b :: rest, _, widest, h, hs, _ => by
    have hstop := h.inside b List.mem_cons_self
    unfold largestGapFrom
    rw [Size.sub_of_le (hs b List.mem_cons_self), Checked.ok_bind,
      Block.checkedStop_of_lt (Nat.lt_of_le_of_lt hstop hb), Checked.ok_bind]
    exact largestGapFrom_eq hb _ h.tail (fun c hc => h.stop_le_start hc) hstop

theorem widestBehind_gaps :
    ∀ {blocks : List Block} {cursor : Nat} (widest : Nat),
    WellFormed blocks capacity → (∀ b ∈ blocks, cursor ≤ b.start) → cursor ≤ capacity →
    WidestBehind cursor blocks capacity widest
      ((gapsBehind capacity blocks).foldl max (max widest (limit blocks capacity - cursor)))
  | [], _, widest, _, _, hc => .nil hc widest
  | b :: _, cursor, widest, h, hs, _ =>
    .cons h (hs b List.mem_cons_self)
      (widestBehind_gaps (max widest (b.start - cursor)) h.tail (fun _ hc => h.stop_le_start hc)
        (h.inside b List.mem_cons_self))

/-- Without blocks the arena is one gap. -/
theorem largestGap_nil (capacity : Nat) : largestGap ⟨[]⟩ capacity = .ok capacity := by
  rw [largestGap, largestGapFrom, Size.sub_of_le (Nat.zero_le _), Checked.ok_bind, Nat.sub_zero,
    Nat.zero_max]
  rfl

theorem largestGap_cases {l : Layout} (h : WellFormed l.blocks capacity)
    (hb : capacity < Size.bound) :
    ∃ gap, l.largestGap capacity = .ok gap ∧ IsWidest l.blocks capacity gap := by
  have hstart : ∀ b ∈ l.blocks, 0 ≤ b.start := fun _ _ => Nat.zero_le _
  have hbehind := widestBehind_gaps 0 h hstart (Nat.zero_le capacity)
  refine ⟨_, largestGapFrom_eq hb 0 h hstart (Nat.zero_le _), ?_,
    fun o len hfree => hbehind.bound o len (Nat.zero_le _) hfree⟩
  rcases hbehind.attained with hzero | ⟨o, -, hfree⟩
  · rw [hzero]
    exact ⟨0, Nat.zero_le _, fun b _ => .inr (Nat.zero_le _)⟩
  · exact ⟨o, hfree⟩

theorem largestGap_ok {l : Layout} (h : WellFormed l.blocks capacity)
    (hb : capacity < Size.bound) : ∃ gap, l.largestGap capacity = .ok gap := by
  obtain ⟨gap, hgap, -⟩ := largestGap_cases h hb
  exact ⟨gap, hgap⟩

end Layout
end FirstFit
