/-
# First fit is the lowest free place

A search for `size` bytes answers a split of the blocks and the end of the
last block in front of it, and no lower offset has `size` free bytes; or it
answers nothing, and no offset has.

Key definitions: `Layout.IsFirstFit`, `Layout.FitsBehind`.
Key theorems: `Layout.firstFitFrom_cases`, `Layout.firstFit_cases`.
-/
import FirstFit.Proofs.Layout.WellFormed

namespace FirstFit
namespace Layout

variable {blocks pre post : List Block} {b : Block} {size capacity cursor offset : Nat}

/-- Where the free space behind `pre` begins, if that before it begins at `cursor`. -/
def frontier (cursor : Nat) : List Block → Nat
  | [] => cursor
  | b :: rest => frontier b.stop rest

/-- Where the free space behind `pre` begins is `cursor` or the end of a block. -/
theorem frontier_eq (cursor : Nat) : ∀ pre : List Block,
    frontier cursor pre = cursor ∨ ∃ b ∈ pre, frontier cursor pre = b.stop
  | [] => .inl rfl
  | b :: rest => by
    rcases frontier_eq b.stop rest with h | ⟨c, hc, h⟩
    · exact .inr ⟨b, List.mem_cons_self, h⟩
    · exact .inr ⟨c, List.mem_cons_of_mem _ hc, h⟩

theorem stop_le_frontier (cursor : Nat) : ∀ {pre : List Block}, WellFormed pre capacity →
    ∀ b ∈ pre, b.stop ≤ frontier cursor pre
  | [], _, _, hb => nomatch hb
  | a :: rest, h, b, hb => by
    rcases List.mem_cons.1 hb with rfl | hb
    · rcases frontier_eq b.stop rest with he | ⟨c, hc, he⟩
      · exact Nat.le_of_eq he.symm
      · have h1 := h.stop_le_start hc
        rw [frontier, he, Block.stop.eq_1 c]
        omega
    · exact stop_le_frontier a.stop h.tail b hb

/-- A range behind the blocks of `pre` and in front of those of `post` is free. -/
theorem isFree_append (hpre : ∀ a ∈ pre, a.stop ≤ offset)
    (hpost : ∀ c ∈ post, offset + size ≤ c.start) (hin : offset + size ≤ capacity) :
    IsFree (pre ++ post) capacity offset size := by
  refine ⟨hin, ?_⟩
  intro b hb
  rcases List.mem_append.1 hb with hb | hb
  · exact .inl (hpre b hb)
  · exact .inr (hpost b hb)

/-- `offset` is the lowest place for `size` bytes, and the blocks of `pre` lie
in front of it and those of `post` behind it. -/
structure IsFirstFit (pre post : List Block) (size capacity offset : Nat) : Prop where
  offset_eq : offset = frontier 0 pre
  before : ∀ a ∈ pre, a.stop ≤ offset
  behind : ∀ c ∈ post, offset + size ≤ c.start
  inside : offset + size ≤ capacity
  lowest : ∀ o, IsFree (pre ++ post) capacity o size → offset ≤ o

namespace IsFirstFit

/-- The place that is found is free. -/
theorem isFree (h : IsFirstFit pre post size capacity offset) :
    IsFree (pre ++ post) capacity offset size :=
  isFree_append h.before h.behind h.inside

/-- A block put at the place that is found keeps the layout well-formed. -/
theorem wellFormed (h : IsFirstFit pre post size capacity offset)
    (hw : WellFormed (pre ++ post) capacity) (hs : 0 < size) :
    WellFormed (pre ++ ⟨offset, size⟩ :: post) capacity :=
  hw.insert hs h.inside h.before h.behind

end IsFirstFit

theorem isFree_cons {o : Nat} : IsFree (b :: blocks) capacity o size ↔
    (b.stop ≤ o ∨ o + size ≤ b.start) ∧ IsFree blocks capacity o size := by
  simp only [IsFree, List.forall_mem_cons]
  exact ⟨fun ⟨h1, h2, h3⟩ => ⟨h2, h1, h3⟩, fun ⟨h2, h1, h3⟩ => ⟨h1, h2, h3⟩⟩

/-- Where the gap in front of a block is too short, a free place lies behind it. -/
theorem isFree_behind {o : Nat} (hshort : b.start < cursor + size) (ho : cursor ≤ o)
    (hfree : IsFree (b :: blocks) capacity o size) :
    b.stop ≤ o ∧ IsFree blocks capacity o size := by
  obtain ⟨h1 | h1, h2⟩ := isFree_cons.1 hfree
  · exact ⟨h1, h2⟩
  · omega

/-- The free space behind `pre` is the lowest from `cursor` on that has room for
`size` bytes. -/
structure FitsBehind (cursor : Nat) (pre post : List Block) (size capacity : Nat) : Prop where
  behind : ∀ c ∈ post, frontier cursor pre + size ≤ c.start
  inside : frontier cursor pre + size ≤ capacity
  lowest : ∀ o, cursor ≤ o → IsFree (pre ++ post) capacity o size → frontier cursor pre ≤ o

namespace FitsBehind

/-- The gap in front of all blocks has room. -/
theorem nil (hbehind : ∀ c ∈ blocks, cursor + size ≤ c.start)
    (hin : cursor + size ≤ capacity) : FitsBehind cursor [] blocks size capacity :=
  ⟨hbehind, hin, fun _ ho _ => ho⟩

/-- The gap in front of a block has no room. -/
theorem cons (h : FitsBehind b.stop pre post size capacity)
    (hshort : b.start < cursor + size) : FitsBehind cursor (b :: pre) post size capacity := by
  refine ⟨h.behind, h.inside, ?_⟩
  intro o ho hfree
  obtain ⟨h1, h2⟩ := isFree_behind hshort ho hfree
  exact h.lowest o h1 h2

end FitsBehind

/-- A search from `cursor` on: the induction is on the blocks still ahead, all
of which start at `cursor` or later. -/
theorem firstFitFrom_cases (hs : 0 < size) (hb : capacity < Size.bound) :
    ∀ {blocks : List Block} (cursor index : Nat),
    WellFormed blocks capacity → (∀ b ∈ blocks, cursor ≤ b.start) → cursor ≤ capacity →
    (∃ pre post, blocks = pre ++ post ∧
      firstFitFrom size capacity blocks index cursor =
        .ok (some ⟨index + pre.length, frontier cursor pre⟩) ∧
      FitsBehind cursor pre post size capacity) ∨
    (firstFitFrom size capacity blocks index cursor = .ok none ∧
      ∀ o, cursor ≤ o → ¬ IsFree blocks capacity o size)
  | [], cursor, index, _, _, hc => by
    unfold firstFitFrom
    rw [Size.sub_of_le hc, Checked.ok_bind]
    by_cases hfit : size ≤ capacity - cursor
    · have hfits : FitsBehind cursor [] [] size capacity :=
        .nil (fun _ h => nomatch h) (by omega)
      rw [if_pos hfit]
      exact .inl ⟨[], [], rfl, rfl, hfits⟩
    · rw [if_neg hfit]
      refine .inr ⟨rfl, fun o ho h => hfit ?_⟩
      have := h.1
      omega
  | b :: rest, cursor, index, h, hc, _ => by
    have hstart := hc b List.mem_cons_self
    have hstop := h.inside b List.mem_cons_self
    unfold firstFitFrom
    rw [Size.sub_of_le hstart, Checked.ok_bind]
    by_cases hfit : size ≤ b.start - cursor
    · have hbehind : ∀ c ∈ b :: rest, cursor + size ≤ c.start := by
        intro c hm
        have hle : b.start ≤ c.start := by
          rcases List.mem_cons.1 hm with rfl | hm
          · exact Nat.le_refl _
          · exact Nat.le_trans (Nat.le_add_right _ _) (h.stop_le_start hm)
        omega
      have hfits : FitsBehind cursor [] (b :: rest) size capacity :=
        .nil hbehind (by simp only [Block.stop] at hstop; omega)
      rw [if_pos hfit]
      exact .inl ⟨[], b :: rest, rfl, rfl, hfits⟩
    · have hshort : b.start < cursor + size := by omega
      rw [if_neg hfit, Block.checkedStop_of_lt (Nat.lt_of_le_of_lt hstop hb), Checked.ok_bind]
      rcases firstFitFrom_cases hs hb b.stop (index + 1) h.tail
          (fun c hm => h.stop_le_start hm) hstop with
        ⟨pre, post, rfl, heq, hfits⟩ | ⟨heq, hnone⟩
      · refine .inl ⟨b :: pre, post, rfl, ?_, hfits.cons hshort⟩
        rw [heq, List.length_cons, frontier, Nat.add_assoc, Nat.add_comm 1]
      · refine .inr ⟨heq, ?_⟩
        intro o ho hfree
        obtain ⟨h1, h2⟩ := isFree_behind hshort ho hfree
        exact hnone o h1 h2

/-- A search answers the lowest free place, or there is no free place. -/
theorem firstFit_cases {l : Layout} (h : WellFormed l.blocks capacity)
    (hb : capacity < Size.bound) (hs : 0 < size) :
    (∃ pre post offset, l.blocks = pre ++ post ∧
      l.firstFit size capacity = .ok (some ⟨pre.length, offset⟩) ∧
      IsFirstFit pre post size capacity offset) ∨
    (l.firstFit size capacity = .ok none ∧ ∀ o, ¬ IsFree l.blocks capacity o size) := by
  by_cases hc : capacity < size
  · refine .inr ⟨by rw [firstFit, if_pos (.inr hc)]; rfl, ?_⟩
    intro o hfree
    have := hfree.1
    omega
  · unfold firstFit
    rw [if_neg (by omega)]
    rcases firstFitFrom_cases hs hb 0 0 h (fun _ _ => Nat.zero_le _) (Nat.zero_le _) with
      ⟨pre, post, hsplit, heq, hfits⟩ | ⟨heq, hnone⟩
    · have hpre : WellFormed pre capacity :=
        (hsplit ▸ h).sublist (List.sublist_append_left _ _)
      refine .inl ⟨pre, post, _, hsplit, by rw [heq, Nat.zero_add], rfl,
        stop_le_frontier 0 hpre, hfits.behind, hfits.inside, ?_⟩
      intro o hfree
      exact hfits.lowest o (Nat.zero_le _) (hsplit ▸ hfree)
    · exact .inr ⟨heq, fun o => hnone o (Nat.zero_le _)⟩

end Layout
end FirstFit
