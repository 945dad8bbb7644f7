/-
# The assertions of a change hold

A block is put in only after a look at its neighbours, and a length is given
only after a look at the next block. On a well-formed layout these assertions
let in exactly what leaves the layout well-formed. The changes that a space
makes are of four kinds, and each of them passes: a block at the lowest place
that has room, a block that goes back to the position it was taken from, one
that gets shorter, and one that grows into the gap behind it.

Key theorems: `WellFormed.insertAt_eq_ok`, `IsFirstFit.insertAt_eq`,
`WellFormed.insertAt_erased`, `WellFormed.setLen_shrunk`,
`WellFormed.setLen_grown`.
-/
import FirstFit.Proofs.Layout.Search

namespace FirstFit

theorem Block.stop_of_checkedStop {b : Block} {stop : Nat} (h : b.checkedStop = .ok stop) :
    stop = b.stop := by
  unfold Block.checkedStop Size.add at h
  split at h
  · exact (Except.ok.inj h).symm
  · cases h

namespace Layout

variable {l l' : Layout} {pre post : List Block} {b : Block} {capacity size len offset i : Nat}

/-! ### What the assertions say -/

/-- Nothing is asserted at position zero, and elsewhere only of the last block of `pre`. -/
theorem assertFront_append {start : Nat} (hl : l.blocks = pre ++ post)
    (hpre : ∀ a ∈ pre, a.stop ≤ start) (hstart : start < Size.bound) :
    l.assertFront pre.length start = .ok () := by
  rcases List.eq_nil_or_concat' pre with rfl | ⟨front, a, rfl⟩
  · rfl
  · have hstop := hpre a (by simp)
    have hindex : (front ++ [a]).length = front.length + 1 := by simp
    have hlast : l.blocks[front.length]? = some a := by simp [hl]
    rw [hindex, assertFront, if_neg (Nat.succ_ne_zero _), Size.sub_of_le (Nat.le_add_left _ _)]
    simp only [Checked.ok_bind, Nat.add_sub_cancel, hlast,
      Block.checkedStop_of_lt (Nat.lt_of_le_of_lt hstop hstart), if_pos hstop]
    rfl

/-- Nothing is asserted behind the last block, and elsewhere only of the first block of `post`. -/
theorem assertBack_append (hl : l.blocks = pre ++ post)
    (hpost : ∀ c ∈ post, b.stop ≤ c.start) (hbound : ∀ c ∈ post, c.start < Size.bound) :
    l.assertBack pre.length b = .ok () := by
  cases post with
  | nil => exact if_pos (by simp [Layout.size, hl])
  | cons c post =>
    have hstop := hpost c List.mem_cons_self
    have hnext : l.blocks[pre.length]? = some c := by simp [hl]
    have hsize : pre.length ≠ l.size := by simp [Layout.size, hl]
    rw [assertBack, if_neg hsize, Block.checkedStop_of_lt
      (Nat.lt_of_le_of_lt hstop (hbound c List.mem_cons_self))]
    simp only [Checked.ok_bind, hnext, if_pos hstop]
    rfl

/-- As the blocks are in order, what is asserted of the last block of `pre` is
true of all of them. -/
theorem WellFormed.front_of_assert {start : Nat} {u : Unit}
    (h : WellFormed (pre ++ post) capacity) (hl : l.blocks = pre ++ post)
    (hassert : l.assertFront pre.length start = .ok u) : ∀ a ∈ pre, a.stop ≤ start := by
  rcases List.eq_nil_or_concat' pre with rfl | ⟨front, a, rfl⟩
  · exact List.forall_mem_nil _
  · have hindex : (front ++ [a]).length = front.length + 1 := by simp
    have hlast : l.blocks[front.length]? = some a := by simp [hl]
    rw [hindex, assertFront, if_neg (Nat.succ_ne_zero _), Size.sub_of_le (Nat.le_add_left _ _),
      Checked.ok_bind, Nat.add_sub_cancel, hlast] at hassert
    obtain ⟨stop, hstop, hle⟩ := Checked.bind_eq_ok.1 hassert
    obtain rfl := Block.stop_of_checkedStop hstop
    have ha : a.stop ≤ start := by
      by_contra hgt
      rw [if_neg hgt] at hle
      cases hle
    have hw : WellFormed (front ++ a :: post) capacity := by simpa using h
    intro c hc
    rcases List.mem_append.1 hc with hc | hc
    · have := hw.before hc
      simp only [Block.stop] at this ha ⊢
      omega
    · rwa [List.mem_singleton.1 hc]

theorem WellFormed.back_of_assert {u : Unit} (h : WellFormed (pre ++ post) capacity)
    (hl : l.blocks = pre ++ post) (hassert : l.assertBack pre.length b = .ok u) :
    ∀ c ∈ post, b.stop ≤ c.start := by
  cases post with
  | nil => exact List.forall_mem_nil _
  | cons c post =>
    have hnext : l.blocks[pre.length]? = some c := by simp [hl]
    have hsize : pre.length ≠ l.size := by simp [Layout.size, hl]
    rw [assertBack, if_neg hsize] at hassert
    obtain ⟨stop, hstop, hle⟩ := Checked.bind_eq_ok.1 hassert
    obtain rfl := Block.stop_of_checkedStop hstop
    have hc : b.stop ≤ c.start := by
      by_contra hgt
      rw [hnext] at hle
      dsimp only at hle
      rw [if_neg hgt] at hle
      cases hle
    refine List.forall_mem_cons.2 ⟨hc, fun d hd => ?_⟩
    have := h.behind hd
    simp only [Block.stop] at this hc ⊢
    omega

/-! ### Putting a block in -/

/-- A block goes between blocks that end before it and blocks that start behind it. -/
theorem insertAt_append (hl : l.blocks = pre ++ post)
    (hpre : ∀ a ∈ pre, a.stop ≤ b.start) (hpost : ∀ c ∈ post, b.stop ≤ c.start)
    (hb : b.start < Size.bound) (hbound : ∀ c ∈ post, c.start < Size.bound) :
    l.insertAt pre.length b = .ok ⟨pre ++ b :: post⟩ := by
  have hsize : pre.length ≤ l.size := by simp [Layout.size, hl]
  rw [insertAt, assertFront_append hl hpre hb, Checked.ok_bind,
    assertBack_append hl hpost hbound, Checked.ok_bind, if_pos hsize, hl, insertIdx_length]
  rfl

theorem WellFormed.insertAt_eq (h : WellFormed (pre ++ b :: post) capacity)
    (hbound : capacity < Size.bound) (hl : l.blocks = pre ++ post) :
    l.insertAt pre.length b = .ok ⟨pre ++ b :: post⟩ :=
  insertAt_append hl (fun _ => h.before) (fun _ => h.behind)
    (Nat.lt_of_le_of_lt (h.start_le h.mem_split) hbound)
    fun _ hc => Nat.lt_of_le_of_lt
      (h.start_le (List.mem_append_right _ (List.mem_cons_of_mem _ hc))) hbound

/-- The assertions let a block of the arena in exactly where the layout stays well-formed. -/
theorem WellFormed.insertAt_eq_ok (h : WellFormed l.blocks capacity)
    (hbound : capacity < Size.bound) (hlen : 0 < b.len) (hstop : b.stop ≤ capacity) :
    l.insertAt i b = .ok l' ↔ ∃ pre post, l.blocks = pre ++ post ∧ i = pre.length ∧
      l' = ⟨pre ++ b :: post⟩ ∧ WellFormed (pre ++ b :: post) capacity := by
  constructor
  · intro hinsert
    obtain ⟨_, hfront, hinsert⟩ := Checked.bind_eq_ok.1 hinsert
    obtain ⟨_, hback, hinsert⟩ := Checked.bind_eq_ok.1 hinsert
    by_cases hi : i ≤ l.size
    · rw [if_pos hi] at hinsert
      obtain ⟨pre, post, hl, rfl⟩ : ∃ pre post, l.blocks = pre ++ post ∧ i = pre.length :=
        ⟨_, _, (List.take_append_drop i _).symm, (List.length_take_of_le hi).symm⟩
      rw [hl, insertIdx_length] at hinsert
      exact ⟨pre, post, hl, rfl, (Except.ok.inj hinsert).symm, (hl ▸ h).insert hlen hstop
        ((hl ▸ h).front_of_assert hl hfront) ((hl ▸ h).back_of_assert hl hback)⟩
    · rw [if_neg hi] at hinsert
      cases hinsert
  · rintro ⟨pre, post, hl, rfl, rfl, hw⟩
    exact hw.insertAt_eq hbound hl

example : insertAt ⟨[⟨0, 4⟩]⟩ 0 ⟨2, 6⟩ = .error .order := by decide

/-- The lowest place that has room passes the assertions. -/
theorem IsFirstFit.insertAt_eq (hfit : IsFirstFit pre post size capacity offset)
    (h : WellFormed l.blocks capacity) (hbound : capacity < Size.bound) (hsize : 0 < size)
    (hl : l.blocks = pre ++ post) :
    l.insertAt pre.length ⟨offset, size⟩ = .ok ⟨pre ++ ⟨offset, size⟩ :: post⟩ :=
  (hfit.wellFormed (hl ▸ h) hsize).insertAt_eq hbound hl

/-- A block that was taken out goes back to its position. -/
theorem WellFormed.insertAt_erased (h : WellFormed (pre ++ b :: post) capacity)
    (hbound : capacity < Size.bound) :
    insertAt ⟨pre ++ post⟩ pre.length b = .ok ⟨pre ++ b :: post⟩ :=
  h.insertAt_eq hbound rfl

/-! ### Giving a block another length -/

theorem setLen_append (hl : l.blocks = pre ++ b :: post) (hindex : pre.length + 1 < Size.bound)
    (hpost : ∀ c ∈ post, b.start + len ≤ c.start) (hbound : ∀ c ∈ post, c.start < Size.bound) :
    l.setLen pre.length len = .ok ⟨pre ++ ⟨b.start, len⟩ :: post⟩ := by
  have hat : l.blocks[pre.length]? = some b := get?_append hl
  have hback : l.assertBack (pre.length + 1) ⟨b.start, len⟩ = .ok () := by
    have hsplit : l.blocks = (pre ++ [b]) ++ post := by simp [hl]
    have hlength : pre.length + 1 = (pre ++ [b]).length := by simp
    rw [hlength]
    exact assertBack_append hsplit hpost hbound
  unfold setLen
  rw [hat]
  dsimp only
  rw [Size.add_of_lt hindex, Checked.ok_bind, hback, Checked.ok_bind, hl,
    List.set_append_right _ _ (Nat.le_refl _), Nat.sub_self, List.set_cons_zero]
  rfl

/-- A block that grows no further than to the end of the gap behind it does not
reach the next block. -/
theorem WellFormed.setLen_grown (h : WellFormed (pre ++ b :: post) capacity)
    (hbound : capacity < Size.bound) (hl : l.blocks = pre ++ b :: post)
    (hroom : b.start + len ≤ limit post capacity) :
    l.setLen pre.length len = .ok ⟨pre ++ ⟨b.start, len⟩ :: post⟩ := by
  have hpost := h.sublist ((List.sublist_cons_self _ _).trans (List.sublist_append_right _ _))
  refine setLen_append hl (Nat.lt_of_le_of_lt h.position_le hbound) ?_ ?_
  · intro c hc
    exact Nat.le_trans hroom (limit_le_start hpost hc)
  · intro c hc
    exact Nat.lt_of_le_of_lt (hpost.start_le hc) hbound

/-- A block that gets shorter ends before the gap behind it. -/
theorem WellFormed.setLen_shrunk (h : WellFormed (pre ++ b :: post) capacity)
    (hbound : capacity < Size.bound) (hl : l.blocks = pre ++ b :: post) (hlen : len ≤ b.len) :
    l.setLen pre.length len = .ok ⟨pre ++ ⟨b.start, len⟩ :: post⟩ := by
  have hstop := stop_le_limit h
  simp only [Block.stop] at hstop
  exact h.setLen_grown hbound hl (by omega)

example : setLen ⟨[⟨0, 4⟩, ⟨4, 4⟩]⟩ 0 5 = .error .order := by decide

end Layout
end FirstFit
