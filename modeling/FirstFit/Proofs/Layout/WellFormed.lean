/-
# Well-formed layouts

The blocks of a layout lie one behind another, none of them empty, all inside
the arena. Every change of a layout is read here as a change of a split
`pre ++ post` of its blocks, since positions are lengths of `pre`.

Key definitions: `Block.Apart`, `Layout.WellFormed`, `Layout.IsFree`.
Key theorems: `WellFormed.insert`, `position?_eq_some`, `gapAfter_append`.
-/
import Mathlib.Algebra.BigOperators.Group.List.Basic
import Mathlib.Algebra.Ring.Nat
import Mathlib.Tactic.ByContra
import FirstFit.Layout

namespace FirstFit

theorem Checked.ok_bind {α β : Type} (a : α) (f : α → Checked β) :
    (Except.ok a : Checked α) >>= f = f a := rfl

theorem Block.checkedStop_of_lt {b : Block} (h : b.stop < Size.bound) :
    b.checkedStop = .ok b.stop := Size.add_of_lt h

/-- No byte is in both blocks. -/
def Block.Apart (b c : Block) : Prop :=
  ∀ i, b.start ≤ i → i < b.stop → ¬ (c.start ≤ i ∧ i < c.stop)

/-- Of two blocks that are apart and not empty one lies before the other. -/
theorem Block.apart_iff {b c : Block} (hb : 0 < b.len) (hc : 0 < c.len) :
    b.Apart c ↔ b.stop ≤ c.start ∨ c.stop ≤ b.start := by
  have hbstop : b.stop = b.start + b.len := rfl
  have hcstop : c.stop = c.start + c.len := rfl
  constructor
  · intro h
    by_contra hmeet
    -- where the later one of the two starts
    exact h (max b.start c.start) (by omega) (by omega) ⟨by omega, by omega⟩
  · intro h i h1 h2 h3
    omega

namespace Layout

/-- The blocks are in address order, apart, not empty, and end inside the arena. -/
structure WellFormed (blocks : List Block) (capacity : Nat) : Prop where
  nonempty : ∀ b ∈ blocks, 0 < b.len
  inside : ∀ b ∈ blocks, b.stop ≤ capacity
  apart : blocks.Pairwise fun a b => a.stop ≤ b.start

/-- The `size` bytes from `offset` on are in the arena and in no block. -/
def IsFree (blocks : List Block) (capacity offset size : Nat) : Prop :=
  offset + size ≤ capacity ∧ ∀ b ∈ blocks, b.stop ≤ offset ∨ offset + size ≤ b.start

variable {blocks pre post : List Block} {b c : Block} {capacity : Nat}

namespace WellFormed

theorem nil (capacity : Nat) : WellFormed [] capacity :=
  ⟨fun _ h => (nomatch h), fun _ h => (nomatch h), .nil⟩

theorem sublist (h : WellFormed blocks capacity) {some : List Block} (hs : some.Sublist blocks) :
    WellFormed some capacity :=
  ⟨fun b hb => h.nonempty b (hs.subset hb), fun b hb => h.inside b (hs.subset hb),
    h.apart.sublist hs⟩

theorem tail (h : WellFormed (b :: blocks) capacity) : WellFormed blocks capacity :=
  h.sublist (List.sublist_cons_self _ _)

theorem erase (h : WellFormed (pre ++ b :: post) capacity) : WellFormed (pre ++ post) capacity :=
  h.sublist ((List.sublist_cons_self _ _).append_left _)

theorem stop_le_start (h : WellFormed (b :: blocks) capacity) (hc : c ∈ blocks) :
    b.stop ≤ c.start :=
  (List.pairwise_cons.1 h.apart).1 c hc

theorem before (h : WellFormed (pre ++ b :: post) capacity) (hc : c ∈ pre) : c.stop ≤ b.start :=
  (List.pairwise_append.1 h.apart).2.2 c hc b List.mem_cons_self

theorem behind (h : WellFormed (pre ++ b :: post) capacity) (hc : c ∈ post) : b.stop ≤ c.start :=
  (List.pairwise_cons.1 (List.pairwise_append.1 h.apart).2.1).1 c hc

theorem start_le (h : WellFormed blocks capacity) (hb : b ∈ blocks) : b.start ≤ capacity :=
  Nat.le_trans (Nat.le_add_right _ _) (h.inside b hb)

theorem mem_split (_ : WellFormed (pre ++ b :: post) capacity) : b ∈ pre ++ b :: post :=
  List.mem_append_right _ List.mem_cons_self

/-- A block fits between blocks that end before it and blocks that start behind it. -/
theorem insert (h : WellFormed (pre ++ post) capacity) (hb : 0 < b.len) (hc : b.stop ≤ capacity)
    (hpre : ∀ a ∈ pre, a.stop ≤ b.start) (hpost : ∀ a ∈ post, b.stop ≤ a.start) :
    WellFormed (pre ++ b :: post) capacity := by
  obtain ⟨h1, h2, h3⟩ := List.pairwise_append.1 h.apart
  refine ⟨?_, ?_, List.pairwise_append.2 ⟨h1, ?_, ?_⟩⟩
  · intro a ha
    rcases List.mem_append.1 ha with ha | ha
    · exact h.nonempty a (List.mem_append_left _ ha)
    · rcases List.mem_cons.1 ha with rfl | ha
      · exact hb
      · exact h.nonempty a (List.mem_append_right _ ha)
  · intro a ha
    rcases List.mem_append.1 ha with ha | ha
    · exact h.inside a (List.mem_append_left _ ha)
    · rcases List.mem_cons.1 ha with rfl | ha
      · exact hc
      · exact h.inside a (List.mem_append_right _ ha)
  · exact List.pairwise_cons.2 ⟨hpost, h2⟩
  · intro a ha x hx
    rcases List.mem_cons.1 hx with rfl | hx
    · exact hpre a ha
    · exact h3 a ha x hx

/-- Two different blocks have no byte in common. -/
theorem disjoint (h : WellFormed blocks capacity) (hb : b ∈ blocks) (hc : c ∈ blocks)
    (hne : b ≠ c) : b.stop ≤ c.start ∨ c.stop ≤ b.start := by
  obtain ⟨pre, post, rfl⟩ := List.append_of_mem hb
  rcases List.mem_append.1 hc with hc | hc
  · exact .inr (h.before hc)
  · rcases List.mem_cons.1 hc with rfl | hc
    · exact absurd rfl hne
    · exact .inl (h.behind hc)

theorem eq_of_start (h : WellFormed blocks capacity) (hb : b ∈ blocks) (hc : c ∈ blocks)
    (hs : b.start = c.start) : b = c := by
  by_contra hne
  have hb0 := h.nonempty b hb
  have hc0 := h.nonempty c hc
  rcases h.disjoint hb hc hne with h' | h' <;> simp only [Block.stop] at h' <;> omega

theorem start_lt (h : WellFormed blocks capacity) :
    blocks.Pairwise fun a b => a.start < b.start := by
  refine h.apart.imp_of_mem fun {a c} ha _ hac => ?_
  have := h.nonempty a ha
  simp only [Block.stop] at hac
  omega

/-- The other blocks start elsewhere. -/
theorem start_ne (h : WellFormed (pre ++ b :: post) capacity) (hc : c ∈ pre ++ post) :
    c.start ≠ b.start := by
  obtain ⟨-, hpost, hpre⟩ := List.pairwise_append.1 h.start_lt
  rcases List.mem_append.1 hc with hc | hc
  · exact Nat.ne_of_lt (hpre c hc b List.mem_cons_self)
  · exact Nat.ne_of_gt ((List.pairwise_cons.1 hpost).1 c hc)

theorem nodup_start (h : WellFormed blocks capacity) : (blocks.map Block.start).Nodup :=
  List.pairwise_map.2 (h.start_lt.imp fun h => Nat.ne_of_lt h)

end WellFormed

/-! ### Positions are lengths of splits -/

theorem insertIdx_length (pre post : List Block) (b : Block) :
    (pre ++ post).insertIdx pre.length b = pre ++ b :: post := by
  induction pre with
  | nil => rfl
  | cons a pre ih => rw [List.length_cons, List.cons_append, List.insertIdx_succ_cons, ih]; rfl

theorem get?_append {l : Layout} (hl : l.blocks = pre ++ b :: post) :
    l.get? pre.length = some b := by
  simp [get?, hl]

theorem removeAt_append {l : Layout} (hl : l.blocks = pre ++ b :: post) :
    l.removeAt pre.length = .ok (b, ⟨pre ++ post⟩) := by
  simp [removeAt, hl, List.eraseIdx_append_of_length_le]

/-- Taking a block out after another one was put in between `front` and `back`:
its position has moved by one if the new block came in front of it. -/
theorem removeAt_insert {front back : List Block} (hl : pre ++ b :: post = front ++ back)
    (c : Block) :
    ∃ front' back', pre ++ post = front' ++ back' ∧ front'.Sublist front ∧ back'.Sublist back ∧
      removeAt ⟨front ++ c :: back⟩ (if front.length ≤ pre.length then pre.length + 1
        else pre.length) = .ok (b, ⟨front' ++ c :: back'⟩) := by
  rcases List.append_eq_append_iff.1 hl with ⟨mid, rfl, hmid⟩ | ⟨mid, rfl, rfl⟩
  · cases mid with
    | nil =>
      obtain rfl : b :: post = back := hmid
      have hsplit : (⟨pre ++ c :: b :: post⟩ : Layout).blocks = (pre ++ [c]) ++ b :: post := by simp
      refine ⟨pre, post, rfl, List.sublist_append_left _ _, List.sublist_cons_self _ _, ?_⟩
      rw [List.append_nil, if_pos (Nat.le_refl _)]
      simpa using removeAt_append hsplit
    | cons d mid =>
      obtain ⟨rfl, rfl⟩ : b = d ∧ post = mid ++ back := List.cons.inj hmid
      have hsplit : (⟨(pre ++ b :: mid) ++ c :: back⟩ : Layout).blocks =
          pre ++ b :: (mid ++ c :: back) := by simp
      refine ⟨pre ++ mid, back, by simp, ?_, List.Sublist.refl _, ?_⟩
      · exact (List.sublist_cons_self _ _).append_left _
      · rw [if_neg (by simp)]
        simpa using removeAt_append hsplit
  · have hsplit : (⟨front ++ c :: (mid ++ b :: post)⟩ : Layout).blocks =
        (front ++ c :: mid) ++ b :: post := by simp
    refine ⟨front, mid ++ post, by simp, List.Sublist.refl _, ?_, ?_⟩
    · exact (List.sublist_cons_self _ _).append_left _
    · rw [if_pos (by simp)]
      simpa [Nat.add_assoc] using removeAt_append hsplit

/-- The position of a start is that of the block that has it. -/
theorem positionIn_append {start : Nat} : ∀ {pre : List Block},
    WellFormed (pre ++ b :: post) capacity → b.start = start →
    positionIn start (pre ++ b :: post) = some pre.length
  | [], h, hs => by
    have hb := h.nonempty b h.mem_split
    have hrest : positionIn start post = none := by
      cases post with
      | nil => rfl
      | cons c post =>
        have := h.stop_le_start (List.mem_cons_self (a := c) (l := post))
        simp only [Block.stop] at this
        unfold positionIn
        rw [if_neg (by omega)]
    simp [positionIn, hrest, hs]
  | a :: pre, h, hs => by
    have ha := h.stop_le_start (List.mem_append_right pre (List.mem_cons_self (a := b)))
    simp only [Block.stop] at ha
    have ih := positionIn_append h.tail hs
    rw [List.cons_append, positionIn, if_pos (by omega), ih]
    rfl

theorem positionIn_eq_none {start : Nat} : ∀ {blocks : List Block},
    (∀ b ∈ blocks, b.start ≠ start) → positionIn start blocks = none
  | [], _ => rfl
  | b :: rest, h => by
    have ih := positionIn_eq_none fun c hc => h c (List.mem_cons_of_mem _ hc)
    unfold positionIn
    rw [ih]
    split
    · exact if_neg (h b List.mem_cons_self)
    · rfl

/-- A position is found for the start of a block, and only for one. -/
theorem position?_eq_some {l : Layout} {start i : Nat} (h : WellFormed l.blocks capacity) :
    l.position? start = some i ↔
      ∃ pre b post, l.blocks = pre ++ b :: post ∧ b.start = start ∧ i = pre.length := by
  constructor
  · intro hi
    by_cases hex : ∃ b ∈ l.blocks, b.start = start
    · obtain ⟨b, hb, hs⟩ := hex
      obtain ⟨pre, post, hsplit⟩ := List.append_of_mem hb
      unfold position? at hi
      rw [hsplit, positionIn_append (hsplit ▸ h) hs] at hi
      exact ⟨pre, b, post, hsplit, hs, (Option.some.inj hi).symm⟩
    · unfold position? at hi
      rw [positionIn_eq_none fun b hb hs => hex ⟨b, hb, hs⟩] at hi
      exact nomatch hi
  · rintro ⟨pre, b, post, hsplit, hs, rfl⟩
    unfold position?
    rw [hsplit, positionIn_append (hsplit ▸ h) hs]

/-! ### Measuring -/

/-- Where the space behind a block ends: at the next block or with the arena. -/
def limit (post : List Block) (capacity : Nat) : Nat := (post.head?.map Block.start).getD capacity

theorem limit_le (h : WellFormed post capacity) : limit post capacity ≤ capacity := by
  cases post with
  | nil => exact Nat.le_refl _
  | cons c post =>
    have := h.inside c List.mem_cons_self
    simp only [Block.stop] at this
    simp only [limit, List.head?_cons, Option.map_some, Option.getD_some]
    omega

theorem limit_le_start (h : WellFormed post capacity) (hc : c ∈ post) :
    limit post capacity ≤ c.start := by
  cases post with
  | nil => exact nomatch hc
  | cons a post =>
    simp only [limit, List.head?_cons, Option.map_some, Option.getD_some]
    rcases List.mem_cons.1 hc with rfl | hc
    · exact Nat.le_refl _
    · have := h.stop_le_start hc
      simp only [Block.stop] at this
      omega

theorem stop_le_limit (h : WellFormed (pre ++ b :: post) capacity) :
    b.stop ≤ limit post capacity := by
  cases post with
  | nil => exact h.inside b h.mem_split
  | cons c post => exact h.behind List.mem_cons_self

/-- The blocks of a layout can be added up. -/
theorem sum_le : ∀ {blocks : List Block} (cursor : Nat),
    WellFormed blocks capacity → (∀ b ∈ blocks, cursor ≤ b.start) → cursor ≤ capacity →
    cursor + (blocks.map Block.len).sum ≤ capacity
  | [], _, _, _, hc => by simpa using hc
  | b :: rest, cursor, h, hs, _ => by
    have ih := sum_le b.stop h.tail (fun c hc => h.stop_le_start hc)
      (h.inside b List.mem_cons_self)
    have := hs b List.mem_cons_self
    simp only [Block.stop] at ih
    rw [List.map_cons, List.sum_cons]
    omega

/-- There are no more blocks than bytes. -/
theorem WellFormed.length_le (h : WellFormed blocks capacity) : blocks.length ≤ capacity := by
  have hsum := sum_le 0 h (fun _ _ => Nat.zero_le _) (Nat.zero_le _)
  have hlen := List.length_le_sum_of_one_le (blocks.map Block.len) fun n hn => by
    obtain ⟨b, hb, rfl⟩ := List.mem_map.1 hn
    exact h.nonempty b hb
  rw [List.length_map] at hlen
  omega

theorem WellFormed.position_le (h : WellFormed (pre ++ b :: post) capacity) :
    pre.length + 1 ≤ capacity := by
  have := h.length_le
  rw [List.length_append, List.length_cons] at this
  omega

/-- The gap behind a block reaches to the next block or to the end of the arena. -/
theorem gapAfter_append {l : Layout} (hl : l.blocks = pre ++ b :: post)
    (h : WellFormed (pre ++ b :: post) capacity) (hb : capacity < Size.bound) :
    l.gapAfter pre.length capacity = .ok (limit post capacity - b.stop) := by
  have hstop : b.stop < Size.bound := Nat.lt_of_le_of_lt (h.inside b h.mem_split) hb
  have hindex : Size.add pre.length 1 = .ok (pre.length + 1) :=
    Size.add_of_lt (Nat.lt_of_le_of_lt h.position_le hb)
  have hlimit := stop_le_limit h
  have hnext : (pre ++ b :: post)[pre.length + 1]? = post.head? := by
    cases post <;> simp
  simp only [gapAfter, hl, List.getElem?_append_right (Nat.le_refl _), Nat.sub_self,
    List.getElem?_cons_zero, Block.checkedStop_of_lt hstop, hindex, hnext, Checked.ok_bind]
  cases post with
  | nil => exact Size.sub_of_le hlimit
  | cons c post => exact Size.sub_of_le hlimit

theorem foldlM_add : ∀ (blocks : List Block) (sum : Nat),
    sum + (blocks.map Block.len).sum < Size.bound →
    blocks.foldlM (fun sum b => Size.add sum b.len) sum =
      .ok (sum + (blocks.map Block.len).sum)
  | [], _, _ => rfl
  | b :: rest, sum, h => by
    rw [List.map_cons, List.sum_cons] at h ⊢
    rw [List.foldlM_cons, Size.add_of_lt (by omega), Checked.ok_bind,
      foldlM_add rest _ (by omega), Nat.add_assoc]

theorem used_eq {l : Layout} (h : WellFormed l.blocks capacity) (hb : capacity < Size.bound) :
    l.used = .ok (l.blocks.map Block.len).sum := by
  have := sum_le 0 h (fun _ _ => Nat.zero_le _) (Nat.zero_le _)
  unfold used
  rw [foldlM_add _ _ (by omega), Nat.zero_add]

end Layout

end FirstFit
