/-
# Inserting blocks in any order

Address order puts a new block behind those that start before it. Blocks that
are apart come to lie one behind another that way, in whatever order they are
inserted: none of them meets a neighbour, and the search in their starts finds
each of them at the position that its insertion answered.

Key definitions: `Layout.Indexed`, `Layout.Separate`, `Layout.Inserts`.
Key theorems: `insert_cases`, `WellFormed.indexed`, `ofBlocks_wellFormed`,
`ordered_of_inserts`.
-/
import Mathlib.Data.Finset.Dedup
import Mathlib.Data.Finset.Lattice.Fold
import Mathlib.Data.List.Nodup
import FirstFit.Proofs.Layout.Assertions

namespace FirstFit
namespace Layout

variable {l l' l'' : Layout} {pre post order : List Block} {b : Block} {capacity start i : Nat}

/-! ### One block -/

theorem rank_append (hl : l.blocks = pre ++ post) (hpre : ∀ a ∈ pre, a.start < start)
    (hpost : ∀ c ∈ post, start ≤ c.start) : l.rank start = pre.length := by
  have hbehind : post.takeWhile (fun c => c.start < start) = [] := by
    cases post with
    | nil => rfl
    | cons c post => exact List.takeWhile_cons_of_neg (by simpa using hpost c List.mem_cons_self)
  rw [rank, hl, List.takeWhile_append_of_pos fun a ha => decide_eq_true (hpre a ha), hbehind,
    List.append_nil]

/-- Blocks in the order of their starts are split by every offset. -/
theorem exists_split (start : Nat) : ∀ {blocks : List Block},
    blocks.Pairwise (fun a b => a.start < b.start) →
    ∃ pre post, blocks = pre ++ post ∧ (∀ a ∈ pre, a.start < start) ∧
      ∀ c ∈ post, start ≤ c.start
  | [], _ => ⟨[], [], rfl, nofun, nofun⟩
  | b :: rest, h => by
    obtain ⟨hb, hrest⟩ := List.pairwise_cons.1 h
    by_cases hlt : b.start < start
    · obtain ⟨pre, post, rfl, hpre, hpost⟩ := exists_split start hrest
      exact ⟨b :: pre, post, rfl, List.forall_mem_cons.2 ⟨hlt, hpre⟩, hpost⟩
    · refine ⟨[], b :: rest, rfl, nofun, List.forall_mem_cons.2 ⟨by omega, fun c hc => ?_⟩⟩
      have := hb c hc
      omega

/-- An insertion is one at the rank, between blocks that start before the new
one and blocks that do not. -/
theorem WellFormed.insert_eq (h : WellFormed (pre ++ b :: post) capacity)
    (hstart : ∀ c ∈ pre ++ b :: post, c.start < Size.bound) (hl : l.blocks = pre ++ post) :
    l.insert b = .ok (pre.length, ⟨pre ++ b :: post⟩) := by
  obtain ⟨-, hpost, hpre⟩ := List.pairwise_append.1 h.start_lt
  have hrank : l.rank b.start = pre.length :=
    rank_append hl (fun a ha => hpre a ha b List.mem_cons_self)
      fun c hc => Nat.le_of_lt ((List.pairwise_cons.1 hpost).1 c hc)
  have hinsert : l.insertAt pre.length b = .ok ⟨pre ++ b :: post⟩ :=
    insertAt_append hl (fun _ => h.before) (fun _ => h.behind) (hstart b h.mem_split)
      fun c hc => hstart c (List.mem_append_right _ (List.mem_cons_of_mem _ hc))
  rw [Layout.insert, hrank, hinsert]
  rfl

/-- A block that is apart from all others is put between those that end before
it and those that start behind it. -/
theorem insert_cases (h : WellFormed l.blocks capacity) (hlen : 0 < b.len)
    (hstop : b.stop ≤ capacity) (hstart : ∀ c ∈ b :: l.blocks, c.start < Size.bound)
    (hapart : ∀ c ∈ l.blocks, b.Apart c) :
    ∃ pre post, l.blocks = pre ++ post ∧ l.insert b = .ok (pre.length, ⟨pre ++ b :: post⟩) ∧
      WellFormed (pre ++ b :: post) capacity := by
  obtain ⟨pre, post, hsplit, hpre, hpost⟩ := exists_split b.start h.start_lt
  have hsides : ∀ c ∈ l.blocks, b.stop ≤ c.start ∨ c.stop ≤ b.start := fun c hc =>
    (Block.apart_iff hlen (h.nonempty c hc)).1 (hapart c hc)
  have hafter : WellFormed (pre ++ b :: post) capacity := by
    refine (hsplit ▸ h).insert hlen hstop ?_ ?_
    · intro a ha
      have hfront : a.start < b.start := hpre a ha
      have hside := hsides a (hsplit ▸ List.mem_append_left _ ha)
      simp only [Block.stop] at hside ⊢
      omega
    · intro c hc
      have hbehind : b.start ≤ c.start := hpost c hc
      have hmem : c ∈ l.blocks := hsplit ▸ List.mem_append_right _ hc
      have hside := hsides c hmem
      have hc0 := h.nonempty c hmem
      simp only [Block.stop] at hside ⊢
      omega
  refine ⟨pre, post, hsplit, hafter.insert_eq (fun c hc => hstart c ?_) hsplit, hafter⟩
  rw [hsplit]
  exact List.perm_middle.mem_iff.1 hc

/-! ### Positions -/

theorem get?_eq_some : l.get? i = some b ↔
    ∃ pre post, l.blocks = pre ++ b :: post ∧ i = pre.length := by
  constructor
  · intro h
    obtain ⟨hi, rfl⟩ := List.getElem?_eq_some_iff.1 h
    refine ⟨l.blocks.take i, l.blocks.drop (i + 1), ?_, ?_⟩
    · rw [← List.drop_eq_getElem_cons, List.take_append_drop]
    · rw [List.length_take, Nat.min_eq_left (Nat.le_of_lt hi)]
  · rintro ⟨pre, post, hsplit, rfl⟩
    exact get?_append hsplit

/-- Positions, the search in the starts and insertion agree. -/
structure Indexed (l : Layout) : Prop where
  /-- A block is found at its position by where it starts. -/
  found : ∀ i b, l.get? i = some b → l.position? b.start = some i
  /-- Nothing is found where no block starts. -/
  missed : ∀ start, (∀ b ∈ l.blocks, b.start ≠ start) → l.position? start = none
  /-- A block that is taken out goes back to its position. -/
  restored : ∀ i b, l.get? i = some b → ∃ l', l.removeAt i = .ok (b, l') ∧
    l'.insert b = .ok (i, l)

theorem WellFormed.indexed (h : WellFormed l.blocks capacity)
    (hstart : ∀ b ∈ l.blocks, b.start < Size.bound) : l.Indexed where
  found i b hi := by
    obtain ⟨pre, post, hsplit, rfl⟩ := get?_eq_some.1 hi
    exact (position?_eq_some h).2 ⟨pre, b, post, hsplit, rfl, rfl⟩
  missed _ hother := positionIn_eq_none hother
  restored i b hi := by
    obtain ⟨pre, post, hsplit, rfl⟩ := get?_eq_some.1 hi
    refine ⟨_, removeAt_append hsplit, ?_⟩
    rw [WellFormed.insert_eq (hsplit ▸ h) (hsplit ▸ hstart) rfl, ← hsplit]

/-! ### Many blocks -/

/-- Blocks that are apart, not empty, and end inside the arena, in any order.
Their starts are sizes. -/
structure Separate (order : List Block) (capacity : Nat) : Prop where
  nonempty : ∀ b ∈ order, 0 < b.len
  inside : ∀ b ∈ order, b.stop ≤ capacity
  start_lt : ∀ b ∈ order, b.start < Size.bound
  apart : order.Pairwise Block.Apart

theorem Separate.sublist (h : Separate order capacity) {some : List Block}
    (hs : some.Sublist order) : Separate some capacity :=
  ⟨fun b hb => h.nonempty b (hs.subset hb), fun b hb => h.inside b (hs.subset hb),
    fun b hb => h.start_lt b (hs.subset hb), h.apart.sublist hs⟩

theorem insertAll_concat : ∀ (order : List Block) (l : Layout),
    l.insertAll order = .ok l' → l'.insert b = .ok (i, l'') →
    l.insertAll (order ++ [b]) = .ok l''
  | [], l, h, hinsert => by
    obtain rfl : l = l' := Except.ok.inj h
    rw [List.nil_append, insertAll, hinsert]
    rfl
  | c :: order, l, h, hinsert => by
    obtain ⟨⟨j, m⟩, hc, h⟩ := Checked.bind_eq_ok.1 h
    rw [List.cons_append, insertAll, hc]
    exact insertAll_concat order m h hinsert

/-- The last block is apart from those before it, which are there already. -/
theorem Separate.concat_cases (h : Separate (order ++ [b]) capacity)
    (hl : ofBlocks order = .ok l) (hw : WellFormed l.blocks capacity)
    (hperm : l.blocks.Perm order) :
    ∃ pre post, l.blocks = pre ++ post ∧ l.insert b = .ok (pre.length, ⟨pre ++ b :: post⟩) ∧
      ofBlocks (order ++ [b]) = .ok ⟨pre ++ b :: post⟩ ∧
      WellFormed (pre ++ b :: post) capacity := by
  have hb : b ∈ order ++ [b] := List.mem_append_right _ List.mem_cons_self
  have hstart : ∀ c ∈ b :: l.blocks, c.start < Size.bound := fun c hc =>
    h.start_lt c (((hperm.cons b).trans (List.perm_append_singleton b order).symm).mem_iff.1 hc)
  have hapart : ∀ c ∈ l.blocks, b.Apart c := by
    intro c hc i h1 h2 h3
    have hcb : c.Apart b := (List.pairwise_append.1 h.apart).2.2 c (hperm.mem_iff.1 hc) b
      List.mem_cons_self
    exact hcb i h3.1 h3.2 ⟨h1, h2⟩
  obtain ⟨pre, post, hsplit, hinsert, hafter⟩ :=
    insert_cases hw (h.nonempty b hb) (h.inside b hb) hstart hapart
  exact ⟨pre, post, hsplit, hinsert, insertAll_concat order {} hl hinsert, hafter⟩

/-- The induction is on the insertions, the last one last. -/
theorem ofBlocks_wellFormed (h : Separate order capacity) :
    ∃ l, ofBlocks order = .ok l ∧ WellFormed l.blocks capacity ∧ l.blocks.Perm order := by
  induction order using List.reverseRecOn with
  | nil => exact ⟨{}, rfl, .nil capacity, .nil⟩
  | append_singleton order b ih =>
    obtain ⟨l, hl, hw, hperm⟩ := ih (h.sublist (List.sublist_append_left _ _))
    obtain ⟨pre, post, hsplit, -, hinserted, hafter⟩ := h.concat_cases hl hw hperm
    refine ⟨_, hinserted, hafter, List.perm_middle.trans ?_⟩
    exact ((hsplit ▸ hperm).cons b).trans (List.perm_append_singleton b order).symm

/-- What the insertions of `order`, one after another, come to. -/
structure Inserts (order : List Block) : Prop where
  /-- The position that an insertion answers is where the block is then, and
  where it is found. -/
  placed : ∀ earlier b later, order = earlier ++ b :: later →
    ∃ l i l', ofBlocks earlier = .ok l ∧ l.insert b = .ok (i, l') ∧
      ofBlocks (earlier ++ [b]) = .ok l' ∧ l'.get? i = some b ∧ l'.position? b.start = some i
  indexed : ∀ earlier later, order = earlier ++ later →
    ∃ l, ofBlocks earlier = .ok l ∧ l.Indexed

theorem Separate.inserts (h : Separate order capacity) : Inserts order where
  placed earlier b later horder := by
    have hnext : Separate (earlier ++ [b]) capacity := by
      refine h.sublist ?_
      rw [horder]
      exact (List.singleton_sublist.2 List.mem_cons_self).append_left _
    obtain ⟨l, hl, hw, hperm⟩ :=
      ofBlocks_wellFormed (hnext.sublist (List.sublist_append_left _ _))
    obtain ⟨pre, post, -, hinsert, hinserted, hafter⟩ := hnext.concat_cases hl hw hperm
    exact ⟨l, _, _, hl, hinsert, hinserted, get?_append rfl,
      (position?_eq_some hafter).2 ⟨pre, b, post, rfl, rfl, rfl⟩⟩
  indexed earlier later horder := by
    have hearlier : Separate earlier capacity := by
      refine h.sublist ?_
      rw [horder]
      exact List.sublist_append_left _ _
    obtain ⟨l, hl, hw, hperm⟩ := ofBlocks_wellFormed hearlier
    exact ⟨l, hl, hw.indexed fun b hb => hearlier.start_lt b (hperm.mem_iff.1 hb)⟩

/-- Address order leaves one list for a set of blocks. -/
theorem WellFormed.eq_of_perm {blocks blocks' : List Block} (h : WellFormed blocks capacity)
    (h' : WellFormed blocks' capacity) (hperm : blocks.Perm blocks') : blocks = blocks' :=
  hperm.eq_of_pairwise (fun _ _ _ _ hab hba => absurd hab (Nat.lt_asymm hba)) h.start_lt h'.start_lt

/-- Any finite set of blocks that are apart and not empty has one layout, with
the blocks in address order, and inserting them one after another leads there
in every order. Each insertion answers the position at which the block is
found then. -/
theorem ordered_of_inserts (blocks : Finset Block) (hstart : ∀ b ∈ blocks, b.start < Size.bound)
    (hlen : ∀ b ∈ blocks, 0 < b.len)
    (hapart : ∀ b ∈ blocks, ∀ c ∈ blocks, b ≠ c → b.Apart c) :
    ∃ l : Layout, l.blocks.toFinset = blocks ∧
      l.blocks.Pairwise (fun a b => a.start < b.start) ∧
      ∀ order : List Block, order.Nodup → order.toFinset = blocks →
        ofBlocks order = .ok l ∧ Inserts order := by
  have hseparate : ∀ order : List Block, order.Nodup → order.toFinset = blocks →
      Separate order (blocks.sup Block.stop) := by
    rintro order hnodup rfl
    exact {
      nonempty := fun b hb => hlen b (List.mem_toFinset.2 hb)
      inside := fun b hb => Finset.le_sup (List.mem_toFinset.2 hb)
      start_lt := fun b hb => hstart b (List.mem_toFinset.2 hb)
      apart := hnodup.pairwise_of_forall_ne fun b hb c hc =>
        hapart b (List.mem_toFinset.2 hb) c (List.mem_toFinset.2 hc) }
  have hall := blocks.toList_toFinset
  obtain ⟨l, -, hw, hperm⟩ := ofBlocks_wellFormed (hseparate _ blocks.nodup_toList hall)
  refine ⟨l, ?_, hw.start_lt, fun order hnodup horder => ?_⟩
  · rw [List.toFinset_eq_of_perm _ _ hperm, hall]
  · have h := hseparate order hnodup horder
    obtain ⟨l', hl', hw', hperm'⟩ := ofBlocks_wellFormed h
    have hsame : order.Perm blocks.toList :=
      List.perm_of_nodup_nodup_toFinset_eq hnodup blocks.nodup_toList (horder.trans hall.symm)
    have hblocks := hw'.eq_of_perm hw ((hperm'.trans hsame).trans hperm.symm)
    have hlayout : l' = l := congrArg Layout.mk hblocks
    exact ⟨hlayout ▸ hl', h.inserts⟩

/-- Three blocks, two of which touch. The last to be inserted comes to lie
between the others, at the position that its insertion answers. -/
theorem ordered_of_inserts_touching :
    let blocks : Finset Block := {⟨0, 2⟩, ⟨2, 2⟩, ⟨5, 1⟩}
    (∀ b ∈ blocks, b.start < Size.bound) ∧ (∀ b ∈ blocks, 0 < b.len) ∧
    (∀ b ∈ blocks, ∀ c ∈ blocks, b ≠ c → b.Apart c) ∧
    ∃ l l' : Layout, ofBlocks [⟨5, 1⟩, ⟨0, 2⟩, ⟨2, 2⟩] = .ok l ∧
      ofBlocks [⟨0, 2⟩, ⟨2, 2⟩, ⟨5, 1⟩] = .ok l ∧ ofBlocks [⟨5, 1⟩, ⟨0, 2⟩] = .ok l' ∧
      l'.insert ⟨2, 2⟩ = .ok (1, l) ∧ l.position? 2 = some 1 ∧ l.position? 3 = none := by
  intro blocks
  have hstart : ∀ b ∈ blocks, b.start < Size.bound := by decide
  have hlen : ∀ b ∈ blocks, 0 < b.len := by decide
  have hapart : ∀ b ∈ blocks, ∀ c ∈ blocks, b ≠ c → b.Apart c := by
    have hsides : ∀ b ∈ blocks, ∀ c ∈ blocks, b ≠ c → b.stop ≤ c.start ∨ c.stop ≤ b.start := by
      decide
    exact fun b hb c hc hne => (Block.apart_iff (hlen b hb) (hlen c hc)).2 (hsides b hb c hc hne)
  obtain ⟨l, -, -, horder⟩ := ordered_of_inserts blocks hstart hlen hapart
  obtain ⟨h, hinserts⟩ := horder [⟨5, 1⟩, ⟨0, 2⟩, ⟨2, 2⟩] (by decide) (by decide)
  obtain ⟨h', -⟩ := horder [⟨0, 2⟩, ⟨2, 2⟩, ⟨5, 1⟩] (by decide) (by decide)
  obtain ⟨l₂, i, l₃, hearlier, hinsert, hlast, -, hposition⟩ :=
    hinserts.placed [⟨5, 1⟩, ⟨0, 2⟩] ⟨2, 2⟩ [] rfl
  obtain rfl : l₃ = l := Except.ok.inj (hlast.symm.trans h)
  have htwo : ofBlocks [⟨5, 1⟩, ⟨0, 2⟩] = .ok ⟨[⟨0, 2⟩, ⟨5, 1⟩]⟩ := by decide
  obtain rfl : l₂ = ⟨[⟨0, 2⟩, ⟨5, 1⟩]⟩ := Except.ok.inj (hearlier.symm.trans htwo)
  have hone : insert ⟨[⟨0, 2⟩, ⟨5, 1⟩]⟩ ⟨2, 2⟩ = .ok (1, ⟨[⟨0, 2⟩, ⟨2, 2⟩, ⟨5, 1⟩]⟩) := by decide
  obtain ⟨rfl, rfl⟩ := Prod.mk.inj (Except.ok.inj (hinsert.symm.trans hone))
  obtain ⟨l₄, hl₄, hindexed⟩ := hinserts.indexed _ [] (List.append_nil _).symm
  obtain rfl := Except.ok.inj (hl₄.symm.trans h)
  exact ⟨hstart, hlen, hapart, _, _, h, h', hearlier, hinsert, hposition,
    hindexed.missed 3 (by decide)⟩

end Layout
end FirstFit
