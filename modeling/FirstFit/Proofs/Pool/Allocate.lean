/-
# Where a request finds room

A search looks at the gap in front of each block, a measurement at all gaps,
and the two agree: there is a place exactly for what is no longer than the
widest gap. The search tries offset zero and the ends of blocks only, but the
lowest offset of all that have room is always one of these.

Key definitions: `Layout.vacant`, `Layout.Found`.
Key theorems: `IsFirstFit.isLeast`, `firstFit_found`, `Found.isSome_iff`,
`room_of_allocate`, `place_of_allocate`.
-/
import Mathlib.Data.Set.Basic
import Mathlib.Order.Bounds.Basic
import FirstFit.Proofs.Pool.Resize

namespace FirstFit
namespace Layout

variable {l : Layout} {pre post : List Block} {capacity size offset gap : Nat}
  {found : Option Placement}

/-! ### The lowest place -/

/-- The offsets from which `size` bytes are in the arena and none of them is in
a block. -/
def vacant (l : Layout) (size capacity : Nat) : Set Nat :=
  {o | o + size ≤ capacity ∧ ∀ b ∈ l.blocks, Block.Apart ⟨o, size⟩ b}

/-- As no block is empty, to have no byte in common is to lie on one side. -/
theorem mem_vacant (h : WellFormed l.blocks capacity) (hsize : 0 < size) :
    offset ∈ l.vacant size capacity ↔ IsFree l.blocks capacity offset size := by
  refine and_congr_right fun _ => forall_congr' fun b => forall_congr' fun hb => ?_
  exact (Block.apart_iff hsize (h.nonempty b hb)).trans or_comm

theorem vacant_eq_empty (h : WellFormed l.blocks capacity) (hsize : 0 < size) :
    l.vacant size capacity = ∅ ↔ ∀ o, ¬ IsFree l.blocks capacity o size :=
  Set.eq_empty_iff_forall_notMem.trans (forall_congr' fun _ => not_congr (mem_vacant h hsize))

theorem IsFirstFit.isLeast (hfit : IsFirstFit pre post size capacity offset)
    (h : WellFormed l.blocks capacity) (hsize : 0 < size) (hsplit : l.blocks = pre ++ post) :
    IsLeast (l.vacant size capacity) offset := by
  refine ⟨(mem_vacant h hsize).2 (hsplit ▸ hfit.isFree), fun o ho => ?_⟩
  exact hfit.lowest o (hsplit ▸ (mem_vacant h hsize).1 ho)

/-- The blocks in front of the place are those that start before it. -/
theorem IsFirstFit.countP_eq (hfit : IsFirstFit pre post size capacity offset)
    (h : WellFormed (pre ++ post) capacity) :
    (pre ++ post).countP (fun b => b.start < offset) = pre.length := by
  have hpre : pre.countP (fun b => b.start < offset) = pre.length := by
    refine List.countP_eq_length.2 fun b hb => decide_eq_true ?_
    have hlen := h.nonempty b (List.mem_append_left _ hb)
    have hstop : b.start + b.len ≤ offset := hfit.before b hb
    omega
  have hpost : post.countP (fun b => b.start < offset) = 0 := by
    refine List.countP_eq_zero.2 fun b hb => ?_
    have := hfit.behind b hb
    simpa using show offset ≤ b.start by omega
  rw [List.countP_append, hpre, hpost, Nat.add_zero]

/-- What a search for `size` bytes finds: the lowest place, if there is one. -/
structure Found (l : Layout) (size capacity : Nat) (found : Option Placement) : Prop where
  lowest : ∀ index offset, found = some ⟨index, offset⟩ ↔
    1 ≤ size ∧ IsLeast (l.vacant size capacity) offset ∧
      index = l.blocks.countP fun b => b.start < offset
  missed : found = none ↔ size = 0 ∨ l.vacant size capacity = ∅
  inserted : ∀ index offset, found = some ⟨index, offset⟩ →
    ∃ l', l.insertAt index ⟨offset, size⟩ = .ok l' ∧ WellFormed l'.blocks capacity

theorem found_some (h : WellFormed l.blocks capacity) (hb : capacity < Size.bound)
    (hsize : 0 < size) (hsplit : l.blocks = pre ++ post)
    (hfit : IsFirstFit pre post size capacity offset) :
    l.Found size capacity (some ⟨pre.length, offset⟩) := by
  have hleast := hfit.isLeast h hsize hsplit
  have hcount : l.blocks.countP (fun b => b.start < offset) = pre.length := by
    rw [hsplit]
    exact hfit.countP_eq (hsplit ▸ h)
  refine ⟨fun index o => ⟨?_, ?_⟩, ⟨nofun, ?_⟩, ?_⟩
  · rintro ⟨⟩
    exact ⟨hsize, hleast, hcount.symm⟩
  · rintro ⟨-, ho, rfl⟩
    obtain rfl := hleast.unique ho
    rw [hcount]
  · rintro (rfl | hnone)
    · exact absurd hsize (Nat.lt_irrefl 0)
    · exact absurd (hnone ▸ hleast.1) (Set.notMem_empty offset)
  · rintro index o ⟨⟩
    exact ⟨_, hfit.insertAt_eq h hb hsize hsplit, hfit.wellFormed (hsplit ▸ h) hsize⟩

theorem found_none (hnone : size = 0 ∨ l.vacant size capacity = ∅) :
    l.Found size capacity none := by
  refine ⟨fun index o => ⟨nofun, ?_⟩, iff_of_true rfl hnone, nofun⟩
  rintro ⟨hsize, hleast, -⟩
  rcases hnone with rfl | hnone
  · exact absurd hsize (by decide)
  · exact absurd (hnone ▸ hleast.1) (Set.notMem_empty o)

/-- A search finds the lowest place of all offsets, though it tries few. -/
theorem firstFit_found (h : WellFormed l.blocks capacity) (hb : capacity < Size.bound)
    (size : Nat) :
    ∃ found, l.firstFit size capacity = .ok found ∧ l.Found size capacity found := by
  rcases Nat.eq_zero_or_pos size with rfl | hsize
  · exact ⟨none, if_pos (.inl rfl), found_none (.inl rfl)⟩
  · rcases firstFit_cases h hb hsize with
      ⟨pre, post, offset, hsplit, hfound, hfit⟩ | ⟨hfound, hnone⟩
    · exact ⟨_, hfound, found_some h hb hsize hsplit hfit⟩
    · exact ⟨_, hfound, found_none (.inr ((vacant_eq_empty h hsize).2 hnone))⟩

/-- The search and the measurement agree. -/
theorem Found.isSome_iff (hfound : l.Found size capacity found)
    (h : WellFormed l.blocks capacity) (hwidest : IsWidest l.blocks capacity gap) :
    found.isSome ↔ 1 ≤ size ∧ size ≤ gap := by
  have hsome : found.isSome ↔ ¬ (size = 0 ∨ l.vacant size capacity = ∅) := by
    rw [← hfound.missed, Option.isSome_iff_ne_none]
  rw [hsome, not_or]
  refine (and_congr_right fun h0 => ?_).trans
    (and_congr_left' (Nat.pos_iff_ne_zero (n := size)).symm)
  rw [vacant_eq_empty h (Nat.pos_of_ne_zero h0), not_forall_not]
  exact hwidest.room_iff

end Layout

/-! ### Allocating in a space -/

namespace Space

open Pool (Error Handle Answer)
open Layout (WellFormed IsFirstFit IsWidest)

variable {s : Space} {size gap : Nat}

theorem Allocated.answered {r : Except Error Handle × Space} (hr : s.Allocated size r)
    (hgap : s.layout.largestGap s.capacity = .ok gap) :
    s.Answered s.layout.blocks gap size (r.1.map .handle) := by
  cases hr with
  | refused ha => exact .refused ha
  | outOfSpace ha hgap' hnone =>
    obtain rfl := Except.ok.inj (hgap'.symm.trans hgap)
    exact .outOfSpace ha hnone
  | placed ha hsplit hfit => exact .granted ha (hsplit ▸ hfit.isFree)

end Space

/-! ### Requests to a pool that can be reached -/

namespace Pool

open Layout (WellFormed)

variable {s : Space} {figures : Stats}

theorem stats_some (hr : s.stats = .ok figures) : stats ⟨some s⟩ = .ok (.ok figures) := by
  simp only [stats, hr, Checked.ok_bind]
  rfl

/-- The widest gap is the longest request that is granted, by a search of any
layout and by a pool, whose statistics name it beforehand. Any other request is
refused for its size, or with this very figure. -/
theorem room_of_allocate :
    (∀ (l : Layout) (capacity : Nat), WellFormed l.blocks capacity → capacity < Size.bound →
      ∃ gap, l.largestGap capacity = .ok gap ∧
        ∀ size, ∃ found, l.firstFit size capacity = .ok found ∧
          (found.isSome ↔ 1 ≤ size ∧ size ≤ gap)) ∧
    ∀ s : Space, Reached ⟨some s⟩ →
      ∃ figures, stats ⟨some s⟩ = .ok (.ok figures) ∧ figures.capacity = s.capacity ∧
        ∀ supply size, ∃ reply, serve ⟨some s⟩ supply (.allocate size) = .ok reply ∧
          s.Decided s.layout.blocks figures.largestGap size reply.answer := by
  constructor
  · intro l capacity h hb
    obtain ⟨gap, hgap, hwidest⟩ := Layout.largestGap_cases h hb
    refine ⟨gap, hgap, fun size => ?_⟩
    obtain ⟨found, hsearch, hfound⟩ := Layout.firstFit_found h hb size
    exact ⟨found, hsearch, hfound.isSome_iff h hwidest⟩
  · intro s h
    have hs : s.Sound := sound_some.1 h.sound
    obtain ⟨gap, hgap, hwidest⟩ := Layout.largestGap_cases hs.wellFormed hs.bound
    refine ⟨_, stats_some (Space.stats_eq hs hgap), rfl, fun supply size => ?_⟩
    obtain ⟨r, hr, hcase⟩ := Space.allocate_cases hs size
    exact ⟨_, serve_allocate hr, (hcase.answered hgap).decided hwidest⟩

/-- Two gaps of two bytes and one of none: two bytes have a place and three have
not, in a pool whose free bytes are four. -/
theorem room_of_allocate_gaps :
    let rs : List Request := [.initialise ⟨7, true⟩, .allocate 2, .allocate 1, .allocate 2,
      .free ⟨⟨1⟩, 0, 2⟩]
    (∃ found, Layout.firstFit ⟨[⟨2, 1⟩, ⟨3, 2⟩]⟩ 3 7 = .ok found ∧ found.isSome = false) ∧
    ∃ answers s supply log, serveAll {} {} rs = .ok (answers, (⟨some s⟩, supply), log) ∧
      s.layout.blocks = [⟨2, 1⟩, ⟨3, 2⟩] ∧
      (∃ figures, stats ⟨some s⟩ = .ok (.ok figures) ∧ figures.free = 4 ∧
        figures.largestGap = 2) ∧
      (∃ reply new, serve ⟨some s⟩ supply (.allocate 2) = .ok reply ∧
        reply.answer = .ok (.handle new)) ∧
      ∃ reply, serve ⟨some s⟩ supply (.allocate 3) = .ok reply ∧
        reply.answer = .error (.outOfSpace 3 2) := by
  intro rs
  obtain ⟨hsearch, hserve⟩ := room_of_allocate
  have hlive := reached_of_any rs (fun s _ => decide (s.capacity = 7 ∧
    s.layout.blocks = [⟨2, 1⟩, ⟨3, 2⟩] ∧ s.stats = .ok ⟨7, 3, 4, 2, 2⟩)) (by decide)
  obtain ⟨answers, s, supply, log, hrun, hreached, hs⟩ := hlive
  obtain ⟨hcapacity, hblocks, hfigures⟩ := of_decide_eq_true hs
  constructor
  · have hw : WellFormed [⟨2, 1⟩, ⟨3, 2⟩] 7 := ⟨by decide, by decide, by decide⟩
    obtain ⟨gap, hgap, hfound⟩ := hsearch ⟨[⟨2, 1⟩, ⟨3, 2⟩]⟩ 7 hw (by decide)
    obtain rfl : 2 = gap := Except.ok.inj hgap
    obtain ⟨found, hfirst, hiff⟩ := hfound 3
    exact ⟨found, hfirst, Bool.eq_false_iff.2 fun h => absurd (hiff.1 h) (by decide)⟩
  · obtain ⟨figures, hstats, -, hdecided⟩ := hserve s hreached
    obtain rfl := Except.ok.inj (Except.ok.inj ((stats_some hfigures).symm.trans hstats))
    obtain ⟨reply, htwo, hfits⟩ := hdecided supply 2
    obtain ⟨new, hnew⟩ := hfits.granted.2 (by decide)
    obtain ⟨reply', hthree, hshort⟩ := hdecided supply 3
    exact ⟨answers, s, supply, log, hrun, hblocks, ⟨_, hstats, rfl, rfl⟩,
      ⟨reply, new, htwo, hnew⟩, reply', hthree, hshort.crowded (by decide) (by omega)⟩

/-- First fit is the lowest address: a search of any layout finds the least of
all offsets that have room, at the position that address order gives it, and a
block that a pool places starts there. -/
theorem place_of_allocate :
    (∀ (l : Layout) (capacity : Nat), WellFormed l.blocks capacity → capacity < Size.bound →
      ∀ size, ∃ found, l.firstFit size capacity = .ok found ∧ l.Found size capacity found) ∧
    ∀ s : Space, Reached ⟨some s⟩ → ∀ supply size,
      ∃ reply, serve ⟨some s⟩ supply (.allocate size) = .ok reply ∧
        ∀ a, reply.answer = .ok a → ∃ offset,
          a = .handle ⟨s.arena.id, offset, size⟩ ∧
            IsLeast (s.layout.vacant size s.capacity) offset ∧
            ∃ pre post, s.layout.blocks = pre ++ post ∧
              pre.length = s.layout.blocks.countP (fun b => b.start < offset) ∧
              reply.state.1.blocks = pre ++ ⟨offset, size⟩ :: post := by
  refine ⟨fun l capacity h hb => Layout.firstFit_found h hb, fun s h supply size => ?_⟩
  have hs : s.Sound := sound_some.1 h.sound
  obtain ⟨r, hr, hcase⟩ := Space.allocate_cases hs size
  refine ⟨_, serve_allocate hr, fun a ha => ?_⟩
  cases hcase with
  | refused => exact nomatch ha
  | outOfSpace => exact nomatch ha
  | @placed pre post offset arena hassess hsplit hfit hbytes =>
    have hsize := (Space.assess_eq_ok.1 hassess).1
    have hcount : pre.length = s.layout.blocks.countP (fun b => b.start < offset) := by
      rw [hsplit]
      exact (hfit.countP_eq (hsplit ▸ hs.wellFormed)).symm
    exact ⟨offset, (Except.ok.inj ha).symm, hfit.isLeast hs.wellFormed hsize hsplit,
      pre, post, hsplit, hcount, rfl⟩

/-- The gap in front of all blocks is too short, and of the two others the lower
one is taken, at its first byte. -/
theorem place_of_allocate_between :
    let rs : List Request := [.initialise ⟨8, true⟩, .allocate 1, .allocate 1, .allocate 2,
      .allocate 1, .free ⟨⟨1⟩, 0, 1⟩, .free ⟨⟨1⟩, 2, 2⟩]
    (∃ found, Layout.firstFit ⟨[⟨1, 1⟩, ⟨4, 1⟩]⟩ 2 8 = .ok found ∧ found = some ⟨1, 2⟩ ∧
      Layout.Found ⟨[⟨1, 1⟩, ⟨4, 1⟩]⟩ 2 8 found) ∧
    ∃ answers s supply log, serveAll {} {} rs = .ok (answers, (⟨some s⟩, supply), log) ∧
      s.layout.blocks = [⟨1, 1⟩, ⟨4, 1⟩] ∧
      ∃ reply, serve ⟨some s⟩ supply (.allocate 2) = .ok reply ∧
        reply.answer = .ok (.handle ⟨⟨1⟩, 2, 2⟩) ∧
        IsLeast (s.layout.vacant 2 s.capacity) 2 := by
  intro rs
  obtain ⟨hsearch, hserve⟩ := place_of_allocate
  have hlive := reached_of_any rs (fun s supply =>
    decide (s.layout.blocks = [⟨1, 1⟩, ⟨4, 1⟩]) &&
      (serve ⟨some s⟩ supply (.allocate 2)).toOption.any fun reply =>
        decide (reply.answer = .ok (.handle ⟨⟨1⟩, 2, 2⟩))) (by decide)
  obtain ⟨answers, s, supply, log, hrun, hreached, hs⟩ := hlive
  obtain ⟨hblocks, hreply⟩ := Bool.and_eq_true_iff.1 hs
  constructor
  · have hw : WellFormed [⟨1, 1⟩, ⟨4, 1⟩] 8 := ⟨by decide, by decide, by decide⟩
    obtain ⟨found, hfirst, hfound⟩ := hsearch ⟨[⟨1, 1⟩, ⟨4, 1⟩]⟩ 8 hw (by decide) 2
    obtain rfl : some ⟨1, 2⟩ = found := Except.ok.inj hfirst
    exact ⟨_, hfirst, rfl, hfound⟩
  · obtain ⟨reply, hallocate, hplace⟩ := hserve s hreached supply 2
    rw [hallocate] at hreply
    have hanswer := of_decide_eq_true hreply
    obtain ⟨offset, hnew, hleast, -⟩ := hplace _ hanswer
    obtain ⟨-, rfl⟩ : (⟨1⟩ : ArenaId) = s.arena.id ∧ 2 = offset := by simpa using hnew
    exact ⟨answers, s, supply, log, hrun, of_decide_eq_true hblocks, reply, hallocate, hanswer,
      hleast⟩

end Pool
end FirstFit
