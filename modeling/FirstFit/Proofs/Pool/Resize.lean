/-
# What resizing a block does

A block that is to have another length finds room exactly if the widest gap
has it that there would be without the block: its own place, the gaps that are
free now, and those that its own bytes belong to are all looked at in the end.
Where the block is then, and what the log calls it, can be told from the two
ranges alone. The last attempt goes to the left, to the end of the block in
front, and writes over bytes that the block itself has; what it holds comes
along whole all the same.

Key definitions: `Space.Names`, `Space.Brought`, `Space.Decided`, `Space.Told`,
`Space.Settled`.
Key theorems: `IsFirstFit.leftwards`, `Names.resize_cases`, `Placed.told`,
`Answered.decided`, `bytes_of_resize`, `room_of_resize`, `place_of_resize`.
-/
import Mathlib.Order.Bounds.Defs
import FirstFit.Proofs.Pool.Contents
import FirstFit.Proofs.Pool.Reached

namespace FirstFit

/-! ### Room in a layout -/

namespace Layout

variable {blocks pre post front back : List Block} {b : Block} {capacity gap size offset : Nat}

theorem IsFree.mono {size' : Nat} (h : IsFree blocks capacity offset size') (hle : size ≤ size') :
    IsFree blocks capacity offset size := by
  refine ⟨Nat.le_trans (Nat.add_le_add_left hle offset) h.1, fun c hc => ?_⟩
  rcases h.2 c hc with hc | hc
  · exact .inl hc
  · exact .inr (by omega)

/-- There is a place for all that is no longer than the widest gap. -/
theorem IsWidest.room_iff (h : IsWidest blocks capacity gap) :
    (∃ o, IsFree blocks capacity o size) ↔ size ≤ gap := by
  constructor
  · rintro ⟨o, ho⟩
    exact h.widest o size ho
  · intro hle
    obtain ⟨o, ho⟩ := h.free
    exact ⟨o, ho.mono hle⟩

theorem IsWidest.le_capacity (h : IsWidest blocks capacity gap) : gap ≤ capacity := by
  obtain ⟨o, ho⟩ := h.free
  have := ho.1
  omega

theorem frontier_eq_getLast? (cursor : Nat) : ∀ pre : List Block,
    frontier cursor pre = (pre.getLast?.map Block.stop).getD cursor
  | [] => rfl
  | b :: rest => by
    rw [frontier, frontier_eq_getLast? b.stop rest, List.getLast?_cons]
    cases rest.getLast? <;> rfl

/-- What ends in the arena and before all blocks of `post` ends before the limit. -/
theorem le_limit {n : Nat} (hn : n ≤ capacity) (h : ∀ c ∈ post, n ≤ c.start) :
    n ≤ limit post capacity := by
  cases post with
  | nil => exact hn
  | cons c post => exact h c List.mem_cons_self

/-- A range that is free without the block `b` and not with it has bytes of `b`. -/
theorem IsFree.overlaps (hfree : IsFree (pre ++ post) capacity offset size)
    (hnot : ¬ IsFree (pre ++ b :: post) capacity offset size) :
    offset < b.stop ∧ b.start < offset + size := by
  by_contra hapart
  have hb : b.stop ≤ offset ∨ offset + size ≤ b.start := by omega
  refine hnot ⟨hfree.1, fun c hc => ?_⟩
  rcases List.mem_cons.1 (List.perm_middle.mem_iff.1 hc) with rfl | hc
  · exact hb
  · exact hfree.2 c hc

/-- Where the first place without the block `b` has bytes of `b`, and the space
from `b` on is too short, that place begins in front of `b`, directly behind the
block before it. -/
theorem IsFirstFit.leftwards (hw : WellFormed (pre ++ b :: post) capacity)
    (hfit : IsFirstFit front back size capacity offset) (hrest : pre ++ post = front ++ back)
    (hover : offset < b.stop ∧ b.start < offset + size)
    (hroom : limit post capacity < b.start + size) :
    offset < b.start ∧ offset = frontier 0 pre := by
  have hpost : ∀ c ∈ post, c ∉ front := by
    intro c hc hcf
    have h1 : b.stop ≤ c.start := hw.behind hc
    have h2 : c.start + c.len ≤ offset := hfit.before c hcf
    omega
  have hpre : ∀ a ∈ pre, a ∉ back := by
    intro a ha hab
    have h1 : a.start + a.len ≤ b.start := hw.before ha
    have h2 : offset + size ≤ a.start := hfit.behind a hab
    omega
  -- no block is on the other side of `offset` than of `b`, so the two splits are one
  obtain ⟨rfl, rfl⟩ : pre = front ∧ post = back := by
    rcases List.append_eq_append_iff.1 hrest with ⟨mid, rfl, rfl⟩ | ⟨mid, rfl, rfl⟩
    · cases mid with
      | nil => simp
      | cons c mid => exact absurd (by simp) (hpost c (by simp))
    · cases mid with
      | nil => simp
      | cons a mid => exact absurd (by simp) (hpre a (by simp))
  have hle : offset ≤ b.start := by
    rw [hfit.offset_eq]
    rcases frontier_eq 0 pre with he | ⟨a, ha, he⟩
    · omega
    · rw [he]
      exact hw.before ha
  have hne : offset ≠ b.start := by
    rintro rfl
    have := le_limit hfit.inside hfit.behind
    omega
  exact ⟨by omega, hfit.offset_eq⟩

end Layout

namespace Space

open Pool (Error Handle Growth Answer)
open Layout (WellFormed IsFree IsWidest limit frontier)

variable {s : Space} {h : Handle} {pre post front back : List Block} {b : Block}
  {size offset gap : Nat} {how : Growth} {arena : Arena}

/-! ### The block that a handle names -/

/-- The handle is one of this arena and names the block `b` between `pre` and `post`. -/
structure Names (s : Space) (h : Handle) (pre : List Block) (b : Block) (post : List Block) :
    Prop where
  arena : h.arena = s.arena.id
  start : b.start = h.offset
  blocks : s.layout.blocks = pre ++ b :: post

theorem Names.wellFormed (hn : s.Names h pre b post) (hs : s.Sound) :
    WellFormed (pre ++ b :: post) s.capacity := hn.blocks ▸ hs.wellFormed

/-- A handle names one block, so what is found of it is found at this split. -/
theorem Names.eq_of_locate? (hn : s.Names h pre b post) (hs : s.Sound) {pre' post' : List Block}
    {b' : Block} (hl : s.locate? h = some (pre'.length, b'))
    (hsplit : s.layout.blocks = pre' ++ b' :: post') : pre' = pre ∧ b' = b ∧ post' = post := by
  have hl' := locate?_append hs hn.arena hn.blocks hn.start
  obtain ⟨hlen, rfl⟩ : pre'.length = pre.length ∧ b' = b :=
    Prod.mk.inj (Option.some.inj (hl.symm.trans hl'))
  obtain ⟨rfl, htail⟩ := List.append_inj (hsplit.symm.trans hn.blocks) hlen
  exact ⟨rfl, rfl, (List.cons.inj htail).2⟩

/-- What becomes of a block that is named: its new size is refused, or there is
no room for it even without the block, or the block has a place. -/
theorem Names.resize_cases (hn : s.Names h pre b post) (hs : s.Sound) (size : Nat) :
    ∃ r, s.resize h size = .ok r ∧
      ((∃ e, s.assess size = .error e ∧ r = (.error e, s)) ∨
      (s.assess size = .ok () ∧ (∀ o, ¬ IsFree (pre ++ post) s.capacity o size) ∧
        ∃ gap, Layout.largestGap ⟨pre ++ post⟩ s.capacity = .ok gap ∧
          r = (.error (.outOfSpace size gap), s)) ∨
      (s.assess size = .ok () ∧ ∃ front back offset how arena,
        Placed s pre post b size front back offset how ∧
        s.arena.Rewritten arena (s.carried b offset size) ∧
        r = (.ok (s.handle ⟨offset, size⟩, how),
          { s with arena, layout := ⟨front ++ ⟨offset, size⟩ :: back⟩ }))) := by
  obtain ⟨r, hr, hcase⟩ := Space.resize_cases hs h size
  refine ⟨r, hr, ?_⟩
  cases hcase with
  | invalid hl =>
    rw [locate?_append hs hn.arena hn.blocks hn.start] at hl
    exact nomatch hl
  | refused _ ha => exact .inl ⟨_, ha, rfl⟩
  | outOfSpace hl ha hsplit hgap hnone =>
    obtain ⟨rfl, rfl, rfl⟩ := hn.eq_of_locate? hs hl hsplit
    exact .inr (.inl ⟨ha, hnone, _, hgap, rfl⟩)
  | done hl ha hsplit hplace hbytes =>
    obtain ⟨rfl, rfl, rfl⟩ := hn.eq_of_locate? hs hl hsplit
    exact .inr (.inr ⟨ha, _, _, _, _, _, hplace, hbytes, rfl⟩)

/-! ### The place -/

/-- A block goes where its new length would be free without it. -/
theorem Placed.isFree (hp : Placed s pre post b size front back offset how)
    (hw : WellFormed (pre ++ b :: post) s.capacity) :
    IsFree (pre ++ post) s.capacity offset size := by
  obtain ⟨hrest, hfront, hback, hin⟩ := hp.fits hw
  rw [hrest]
  exact Layout.isFree_append hfront hback hin

/-- What each kind of growth says about the two ranges. -/
def Told (s : Space) (pre post : List Block) (b : Block) (size offset : Nat) : Growth → Prop
  | .shrunk => size ≤ b.len ∧ offset = b.start
  | .inPlace => b.len < size ∧ b.start + size ≤ limit post s.capacity ∧ offset = b.start
  | .moved => limit post s.capacity < b.start + size ∧
      (offset + size ≤ b.start ∨ b.stop ≤ offset) ∧
      IsLeast {o | IsFree (pre ++ b :: post) s.capacity o size} offset
  | .relocated => limit post s.capacity < b.start + size ∧ offset < b.start ∧
      b.start < offset + size ∧ offset = frontier 0 pre

theorem Placed.told (hp : Placed s pre post b size front back offset how)
    (hw : WellFormed (pre ++ b :: post) s.capacity) : s.Told pre post b size offset how := by
  cases hp with
  | shrunk hsize => exact ⟨hsize, rfl⟩
  | inPlace hsize hroom => exact ⟨hsize, hroom, rfl⟩
  | moved hroom hsplit hfit hrest hfront hback =>
    have hfree : IsFree (pre ++ b :: post) s.capacity offset size := hsplit ▸ hfit.isFree
    refine ⟨hroom, (hfree.2 b hw.mem_split).symm, hfree, ?_⟩
    intro o ho
    exact hfit.lowest o (hsplit ▸ ho)
  | relocated hroom hnone hrest hfit =>
    have hover := IsFree.overlaps (hrest ▸ hfit.isFree) (hnone offset)
    obtain ⟨hleft, hfrontier⟩ := hfit.leftwards hw hrest hover hroom
    exact ⟨hroom, hleft, hover.2, hfrontier⟩

/-- A block that shrinks stays. -/
theorem Placed.eq_start (hp : Placed s pre post b size front back offset how)
    (hw : WellFormed (pre ++ b :: post) s.capacity) (hsize : size ≤ b.len) :
    offset = b.start := by
  have htold := hp.told hw
  have hlimit : b.start + b.len ≤ limit post s.capacity := Layout.stop_le_limit hw
  cases how with
  | shrunk => exact htold.2
  | inPlace => exact htold.2.2
  | moved =>
    have := htold.1
    omega
  | relocated =>
    have := htold.1
    omega

/-- Where the block `b` between `pre` and `post` is once it has `size` bytes at
`offset`: `blocks` are the blocks then, and `how` is what the log calls it. -/
structure Settled (s : Space) (pre : List Block) (b : Block) (post : List Block)
    (offset size : Nat) (how : Growth) (blocks : List Block) : Prop where
  /-- The block is replaced, and no other one is touched. -/
  others : ∃ front back, pre ++ post = front ++ back ∧ blocks = front ++ ⟨offset, size⟩ :: back
  ordered : blocks.Pairwise fun a c => a.start < c.start
  stays : ∃ gap, s.layout.gapAfter pre.length s.capacity = .ok gap ∧
    (offset = b.start ↔ size ≤ b.len + gap)
  shrunk : how = .shrunk ↔ size ≤ b.len
  inPlace : how = .inPlace ↔ b.len < size ∧ offset = b.start
  moved : how = .moved ↔ Block.Apart ⟨offset, size⟩ b
  /-- It moves to the first place that is free while its own bytes are not. -/
  lowest : how = .moved → IsLeast {o | IsFree s.layout.blocks s.capacity o size} offset
  relocated : how = .relocated ↔ offset ≠ b.start ∧ ¬ Block.Apart ⟨offset, size⟩ b
  /-- It is relocated to the left, up to the block in front. -/
  left : how = .relocated → offset < b.start ∧ offset = (pre.getLast?.map Block.stop).getD 0

theorem Placed.settled (hp : Placed s pre post b size front back offset how) (hs : s.Sound)
    (hn : s.Names h pre b post) (hsize : 0 < size) :
    s.Settled pre b post offset size how (front ++ ⟨offset, size⟩ :: back) := by
  have hw := hn.wellFormed hs
  have htold := hp.told hw
  have hothers : ∃ front' back', pre ++ post = front' ++ back' ∧
      front ++ ⟨offset, size⟩ :: back = front' ++ (⟨offset, size⟩ : Block) :: back' :=
    ⟨front, back, (hp.fits hw).1, rfl⟩
  have hordered := (hp.wellFormed hw hsize).start_lt
  have hgap := Layout.gapAfter_append hn.blocks hw hs.bound
  have hlen := hw.nonempty b hw.mem_split
  have hstop : b.stop = b.start + b.len := rfl
  have hlimit := Layout.stop_le_limit hw
  have happart : Block.Apart ⟨offset, size⟩ b ↔ offset + size ≤ b.start ∨ b.stop ≤ offset :=
    Block.apart_iff hsize hlen
  -- the ranges that the four kinds leave possible exclude each other
  cases how with
  | shrunk =>
    obtain ⟨hshrink, rfl⟩ := htold
    have hmeet : ¬ (b.start + size ≤ b.start ∨ b.stop ≤ b.start) := by omega
    exact {
      others := hothers
      ordered := hordered
      stays := ⟨_, hgap, by omega⟩
      shrunk := by simpa using hshrink
      inPlace := by simpa using hshrink
      moved := by simpa [happart] using hmeet
      lowest := by simp
      relocated := by simp
      left := by simp }
  | inPlace =>
    obtain ⟨hgrow, hroom, rfl⟩ := htold
    have hmeet : ¬ (b.start + size ≤ b.start ∨ b.stop ≤ b.start) := by omega
    exact {
      others := hothers
      ordered := hordered
      stays := ⟨_, hgap, by omega⟩
      shrunk := by simpa using hgrow
      inPlace := by simpa using hgrow
      moved := by simpa [happart] using hmeet
      lowest := by simp
      relocated := by simp
      left := by simp }
  | moved =>
    obtain ⟨hroom, hapart, hleast⟩ := htold
    have hgrow : b.len < size := by omega
    have hne : offset ≠ b.start := by omega
    exact {
      others := hothers
      ordered := hordered
      stays := ⟨_, hgap, by omega⟩
      shrunk := by simpa using hgrow
      inPlace := by simp [hne]
      moved := by simpa [happart] using hapart
      lowest := fun _ => hn.blocks ▸ hleast
      relocated := by simp [happart, hapart]
      left := by simp }
  | relocated =>
    obtain ⟨hroom, hleft, hright, hfrontier⟩ := htold
    have hgrow : b.len < size := by omega
    have hne : offset ≠ b.start := by omega
    have hmeet : ¬ (offset + size ≤ b.start ∨ b.stop ≤ offset) := by omega
    exact {
      others := hothers
      ordered := hordered
      stays := ⟨_, hgap, by omega⟩
      shrunk := by simpa using hgrow
      inPlace := by simp [hne]
      moved := by simpa [happart] using hmeet
      lowest := by simp
      relocated := by simpa [happart, hne] using hmeet
      left := fun _ => ⟨hleft, hfrontier.trans (Layout.frontier_eq_getLast? 0 pre)⟩ }

/-! ### The bytes -/

/-- The bytes of the arena `a` once the block `b` has `size` bytes at `offset`. -/
structure Brought (s : Space) (b : Block) (offset size : Nat) (a : Arena) : Prop where
  /-- Each byte of the arena, in or out of the blocks. -/
  bytes : s.arena.Rewritten a fun i =>
    if offset ≤ i ∧ i < offset + min b.len size then s.arena.byte (b.start + (i - offset))
    else if s.zeroing = true ∧ offset + b.len ≤ i ∧ i < offset + size then 0
    else s.arena.byte i
  kept : a.slice offset (min b.len size) = s.arena.slice b.start (min b.len size)
  zeroed : s.zeroing = true → b.len < size →
    a.slice (offset + b.len) (size - b.len) = List.replicate (size - b.len) 0
  /-- A space that does not zero blocks shows what lay there before. -/
  shown : s.zeroing = false → b.len < size →
    a.slice (offset + b.len) (size - b.len) = s.arena.slice (offset + b.len) (size - b.len)
  /-- The bytes that the block has no longer stay, and so do all others. -/
  outside : ∀ i, i < offset ∨ offset + size ≤ i → a.byte i = s.arena.byte i
  shrunk : size ≤ b.len → a = s.arena

theorem Placed.brought (hp : Placed s pre post b size front back offset how)
    (hw : WellFormed (pre ++ b :: post) s.capacity)
    (hbytes : s.arena.Rewritten arena (s.carried b offset size)) :
    s.Brought b offset size arena where
  bytes := hbytes
  kept := by
    apply Arena.slice_congr
    intro i hi
    rw [hbytes.byte, carried, if_pos (by omega), Nat.add_sub_cancel_left]
  zeroed hz hgrow := by
    apply Arena.slice_replicate
    intro i h1 h2
    rw [hbytes.byte, carried, if_neg (by omega), if_pos ⟨hz, h1, by omega⟩]
  shown hz hgrow := by
    apply Arena.slice_congr
    intro i hi
    rw [hbytes.byte, carried, if_neg (by omega), if_neg (by simp [hz])]
  outside i hi := by rw [hbytes.byte, carried_of_not hi]
  shrunk hsize := by
    obtain rfl := hp.eq_start hw hsize
    refine Arena.ext_byte hbytes.id hbytes.capacity fun i => ?_
    rw [hbytes.byte]
    by_cases hi : b.start ≤ i ∧ i < b.start + min b.len size
    · exact carried_start hi
    · rw [carried, if_neg hi, if_neg (by omega)]

/-! ### The decision -/

/-- The answer for a block that is to have `size` bytes: `rest` are the other
blocks, and `widest` is the widest gap that they leave. -/
structure Decided (s : Space) (rest : List Block) (widest size : Nat)
    (answer : Except Error Answer) : Prop where
  granted : (∃ new, answer = .ok (.handle new)) ↔ 1 ≤ size ∧ size ≤ widest
  /-- No place is missed. -/
  placed : (∃ new, answer = .ok (.handle new)) ↔
    1 ≤ size ∧ ∃ o, IsFree rest s.capacity o size
  empty : size = 0 → answer = .error .invalidSize
  oversized : s.capacity < size → answer = .error (.insufficientCapacity size s.capacity)
  crowded : widest < size → size ≤ s.capacity → answer = .error (.outOfSpace size widest)

theorem assess_of_lt (hsize : s.capacity < size) :
    s.assess size = .error (.insufficientCapacity size s.capacity) := by
  rw [assess, if_neg (by omega), if_pos hsize]

/-- How a request for `size` bytes ends, if the blocks `rest` stay where they
are: by its size alone, for want of a place, or with one. -/
inductive Answered (s : Space) (rest : List Block) (gap size : Nat) :
    Except Error Answer → Prop
  | refused {e : Error} (ha : s.assess size = .error e) : Answered s rest gap size (.error e)
  | outOfSpace (ha : s.assess size = .ok ()) (hnone : ∀ o, ¬ IsFree rest s.capacity o size) :
      Answered s rest gap size (.error (.outOfSpace size gap))
  | granted {offset : Nat} {new : Handle} (ha : s.assess size = .ok ())
      (hfree : IsFree rest s.capacity offset size) : Answered s rest gap size (.ok (.handle new))

/-- What is decided by places is decided by the widest gap. -/
theorem Answered.decided {rest : List Block} {answer : Except Error Answer}
    (hr : s.Answered rest gap size answer) (hwidest : IsWidest rest s.capacity gap) :
    s.Decided rest gap size answer := by
  have hcap := hwidest.le_capacity
  have hroom : (∃ o, IsFree rest s.capacity o size) ↔ size ≤ gap := hwidest.room_iff
  cases hr with
  | @refused e ha =>
    have hnot : ¬ (0 < size ∧ size ≤ s.capacity) := by
      intro hsize
      rw [assess_eq_ok.2 hsize] at ha
      exact nomatch ha
    have hgranted : (∃ new : Handle, (.error e : Except Error Answer) = .ok (.handle new)) ↔
        1 ≤ size ∧ size ≤ gap := by
      refine ⟨fun ⟨_, hok⟩ => (nomatch hok), ?_⟩
      intro hfit
      exact absurd ⟨hfit.1, Nat.le_trans hfit.2 hcap⟩ hnot
    have hanswer : ∀ e', s.assess size = .error e' →
        (.error e : Except Error Answer) = .error e' := by
      intro e' ha'
      rw [Except.error.inj (ha.symm.trans ha')]
    exact {
      granted := hgranted
      placed := hgranted.trans (and_congr_right fun _ => hroom.symm)
      empty := fun h0 => hanswer _ (if_pos h0)
      oversized := fun hsize => hanswer _ (assess_of_lt hsize)
      crowded := fun h1 h2 => absurd ⟨by omega, h2⟩ hnot }
  | outOfSpace ha hnone =>
    obtain ⟨hsize, hle⟩ := assess_eq_ok.1 ha
    have hshort : ¬ size ≤ gap := by
      intro hfit
      obtain ⟨o, ho⟩ := hroom.2 hfit
      exact hnone o ho
    have hgranted : (∃ new : Handle, (.error (.outOfSpace size gap) : Except Error Answer) =
        .ok (.handle new)) ↔ 1 ≤ size ∧ size ≤ gap :=
      ⟨fun ⟨_, hok⟩ => (nomatch hok), fun hfit => absurd hfit.2 hshort⟩
    exact {
      granted := hgranted
      placed := hgranted.trans (and_congr_right fun _ => hroom.symm)
      empty := by omega
      oversized := by omega
      crowded := fun _ _ => rfl }
  | @granted offset new ha hfree =>
    obtain ⟨hsize, hle⟩ := assess_eq_ok.1 ha
    have hfit : size ≤ gap := hroom.1 ⟨offset, hfree⟩
    have hgranted : (∃ new', (.ok (.handle new) : Except Error Answer) = .ok (.handle new')) ↔
        1 ≤ size ∧ size ≤ gap :=
      ⟨fun _ => ⟨hsize, hfit⟩, fun _ => ⟨_, rfl⟩⟩
    exact {
      granted := hgranted
      placed := hgranted.trans (and_congr_right fun _ => hroom.symm)
      empty := by omega
      oversized := by omega
      crowded := by omega }

theorem Names.decided (hn : s.Names h pre b post) (hs : s.Sound)
    {r : Except Error (Handle × Growth) × Space} (hr : s.resize h size = .ok r)
    (hgap : Layout.largestGap ⟨pre ++ post⟩ s.capacity = .ok gap)
    (hwidest : IsWidest (pre ++ post) s.capacity gap) :
    s.Decided (pre ++ post) gap size (r.1.map fun a => .handle a.1) := by
  obtain ⟨r', hr', hcase⟩ := hn.resize_cases hs size
  obtain rfl := Except.ok.inj (hr.symm.trans hr')
  refine Answered.decided ?_ hwidest
  rcases hcase with ⟨e, ha, rfl⟩ | ⟨ha, hnone, gap', hgap', rfl⟩ |
    ⟨ha, front, back, offset, how, arena, hplace, hbytes, rfl⟩
  · exact .refused ha
  · obtain rfl : gap' = gap := Except.ok.inj (hgap'.symm.trans hgap)
    exact .outOfSpace ha hnone
  · exact .granted ha (hplace.isFree (hn.wellFormed hs))

end Space

/-! ### Resizing a block of a pool that can be reached -/

namespace Pool

variable {s : Space} {handle : Handle} {pre post : List Block} {b : Block}

/-- A block that a handle names has an answer, and if it is granted a place. -/
theorem serve_resize_named (hs : s.Sound) (hn : s.Names handle pre b post) (supply : Supply)
    (size : Nat) :
    ∃ reply, serve ⟨some s⟩ supply (.resize handle size) = .ok reply ∧
      ∀ a, reply.answer = .ok a → 0 < size ∧ ∃ front back offset how arena,
        Space.Placed s pre post b size front back offset how ∧
        s.arena.Rewritten arena (s.carried b offset size) ∧
        a = .handle ⟨s.arena.id, offset, size⟩ ∧
        reply.log = [.resized b.start offset size how] ∧
        reply.state = (⟨some { s with arena, layout := ⟨front ++ ⟨offset, size⟩ :: back⟩ }⟩,
          supply) := by
  obtain ⟨r, hr, hcase⟩ := hn.resize_cases hs size
  refine ⟨_, serve_resize hr, fun a ha => ?_⟩
  rcases hcase with ⟨e, -, rfl⟩ | ⟨-, -, gap, -, rfl⟩ |
    ⟨hassess, front, back, offset, how, arena, hplace, hbytes, rfl⟩
  · exact nomatch ha
  · exact nomatch ha
  · have hsize := (Space.assess_eq_ok.1 hassess).1
    rw [hn.start]
    exact ⟨hsize, front, back, offset, how, arena, hplace, hbytes, (Except.ok.inj ha).symm,
      rfl, rfl⟩

/-- A run of requests that leaves a pool live, and what can be seen of it then. -/
theorem reached_of_any (rs : List Request) (f : Space → Supply → Bool)
    (hf : (serveAll {} {} rs).toOption.any (fun last =>
      last.2.1.1.space?.any (f · last.2.1.2)) = true) :
    ∃ answers s supply log, serveAll {} {} rs = .ok (answers, (⟨some s⟩, supply), log) ∧
      Reached ⟨some s⟩ ∧ f s supply = true := by
  cases hrun : serveAll {} {} rs with
  | error fault => rw [hrun] at hf; exact nomatch hf
  | ok last =>
    rw [hrun] at hf
    obtain ⟨answers, ⟨⟨space?⟩, supply⟩, log⟩ := last
    cases space? with
    | none => exact nomatch hf
    | some s => exact ⟨answers, s, supply, log, rfl, Reached.new.serveAll hrun, hf⟩

/-- Resizing a block, on a pool that zeroes blocks or not: the arena is the same
but for the bytes of the block at its new place. Those that the block had come
along, also where the new place has bytes of the old one. -/
theorem bytes_of_resize (h : Reached ⟨some s⟩) (hn : s.Names handle pre b post)
    (supply : Supply) (size : Nat) :
    ∃ reply, serve ⟨some s⟩ supply (.resize handle size) = .ok reply ∧
      ∀ a, reply.answer = .ok a → ∃ offset s',
        a = .handle ⟨s.arena.id, offset, size⟩ ∧ reply.state = (⟨some s'⟩, supply) ∧
          s.Brought b offset size s'.arena := by
  have hs : s.Sound := sound_some.1 h.sound
  obtain ⟨reply, hserve, hplaced⟩ := serve_resize_named hs hn supply size
  refine ⟨reply, hserve, fun a ha => ?_⟩
  obtain ⟨-, front, back, offset, how, arena, hplace, hbytes, hnew, -, hstate⟩ := hplaced a ha
  exact ⟨offset, _, hnew, hstate, hplace.brought (hn.wellFormed hs) hbytes⟩

/-- A block that goes to a place that begins in front of it and has most of its
bytes. What it grew by shows the bytes it had there. -/
theorem bytes_of_resize_overlapping :
    let rs : List Request := [.initialise ⟨8, false⟩, .allocate 2, .allocate 3, .allocate 1,
      .free ⟨⟨1⟩, 0, 2⟩, .write ⟨⟨1⟩, 2, 3⟩ 0 [7, 8, 9], .write ⟨⟨1⟩, 5, 1⟩ 0 [6]]
    let handle : Handle := ⟨⟨1⟩, 2, 3⟩
    ∃ answers s supply log, serveAll {} {} rs = .ok (answers, (⟨some s⟩, supply), log) ∧
      s.Names handle [] ⟨2, 3⟩ [⟨5, 1⟩] ∧
      ∃ reply s', serve ⟨some s⟩ supply (.resize handle 5) = .ok reply ∧
        reply.answer = .ok (.handle ⟨⟨1⟩, 0, 5⟩) ∧ reply.state = (⟨some s'⟩, supply) ∧
        s.Brought ⟨2, 3⟩ 0 5 s'.arena ∧ s'.arena.slice 0 8 = [7, 8, 9, 8, 9, 6, 0, 0] := by
  intro rs handle
  have hlive := reached_of_any rs (fun s supply =>
    decide (s.arena.id = ⟨1⟩ ∧ s.layout.blocks = [⟨2, 3⟩, ⟨5, 1⟩]) &&
      (serve ⟨some s⟩ supply (.resize handle 5)).toOption.any fun reply =>
        decide (reply.answer = .ok (.handle ⟨⟨1⟩, 0, 5⟩) ∧
          reply.state.1.arena?.map (·.slice 0 8) = some [7, 8, 9, 8, 9, 6, 0, 0])) (by decide)
  obtain ⟨answers, s, supply, log, hrun, hreached, hs⟩ := hlive
  obtain ⟨hfacts, hreply⟩ := Bool.and_eq_true_iff.1 hs
  obtain ⟨hid, hblocks⟩ := of_decide_eq_true hfacts
  have hn : s.Names handle [] ⟨2, 3⟩ [⟨5, 1⟩] := ⟨hid.symm, rfl, hblocks⟩
  obtain ⟨reply, hserve, hbytes⟩ := bytes_of_resize hreached hn supply 5
  rw [hserve] at hreply
  obtain ⟨hanswer, hslice⟩ := of_decide_eq_true hreply
  obtain ⟨offset, s', hnew, hstate, hbrought⟩ := hbytes _ hanswer
  obtain ⟨-, rfl, -⟩ : (⟨1⟩ : ArenaId) = s.arena.id ∧ 0 = offset ∧ 5 = 5 := by
    simpa using hnew
  rw [hstate] at hslice
  exact ⟨answers, s, supply, log, hrun, hn, reply, s', hserve, hanswer, hstate, hbrought,
    Option.some.inj hslice⟩

/-- Resizing a block fails only if it must: there is a place for it exactly if
its new length is no longer than the widest gap without the block. -/
theorem room_of_resize (h : Reached ⟨some s⟩) (hn : s.Names handle pre b post) :
    ∃ widest, Layout.largestGap ⟨pre ++ post⟩ s.capacity = .ok widest ∧
      Layout.IsWidest (pre ++ post) s.capacity widest ∧
      ∀ supply size, ∃ reply, serve ⟨some s⟩ supply (.resize handle size) = .ok reply ∧
        s.Decided (pre ++ post) widest size reply.answer := by
  have hs : s.Sound := sound_some.1 h.sound
  obtain ⟨widest, hgap, hwidest⟩ :=
    Layout.largestGap_cases (l := ⟨pre ++ post⟩) (hn.wellFormed hs).erase hs.bound
  refine ⟨widest, hgap, hwidest, fun supply size => ?_⟩
  obtain ⟨r, hr, -⟩ := hn.resize_cases hs size
  exact ⟨_, serve_resize hr, hn.decided hs hr hgap hwidest⟩

/-- A block between two others has room up to its neighbours, and none beyond. -/
theorem room_of_resize_neighbours :
    let rs : List Request := [.initialise ⟨8, true⟩, .allocate 1, .allocate 2, .allocate 3,
      .allocate 1, .free ⟨⟨1⟩, 1, 2⟩]
    let handle : Handle := ⟨⟨1⟩, 3, 3⟩
    ∃ answers s supply log, serveAll {} {} rs = .ok (answers, (⟨some s⟩, supply), log) ∧
      s.Names handle [⟨0, 1⟩] ⟨3, 3⟩ [⟨6, 1⟩] ∧
      Layout.IsWidest [⟨0, 1⟩, ⟨6, 1⟩] s.capacity 5 ∧
      (∃ reply, serve ⟨some s⟩ supply (.resize handle 5) = .ok reply ∧
        ∃ new, reply.answer = .ok (.handle new)) ∧
      ∃ reply, serve ⟨some s⟩ supply (.resize handle 6) = .ok reply ∧
        reply.answer = .error (.outOfSpace 6 5) := by
  intro rs handle
  have hlive := reached_of_any rs (fun s _ => decide (s.arena.id = ⟨1⟩ ∧ s.capacity = 8 ∧
    s.layout.blocks = [⟨0, 1⟩, ⟨3, 3⟩, ⟨6, 1⟩])) (by decide)
  obtain ⟨answers, s, supply, log, hrun, hreached, hs⟩ := hlive
  obtain ⟨hid, hcapacity, hblocks⟩ := of_decide_eq_true hs
  have hn : s.Names handle [⟨0, 1⟩] ⟨3, 3⟩ [⟨6, 1⟩] := ⟨hid.symm, rfl, hblocks⟩
  obtain ⟨widest, hgap, hwidest, hdecided⟩ := room_of_resize hreached hn
  have hfive : Layout.largestGap ⟨[⟨0, 1⟩] ++ [⟨6, 1⟩]⟩ s.capacity = .ok 5 := by
    rw [hcapacity]
    decide
  obtain rfl : widest = 5 := Except.ok.inj (hgap.symm.trans hfive)
  obtain ⟨reply, hserve, hfits⟩ := hdecided supply 5
  obtain ⟨reply', hserve', hshort⟩ := hdecided supply 6
  exact ⟨answers, s, supply, log, hrun, hn, hwidest,
    ⟨reply, hserve, hfits.granted.2 (by decide)⟩,
    reply', hserve', hshort.crowded (by decide) (by omega)⟩

/-- A block that was resized is where its two ranges say, and is logged as what
they say. -/
theorem place_of_resize (h : Reached ⟨some s⟩) (hn : s.Names handle pre b post)
    (supply : Supply) (size : Nat) :
    ∃ reply, serve ⟨some s⟩ supply (.resize handle size) = .ok reply ∧
      ∀ a, reply.answer = .ok a → ∃ offset how,
        a = .handle ⟨s.arena.id, offset, size⟩ ∧
          reply.log = [.resized b.start offset size how] ∧
          s.Settled pre b post offset size how reply.state.1.blocks := by
  have hs : s.Sound := sound_some.1 h.sound
  obtain ⟨reply, hserve, hplaced⟩ := serve_resize_named hs hn supply size
  refine ⟨reply, hserve, fun a ha => ?_⟩
  obtain ⟨hsize, front, back, offset, how, arena, hplace, -, hnew, hlog, hstate⟩ := hplaced a ha
  rw [hstate]
  exact ⟨offset, how, hnew, hlog, hplace.settled hs hn hsize⟩

/-- A block goes to the end of the block in front of it, into its own bytes. -/
theorem place_of_resize_relocated :
    let rs : List Request := [.initialise ⟨8, true⟩, .allocate 1, .allocate 2, .allocate 3,
      .allocate 1, .free ⟨⟨1⟩, 1, 2⟩]
    let handle : Handle := ⟨⟨1⟩, 3, 3⟩
    ∃ answers s supply log, serveAll {} {} rs = .ok (answers, (⟨some s⟩, supply), log) ∧
      s.Names handle [⟨0, 1⟩] ⟨3, 3⟩ [⟨6, 1⟩] ∧
      ∃ reply, serve ⟨some s⟩ supply (.resize handle 5) = .ok reply ∧
        reply.answer = .ok (.handle ⟨⟨1⟩, 1, 5⟩) ∧
        reply.log = [.resized 3 1 5 .relocated] ∧
        s.Settled [⟨0, 1⟩] ⟨3, 3⟩ [⟨6, 1⟩] 1 5 .relocated reply.state.1.blocks := by
  intro rs handle
  have hlive := reached_of_any rs (fun s supply =>
    decide (s.arena.id = ⟨1⟩ ∧ s.layout.blocks = [⟨0, 1⟩, ⟨3, 3⟩, ⟨6, 1⟩]) &&
      (serve ⟨some s⟩ supply (.resize handle 5)).toOption.any fun reply =>
        decide (reply.answer = .ok (.handle ⟨⟨1⟩, 1, 5⟩) ∧
          reply.log = [.resized 3 1 5 .relocated])) (by decide)
  obtain ⟨answers, s, supply, log, hrun, hreached, hs⟩ := hlive
  obtain ⟨hfacts, hreply⟩ := Bool.and_eq_true_iff.1 hs
  obtain ⟨hid, hblocks⟩ := of_decide_eq_true hfacts
  have hn : s.Names handle [⟨0, 1⟩] ⟨3, 3⟩ [⟨6, 1⟩] := ⟨hid.symm, rfl, hblocks⟩
  obtain ⟨reply, hserve, hplace⟩ := place_of_resize hreached hn supply 5
  rw [hserve] at hreply
  obtain ⟨hanswer, hlog⟩ := of_decide_eq_true hreply
  obtain ⟨offset, how, -, hlog', hsettled⟩ := hplace _ hanswer
  obtain ⟨rfl, rfl⟩ : offset = 1 ∧ how = .relocated := by
    simpa using hlog'.symm.trans hlog
  exact ⟨answers, s, supply, log, hrun, hn, reply, hserve, hanswer, hlog, hsettled⟩

end Pool
end FirstFit
