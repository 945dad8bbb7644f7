/-
# What the operations of a space do

Each operation on a sound space has a result, and the result is one of a few
that are listed here with all they change: the split of the blocks that is
taken apart or put together, and every byte of the arena afterwards. What a
space keeps is read off these lists.

Key definitions: `Space.Sound`, `Space.Allocated`, `Space.Freed`,
`Space.Placed`, `Space.Resized`, `Space.Written`.
Key theorems: `allocate_cases`, `free_cases`, `resize_cases`, `write_cases`,
`read_eq`.
-/
import FirstFit.Pool.Space
import FirstFit.Proofs.Arena
import FirstFit.Proofs.Layout.Assertions
import FirstFit.Proofs.Layout.Gaps

namespace FirstFit
namespace Space

open Pool (Error Handle Growth)
open Layout (WellFormed IsFree IsFirstFit limit)

variable {s : Space} {h : Handle} {pre post : List Block} {b : Block} {size : Nat}

/-- The layout describes the use of the arena, and the arena is one that can be had. -/
structure Sound (s : Space) : Prop where
  wellFormed : WellFormed s.layout.blocks s.capacity
  small : s.capacity ≤ Arena.maxCapacity

theorem Sound.bound (hs : s.Sound) : s.capacity < Size.bound :=
  Nat.lt_of_le_of_lt hs.small (by decide)

theorem Sound.mono (hs : s.Sound) {s' : Space} (hc : s'.capacity = s.capacity)
    (hw : WellFormed s'.layout.blocks s.capacity) : s'.Sound :=
  ⟨hc ▸ hw, hc ▸ hs.small⟩

/-- `s'` has the arena of `s`, whatever its bytes, and zeroes blocks if `s` does. -/
structure Continues (s s' : Space) : Prop where
  id : s'.arena.id = s.arena.id
  capacity : s'.capacity = s.capacity
  zeroing : s'.zeroing = s.zeroing

theorem Continues.refl (s : Space) : s.Continues s := ⟨rfl, rfl, rfl⟩

theorem continues_rewritten {a : Arena} {f : Nat → UInt8} (hbytes : s.arena.Rewritten a f)
    (l : Layout) : s.Continues { s with arena := a, layout := l } :=
  ⟨hbytes.id, hbytes.capacity, rfl⟩

/-! ### Zeroing and settling -/

theorem zeroTail_eq (hs : s.Sound) (start first last : Nat) (hl : start + last ≤ s.capacity) :
    ∃ a, s.zeroTail start first last = .ok { s with arena := a } ∧
      s.arena.Rewritten a fun i =>
        if s.zeroing = true ∧ start + first ≤ i ∧ i < start + last then 0 else s.arena.byte i := by
  have hb := hs.bound
  by_cases hz : s.zeroing ∧ first < last
  · have hin : s.arena.Holds (start + first) (last - first) := by
      show start + first + (last - first) ≤ s.capacity
      omega
    refine ⟨_, by rw [zeroTail, if_pos hz, Size.add_of_lt (by omega), Checked.ok_bind,
      Size.sub_of_le (by omega), Checked.ok_bind, Arena.fill_eq hin, Checked.ok_bind]; rfl, ?_⟩
    rw [← List.length_replicate (n := last - first) (a := (0 : UInt8))] at hin
    apply (Arena.rewritten_written hin).congr
    intro i
    by_cases hi : start + first ≤ i ∧ i < start + last
    · rw [List.length_replicate, if_pos (by omega), if_pos ⟨hz.1, hi⟩,
        List.getD_eq_getElem?_getD, List.getElem?_replicate]
      split <;> rfl
    · rw [List.length_replicate, if_neg (by omega), if_neg fun hc => hi hc.2]
  · refine ⟨s.arena, by rw [zeroTail, if_neg hz]; rfl, (Arena.Rewritten.refl _).congr ?_⟩
    intro i
    rw [if_neg fun hc => hz ⟨hc.1, by omega⟩]

theorem settle_eq (hs : s.Sound) (old : List UInt8) (hold : old.length ≤ b.len)
    (hstop : b.stop ≤ s.capacity) :
    ∃ a, s.settle old b = .ok { s with arena := a } ∧
      s.arena.Rewritten a fun i =>
        if b.start ≤ i ∧ i < b.start + old.length then old.getD (i - b.start) 0
        else if s.zeroing = true ∧ b.start + old.length ≤ i ∧ i < b.stop then 0
        else s.arena.byte i := by
  have hin : s.arena.Holds b.start old.length := by
    show b.start + old.length ≤ s.capacity
    simp only [Block.stop] at hstop
    omega
  have hstored := Arena.rewritten_written hin
  have hs' : Sound { s with arena := s.arena.written b.start old } :=
    hs.mono hstored.capacity hs.wellFormed
  obtain ⟨a, ha, hbytes⟩ := zeroTail_eq hs' b.start old.length b.len
    (Nat.le_trans hstop (Nat.le_of_eq hstored.capacity.symm))
  refine ⟨a, by rw [settle, Arena.store_eq hin, Checked.ok_bind, ha],
    hbytes.id.trans hstored.id, hbytes.capacity.trans hstored.capacity, ?_⟩
  intro i
  rw [hbytes.byte, hstored.byte]
  by_cases h1 : b.start ≤ i ∧ i < b.start + old.length
  · rw [if_pos h1, if_pos h1, if_neg (by omega)]
  · rw [if_neg h1, if_neg h1]
    rfl

/-! ### Handles -/

/-- A handle names the block that starts at its offset, if its arena is this one. -/
theorem locate?_eq_some (hs : s.Sound) {i : Nat} :
    s.locate? h = some (i, b) ↔ h.arena = s.arena.id ∧
      ∃ pre post, s.layout.blocks = pre ++ b :: post ∧ b.start = h.offset ∧ i = pre.length := by
  unfold locate?
  by_cases ha : h.arena = s.arena.id
  · rw [if_pos ha]
    constructor
    · intro hl
      cases hp : s.layout.position? h.offset with
      | none => rw [hp] at hl; exact nomatch hl
      | some j =>
        rw [hp] at hl
        obtain ⟨pre, c, post, hsplit, hc, rfl⟩ := (Layout.position?_eq_some hs.wellFormed).1 hp
        simp only [Layout.get?_append hsplit, Option.map_some, Option.some.injEq,
          Prod.mk.injEq] at hl
        exact ⟨ha, pre, post, hl.2 ▸ hsplit, hl.2 ▸ hc, hl.1.symm⟩
    · rintro ⟨-, pre, post, hsplit, hb, rfl⟩
      have hp := (Layout.position?_eq_some hs.wellFormed).2 ⟨pre, b, post, hsplit, hb, rfl⟩
      simp only [hp, Layout.get?_append hsplit, Option.map_some]
  · rw [if_neg ha]
    exact ⟨fun hl => (nomatch hl), fun hl => absurd hl.1 ha⟩

theorem locate?_append (hs : s.Sound) (ha : h.arena = s.arena.id)
    (hsplit : s.layout.blocks = pre ++ b :: post) (hb : b.start = h.offset) :
    s.locate? h = some (pre.length, b) :=
  (locate?_eq_some hs).2 ⟨ha, pre, post, hsplit, hb, rfl⟩

theorem locate?_eq_none (hs : s.Sound) :
    s.locate? h = none ↔ h.arena = s.arena.id → ∀ b ∈ s.layout.blocks, b.start ≠ h.offset := by
  constructor
  · intro hl ha b hb he
    obtain ⟨pre, post, hsplit⟩ := List.append_of_mem hb
    rw [locate?_append hs ha hsplit he] at hl
    exact nomatch hl
  · intro hn
    cases hl : s.locate? h with
    | none => rfl
    | some p =>
      obtain ⟨ha, pre, post, hsplit, hb, -⟩ := (locate?_eq_some (b := p.2) hs).1 hl
      exact absurd hb (hn ha p.2 (hsplit ▸ List.mem_append_right _ List.mem_cons_self))

/-! ### Allocating and freeing -/

theorem assess_eq_ok : s.assess size = .ok () ↔ 0 < size ∧ size ≤ s.capacity := by
  rw [assess]
  by_cases h0 : size = 0
  · rw [if_pos h0]
    exact ⟨fun h => (nomatch h), fun h => absurd h0 (Nat.ne_of_gt h.1)⟩
  · by_cases hc : s.capacity < size
    · rw [if_neg h0, if_pos hc]
      exact ⟨fun h => (nomatch h), fun h => absurd h.2 (Nat.not_le_of_lt hc)⟩
    · rw [if_neg h0, if_neg hc]
      exact ⟨fun _ => ⟨Nat.pos_of_ne_zero h0, Nat.le_of_not_lt hc⟩, fun _ => rfl⟩

/-- What becomes of a request for `size` bytes. -/
inductive Allocated (s : Space) (size : Nat) : Except Error Handle × Space → Prop
  | refused {e : Error} (ha : s.assess size = .error e) : Allocated s size (.error e, s)
  | outOfSpace {gap : Nat} (ha : s.assess size = .ok ())
      (hgap : s.layout.largestGap s.capacity = .ok gap)
      (hnone : ∀ o, ¬ IsFree s.layout.blocks s.capacity o size) :
      Allocated s size (.error (.outOfSpace size gap), s)
  | placed {pre post : List Block} {offset : Nat} {arena : Arena} (ha : s.assess size = .ok ())
      (hsplit : s.layout.blocks = pre ++ post)
      (hfit : IsFirstFit pre post size s.capacity offset)
      (hbytes : s.arena.Rewritten arena fun i =>
        if s.zeroing = true ∧ offset ≤ i ∧ i < offset + size then 0 else s.arena.byte i) :
      Allocated s size (.ok (s.handle ⟨offset, size⟩),
        { s with arena, layout := ⟨pre ++ ⟨offset, size⟩ :: post⟩ })

theorem allocate_cases (hs : s.Sound) (size : Nat) :
    ∃ r, s.allocate size = .ok r ∧ s.Allocated size r := by
  cases ha : s.assess size with
  | error e => exact ⟨_, by simp only [allocate, ha]; rfl, .refused ha⟩
  | ok u =>
    obtain ⟨hsize, -⟩ := assess_eq_ok.1 ha
    rcases Layout.firstFit_cases hs.wellFormed hs.bound hsize with
      ⟨pre, post, offset, hsplit, hfound, hfit⟩ | ⟨hfound, hnone⟩
    · have hs' : Sound { s with layout := ⟨pre ++ ⟨offset, size⟩ :: post⟩ } :=
        hs.mono rfl (hfit.wellFormed (hsplit ▸ hs.wellFormed) hsize)
      have hinsert := hfit.insertAt_eq hs.wellFormed hs.bound hsize hsplit
      obtain ⟨arena, hz, hbytes⟩ := zeroTail_eq hs' offset 0 size hfit.inside
      refine ⟨_, ?_, .placed ha hsplit hfit hbytes⟩
      simp only [allocate, ha, hfound, Checked.ok_bind, hinsert, hz]
      have : handle { s with arena, layout := ⟨pre ++ ⟨offset, size⟩ :: post⟩ } ⟨offset, size⟩ =
          s.handle ⟨offset, size⟩ := by rw [handle, handle, hbytes.id]
      rw [this]
      rfl
    · obtain ⟨gap, hgap⟩ := Layout.largestGap_ok hs.wellFormed hs.bound
      refine ⟨_, ?_, .outOfSpace ha hgap hnone⟩
      simp only [allocate, ha, hfound, Checked.ok_bind, hgap]
      rfl

theorem Allocated.sound {r : Except Error Handle × Space} (hs : s.Sound)
    (hr : s.Allocated size r) : r.2.Sound := by
  cases hr with
  | refused => exact hs
  | outOfSpace => exact hs
  | placed ha hsplit hfit hbytes =>
    exact hs.mono hbytes.capacity
      (hfit.wellFormed (hsplit ▸ hs.wellFormed) (assess_eq_ok.1 ha).1)

theorem Allocated.continues {r : Except Error Handle × Space} (hr : s.Allocated size r) :
    s.Continues r.2 := by
  cases hr with
  | refused => exact .refl s
  | outOfSpace => exact .refl s
  | placed _ _ _ hbytes => exact continues_rewritten hbytes _

/-- What becomes of a block that is given back. -/
inductive Freed (s : Space) (h : Handle) : Except Error Block × Space → Prop
  | invalid (hl : s.locate? h = none) : Freed s h (.error (.invalidHandle h.offset), s)
  | freed {pre post : List Block} {b : Block} (ha : h.arena = s.arena.id)
      (hb : b.start = h.offset) (hsplit : s.layout.blocks = pre ++ b :: post) :
      Freed s h (.ok b, { s with layout := ⟨pre ++ post⟩ })

theorem free_cases (hs : s.Sound) (h : Handle) : ∃ r, s.free h = .ok r ∧ s.Freed h r := by
  cases hl : s.locate? h with
  | none => exact ⟨_, by simp only [free, hl]; rfl, .invalid hl⟩
  | some p =>
    obtain ⟨ha, pre, post, hsplit, hb, hi⟩ := (locate?_eq_some (i := p.1) (b := p.2) hs).1 hl
    refine ⟨_, ?_, .freed ha hb hsplit⟩
    simp only [free, hl, hi, Layout.removeAt_append hsplit, Checked.ok_bind]
    rfl

theorem Freed.sound {r : Except Error Block × Space} (hs : s.Sound) (hr : s.Freed h r) :
    r.2.Sound := by
  cases hr with
  | invalid => exact hs
  | freed _ _ hsplit => exact hs.mono rfl (WellFormed.erase (hsplit ▸ hs.wellFormed))

theorem Freed.continues {r : Except Error Block × Space} (hr : s.Freed h r) :
    s.Continues r.2 := by
  cases hr with
  | invalid => exact .refl s
  | freed => exact ⟨rfl, rfl, rfl⟩

/-! ### Resizing -/

/-- Where the block `b` between `pre` and `post` goes to have `size` bytes: to
`offset`, behind the blocks of `front` and before those of `back`. -/
inductive Placed (s : Space) (pre post : List Block) (b : Block) (size : Nat) :
    List Block → List Block → Nat → Growth → Prop
  | shrunk (hsize : size ≤ b.len) : Placed s pre post b size pre post b.start .shrunk
  | inPlace (hsize : b.len < size) (hroom : b.start + size ≤ limit post s.capacity) :
      Placed s pre post b size pre post b.start .inPlace
  | moved {front back front' back' : List Block} {offset : Nat}
      (hroom : limit post s.capacity < b.start + size)
      (hsplit : pre ++ b :: post = front ++ back)
      (hfit : IsFirstFit front back size s.capacity offset)
      (hrest : pre ++ post = front' ++ back') (hfront : front'.Sublist front)
      (hback : back'.Sublist back) :
      Placed s pre post b size front' back' offset .moved
  | relocated {front back : List Block} {offset : Nat}
      (hroom : limit post s.capacity < b.start + size)
      (hnone : ∀ o, ¬ IsFree (pre ++ b :: post) s.capacity o size)
      (hrest : pre ++ post = front ++ back)
      (hfit : IsFirstFit front back size s.capacity offset) :
      Placed s pre post b size front back offset .relocated

/-- The bytes once the block `b` has `size` bytes at `offset`: what it keeps
comes along, and what it grew by is zero if this space zeroes blocks. -/
def carried (s : Space) (b : Block) (offset size i : Nat) : UInt8 :=
  if offset ≤ i ∧ i < offset + min b.len size then s.arena.byte (b.start + (i - offset))
  else if s.zeroing = true ∧ offset + b.len ≤ i ∧ i < offset + size then 0
  else s.arena.byte i

/-- What becomes of a block that is to have `size` bytes. -/
inductive Resized (s : Space) (h : Handle) (size : Nat) :
    Except Error (Handle × Growth) × Space → Prop
  | invalid (hl : s.locate? h = none) : Resized s h size (.error (.invalidHandle h.offset), s)
  | refused {p : Nat × Block} {e : Error} (hl : s.locate? h = some p)
      (ha : s.assess size = .error e) : Resized s h size (.error e, s)
  | outOfSpace {pre post : List Block} {b : Block} {gap : Nat}
      (hl : s.locate? h = some (pre.length, b)) (ha : s.assess size = .ok ())
      (hsplit : s.layout.blocks = pre ++ b :: post)
      (hgap : Layout.largestGap ⟨pre ++ post⟩ s.capacity = .ok gap)
      (hnone : ∀ o, ¬ IsFree (pre ++ post) s.capacity o size) :
      Resized s h size (.error (.outOfSpace size gap), s)
  | done {pre post front back : List Block} {b : Block} {offset : Nat} {how : Growth}
      {arena : Arena} (hl : s.locate? h = some (pre.length, b)) (ha : s.assess size = .ok ())
      (hsplit : s.layout.blocks = pre ++ b :: post)
      (hplace : Placed s pre post b size front back offset how)
      (hbytes : s.arena.Rewritten arena (s.carried b offset size)) :
      Resized s h size (.ok (s.handle ⟨offset, size⟩, how),
        { s with arena, layout := ⟨front ++ ⟨offset, size⟩ :: back⟩ })

/-- A block finds room between the blocks that stay. -/
theorem Placed.fits {front back : List Block} {offset : Nat} {how : Growth}
    (hp : Placed s pre post b size front back offset how)
    (hw : WellFormed (pre ++ b :: post) s.capacity) :
    pre ++ post = front ++ back ∧ (∀ a ∈ front, a.stop ≤ offset) ∧
      (∀ c ∈ back, offset + size ≤ c.start) ∧ offset + size ≤ s.capacity := by
  have hpost := hw.sublist ((List.sublist_cons_self _ _).trans (List.sublist_append_right _ _))
  cases hp with
  | shrunk hsize =>
    refine ⟨rfl, fun a ha => hw.before ha, ?_, ?_⟩
    · intro c hc
      have := hw.behind hc
      simp only [Block.stop] at this
      omega
    · have := hw.inside b hw.mem_split
      simp only [Block.stop] at this
      omega
  | inPlace hsize hroom =>
    refine ⟨rfl, fun a ha => hw.before ha, ?_, ?_⟩
    · intro c hc
      exact Nat.le_trans hroom (Layout.limit_le_start hpost hc)
    · exact Nat.le_trans hroom (Layout.limit_le hpost)
  | moved _ _ hfit hrest hfront hback =>
    exact ⟨hrest, fun a ha => hfit.before a (hfront.subset ha),
      fun c hc => hfit.behind c (hback.subset hc), hfit.inside⟩
  | relocated _ _ hrest hfit => exact ⟨hrest, hfit.before, hfit.behind, hfit.inside⟩

theorem Placed.wellFormed {front back : List Block} {offset : Nat} {how : Growth}
    (hp : Placed s pre post b size front back offset how)
    (hw : WellFormed (pre ++ b :: post) s.capacity) (hsize : 0 < size) :
    WellFormed (front ++ ⟨offset, size⟩ :: back) s.capacity := by
  obtain ⟨hrest, hfront, hback, hin⟩ := hp.fits hw
  exact (hrest ▸ hw.erase).insert hsize hin hfront hback

theorem Resized.sound {r : Except Error (Handle × Growth) × Space} (hs : s.Sound)
    (hr : s.Resized h size r) : r.2.Sound := by
  cases hr with
  | invalid => exact hs
  | refused => exact hs
  | outOfSpace => exact hs
  | done _ ha hsplit hplace hbytes =>
    exact hs.mono hbytes.capacity
      (hplace.wellFormed (hsplit ▸ hs.wellFormed) (assess_eq_ok.1 ha).1)

theorem Resized.continues {r : Except Error (Handle × Growth) × Space}
    (hr : s.Resized h size r) : s.Continues r.2 := by
  cases hr with
  | invalid => exact .refl s
  | refused => exact .refl s
  | outOfSpace => exact .refl s
  | done _ _ _ _ hbytes => exact continues_rewritten hbytes _

/-- The old bytes of a grown block, settled at its new place. -/
theorem settle_carried {s' : Space} (hs' : s'.Sound) (ha : s'.arena = s.arena)
    (hz : s'.zeroing = s.zeroing) {offset : Nat} (hsize : b.len ≤ size)
    (hin : offset + size ≤ s.capacity) :
    ∃ a, s'.settle (s.arena.slice b.start b.len) ⟨offset, size⟩ = .ok { s' with arena := a } ∧
      s.arena.Rewritten a (s.carried b offset size) := by
  obtain ⟨a, hset, hbytes⟩ := settle_eq (b := ⟨offset, size⟩) hs' (s.arena.slice b.start b.len)
    (by rw [Arena.length_slice]; exact hsize)
    (Nat.le_trans hin (Nat.le_of_eq (congrArg Arena.capacity ha.symm)))
  refine ⟨a, hset, hbytes.id.trans (congrArg Arena.id ha),
    hbytes.capacity.trans (congrArg Arena.capacity ha), ?_⟩
  intro i
  rw [hbytes.byte, carried, Arena.length_slice, ha, hz, Nat.min_eq_left hsize]
  dsimp only
  by_cases hi : offset ≤ i ∧ i < offset + b.len
  · rw [if_pos hi, if_pos hi, Arena.getD_slice _ _ _ _ (by omega)]
  · rw [if_neg hi, if_neg hi]
    rfl

theorem move_cases (hs : s.Sound) (hl : s.locate? h = some (pre.length, b))
    (ha : s.assess size = .ok ()) (hsplit : s.layout.blocks = pre ++ b :: post)
    (hroom : limit post s.capacity < b.start + size) :
    ∃ r, s.move pre.length b size = .ok r ∧ s.Resized h size r := by
  have hw : WellFormed (pre ++ b :: post) s.capacity := hsplit ▸ hs.wellFormed
  obtain ⟨hsize, -⟩ := assess_eq_ok.1 ha
  have hstop := hw.inside b hw.mem_split
  have hlen : b.len ≤ size := by
    have := Layout.stop_le_limit hw
    simp only [Block.stop] at this
    omega
  have hload : s.arena.load b.start b.len = .ok (s.arena.slice b.start b.len) :=
    Arena.load_eq hstop
  simp only [move, hload, Checked.ok_bind]
  rcases Layout.firstFit_cases hs.wellFormed hs.bound hsize with
    ⟨front, back, offset, hfb, hfound, hfit⟩ | ⟨hfound, hnone⟩
  · -- a gap that is free now
    have hs' : Sound { s with layout := ⟨front ++ ⟨offset, size⟩ :: back⟩ } :=
      hs.mono rfl (hfit.wellFormed (hfb ▸ hs.wellFormed) hsize)
    obtain ⟨a, hset, hbytes⟩ := settle_carried hs' rfl rfl hlen hfit.inside
    obtain ⟨front', back', hrest, hfront, hback, hrem⟩ :=
      Layout.removeAt_insert (hsplit.symm.trans hfb) ⟨offset, size⟩
    have hshift : Layout.shifted front.length pre.length =
        .ok (if front.length ≤ pre.length then pre.length + 1 else pre.length) := by
      rw [Layout.shifted, Size.add_of_lt (Nat.lt_of_le_of_lt hw.position_le hs.bound)]
      split <;> rfl
    refine ⟨_, ?_, .done hl ha hsplit
      (.moved hroom (hsplit.symm.trans hfb) hfit hrest hfront hback) hbytes⟩
    simp only [hfound, Checked.ok_bind,
      hfit.insertAt_eq hs.wellFormed hs.bound hsize hfb, hset, hshift, hrem]
    simp only [handle, hbytes.id]
    rfl
  · have hwithout := Layout.removeAt_append hsplit
    simp only [hfound, hwithout, Checked.ok_bind]
    rcases Layout.firstFit_cases (l := ⟨pre ++ post⟩) hw.erase hs.bound hsize with
      ⟨front, back, offset, hfb, hfound', hfit⟩ | ⟨hfound', hnone'⟩
    · -- a gap that is free once the block is taken out
      have hs' : Sound { s with layout := ⟨front ++ ⟨offset, size⟩ :: back⟩ } :=
        hs.mono rfl (hfit.wellFormed (hfb ▸ hw.erase) hsize)
      obtain ⟨a, hset, hbytes⟩ := settle_carried hs' rfl rfl hlen hfit.inside
      refine ⟨_, ?_, .done hl ha hsplit (.relocated hroom (hsplit ▸ hnone) hfb hfit) hbytes⟩
      simp only [hfound', Checked.ok_bind,
        hfit.insertAt_eq (l := ⟨pre ++ post⟩) hw.erase hs.bound hsize hfb, hset]
      simp only [handle, hbytes.id]
      rfl
    · obtain ⟨gap, hgap⟩ := Layout.largestGap_ok (l := ⟨pre ++ post⟩) hw.erase hs.bound
      refine ⟨_, ?_, .outOfSpace hl ha hsplit hgap hnone'⟩
      simp only [hfound', Checked.ok_bind, hgap, hw.insertAt_erased hs.bound, ← hsplit]
      rfl

/-- What is carried to the place where it is already stays as it is. -/
theorem carried_start {i : Nat} (hi : b.start ≤ i ∧ i < b.start + min b.len size) :
    s.carried b b.start size i = s.arena.byte i := by
  unfold carried
  rw [if_pos hi, Nat.add_sub_cancel' hi.1]

theorem resize_shrunk (hs : s.Sound) (hl : s.locate? h = some (pre.length, b))
    (ha : s.assess size = .ok ()) (hsplit : s.layout.blocks = pre ++ b :: post) (hshrink : size ≤ b.len) :
    ∃ r, s.resize h size = .ok r ∧ s.Resized h size r := by
  have hbytes : s.arena.Rewritten s.arena (s.carried b b.start size) := by
    apply (Arena.Rewritten.refl s.arena).congr
    intro i
    by_cases hi : b.start ≤ i ∧ i < b.start + min b.len size
    · rw [carried_start hi]
    · unfold carried
      rw [if_neg hi, if_neg (by omega)]
  refine ⟨_, ?_, .done hl ha hsplit (.shrunk hshrink) hbytes⟩
  have hset := WellFormed.setLen_shrunk (hsplit ▸ hs.wellFormed) hs.bound hsplit hshrink
  simp only [resize, hl, ha, if_pos hshrink, hset, Checked.ok_bind]
  rfl

/-- A block that grows stays in its place if the gap behind it has room. -/
theorem resize_grown (hs : s.Sound) (hl : s.locate? h = some (pre.length, b))
    (ha : s.assess size = .ok ()) (hsplit : s.layout.blocks = pre ++ b :: post)
    (hgrow : b.len < size) : ∃ r, s.resize h size = .ok r ∧ s.Resized h size r := by
  have hw : WellFormed (pre ++ b :: post) s.capacity := hsplit ▸ hs.wellFormed
  have hstop := Layout.stop_le_limit hw
  have hlimit := Layout.limit_le
    (hw.sublist ((List.sublist_cons_self _ _).trans (List.sublist_append_right _ _)))
  have hbound := hs.bound
  have hgap : s.layout.gapAfter pre.length s.capacity =
      .ok (limit post s.capacity - b.stop) := Layout.gapAfter_append hsplit hw hbound
  simp only [Block.stop] at hstop
  have hroom : Size.add b.len (limit post s.capacity - b.stop) =
      .ok (limit post s.capacity - b.start) := by
    have hsum : b.len + (limit post s.capacity - b.stop) = limit post s.capacity - b.start := by
      simp only [Block.stop]
      omega
    rw [Size.add_of_lt (by omega), hsum]
  simp only [resize, hl, ha, if_neg (Nat.not_le.2 hgrow), hgap, hroom, Checked.ok_bind]
  by_cases hfit : size ≤ limit post s.capacity - b.start
  · have hplace : Placed s pre post b size pre post b.start .inPlace :=
      .inPlace hgrow (by omega)
    have hs' : Sound { s with layout := ⟨pre ++ ⟨b.start, size⟩ :: post⟩ } :=
      hs.mono rfl (hplace.wellFormed hw (assess_eq_ok.1 ha).1)
    have hset : s.layout.setLen pre.length size = .ok ⟨pre ++ ⟨b.start, size⟩ :: post⟩ :=
      hw.setLen_grown hbound hsplit (by omega)
    obtain ⟨a, hz, hbytes⟩ := zeroTail_eq hs' b.start b.len size (hplace.fits hw).2.2.2
    refine ⟨_, ?_, .done hl ha hsplit hplace (hbytes.congr ?_)⟩
    · rw [if_pos hfit, hset, Checked.ok_bind, hz, Checked.ok_bind]
      simp only [handle, hbytes.id]
      rfl
    · intro i
      by_cases hi : b.start ≤ i ∧ i < b.start + min b.len size
      · rw [carried_start hi, if_neg (by omega)]
      · unfold carried
        rw [if_neg hi]
  · rw [if_neg hfit]
    exact move_cases hs hl ha hsplit (by omega)

theorem resize_cases (hs : s.Sound) (h : Handle) (size : Nat) :
    ∃ r, s.resize h size = .ok r ∧ s.Resized h size r := by
  cases hl : s.locate? h with
  | none => exact ⟨_, by simp only [resize, hl]; rfl, .invalid hl⟩
  | some p =>
    cases ha : s.assess size with
    | error e => exact ⟨_, by simp only [resize, hl, ha]; rfl, .refused hl ha⟩
    | ok u =>
      obtain ⟨i, b⟩ := p
      obtain ⟨-, pre, post, hsplit, -, rfl⟩ := (locate?_eq_some hs).1 hl
      by_cases hshrink : size ≤ b.len
      · exact resize_shrunk hs hl ha hsplit hshrink
      · exact resize_grown hs hl ha hsplit (Nat.lt_of_not_le hshrink)

/-! ### Reading and writing -/

theorem read_eq (hs : s.Sound) (hl : s.locate? h = some (pre.length, b))
    (hsplit : s.layout.blocks = pre ++ b :: post) :
    s.read h = .ok (.ok (s.arena.slice b.start b.len)) := by
  have hstop := hs.wellFormed.inside b (hsplit ▸ List.mem_append_right _ List.mem_cons_self)
  have hload : s.arena.load b.start b.len = .ok (s.arena.slice b.start b.len) :=
    Arena.load_eq hstop
  simp only [read, hl, hload, Checked.ok_bind]
  rfl

theorem read_eq_invalid (hl : s.locate? h = none) :
    s.read h = .ok (.error (.invalidHandle h.offset)) := by
  simp only [read, hl]
  rfl

theorem read_ok (hs : s.Sound) (h : Handle) : ∃ answer, s.read h = .ok answer := by
  cases hl : s.locate? h with
  | none => exact ⟨_, read_eq_invalid hl⟩
  | some p =>
    obtain ⟨i, b⟩ := p
    obtain ⟨-, pre, post, hsplit, -, rfl⟩ := (locate?_eq_some hs).1 hl
    exact ⟨_, read_eq hs hl hsplit⟩

/-- What becomes of bytes that are to be written from byte `offset` of a block on. -/
inductive Written (s : Space) (h : Handle) (offset : Nat) (bytes : List UInt8) :
    Except Error Unit × Space → Prop
  | invalid (hl : s.locate? h = none) :
      Written s h offset bytes (.error (.invalidHandle h.offset), s)
  | outOfBounds {p : Nat × Block} (hl : s.locate? h = some p)
      (hlen : p.2.len < offset + bytes.length) :
      Written s h offset bytes
        (.error (.outOfBounds p.2.start (Size.addCapped offset bytes.length) p.2.len), s)
  | written {pre post : List Block} {b : Block} (hl : s.locate? h = some (pre.length, b))
      (hsplit : s.layout.blocks = pre ++ b :: post) (hlen : offset + bytes.length ≤ b.len) :
      Written s h offset bytes
        (.ok (), { s with arena := s.arena.written (b.start + offset) bytes })

/-- Capping a sum does not change how it compares with the length of a block. -/
theorem lt_addCapped {x y : Nat} (hb : b.len ≤ s.capacity) (hs : s.Sound) :
    b.len < Size.addCapped x y ↔ b.len < x + y := by
  have := hs.small
  simp only [Size.addCapped, Size.bound, Arena.maxCapacity, UInt64.size] at this ⊢
  omega

theorem write_cases (hs : s.Sound) (h : Handle) (offset : Nat) (bytes : List UInt8) :
    ∃ r, s.write h offset bytes = .ok r ∧ s.Written h offset bytes r := by
  cases hl : s.locate? h with
  | none => exact ⟨_, by simp only [write, hl]; rfl, .invalid hl⟩
  | some p =>
    obtain ⟨i, b⟩ := p
    obtain ⟨-, pre, post, hsplit, -, rfl⟩ := (locate?_eq_some hs).1 hl
    have hstop := hs.wellFormed.inside b (hsplit ▸ List.mem_append_right _ List.mem_cons_self)
    simp only [Block.stop] at hstop
    have hcap : b.len < Size.addCapped offset bytes.length ↔ b.len < offset + bytes.length :=
      lt_addCapped (by omega) hs
    by_cases hlen : b.len < offset + bytes.length
    · exact ⟨_, by simp only [write, hl, if_pos (hcap.2 hlen)]; rfl, .outOfBounds hl hlen⟩
    · have hin : s.arena.Holds (b.start + offset) bytes.length := by
        show b.start + offset + bytes.length ≤ s.capacity
        omega
      have hbound := hs.bound
      refine ⟨_, ?_, .written hl hsplit (by omega)⟩
      simp only [write, hl, if_neg fun hc => hlen (hcap.1 hc), Size.add_of_lt
        (show b.start + offset < Size.bound by omega), Checked.ok_bind, Arena.store_eq hin]
      rfl

theorem Written.sound {offset : Nat} {bytes : List UInt8} {r : Except Error Unit × Space}
    (hs : s.Sound) (hr : s.Written h offset bytes r) : r.2.Sound := by
  cases hr with
  | invalid => exact hs
  | outOfBounds => exact hs
  | written => exact hs.mono Arena.capacity_written hs.wellFormed

theorem Written.continues {offset : Nat} {bytes : List UInt8} {r : Except Error Unit × Space}
    (hr : s.Written h offset bytes r) : s.Continues r.2 := by
  cases hr with
  | invalid => exact .refl s
  | outOfBounds => exact .refl s
  | written => exact ⟨Arena.id_written, Arena.capacity_written, rfl⟩

/-! ### Measuring -/

theorem stats_eq (hs : s.Sound) {gap : Nat} (hgap : s.layout.largestGap s.capacity = .ok gap) :
    s.stats = .ok ⟨s.capacity, (s.layout.blocks.map Block.len).sum,
      s.capacity - (s.layout.blocks.map Block.len).sum, s.layout.size, gap⟩ := by
  have hused := Layout.sum_le 0 hs.wellFormed (fun _ _ => Nat.zero_le _) (Nat.zero_le _)
  unfold stats
  rw [Layout.used_eq hs.wellFormed hs.bound, Checked.ok_bind, Size.sub_of_le (by omega),
    Checked.ok_bind, hgap]
  rfl

end Space
end FirstFit
