/-
# A pool that zeroes is a map of byte strings

The contents of a pool are a map from the offsets of its blocks to their
bytes. A run of requests on the blocks is followed by updates of the map: what
is granted is a key with zero bytes, what is written replaces bytes of one
key, a block that is resized takes its string along, and what is given back is
no key any more. So no request on a block ever changes the bytes of another.

Key definitions: `Pool.Contents`, `Contents.after`, `Contents.Allows`,
`Pool.Follows`.
Key theorems: `serve_carries`, `follows_of_carries`, `follows_contents`.
-/
import Mathlib.Logic.Function.Basic
import FirstFit.Proofs.Pool.Run

namespace FirstFit
namespace Pool

/-- The bytes of each block, by the offset of the block. -/
abbrev Contents := Nat → Option (List UInt8)

namespace Contents

/-- Bytes cut to `size`, or followed by zero bytes up to `size`. -/
def fitted (size : Nat) (bytes : List UInt8) : List UInt8 :=
  bytes.take size ++ List.replicate (size - bytes.length) 0

/-- Bytes with `new` in the place of those from `offset` on. -/
def patched (offset : Nat) (new bytes : List UInt8) : List UInt8 :=
  bytes.take offset ++ new ++ bytes.drop (offset + new.length)

/-- The map after a request on the blocks was answered. -/
def after (m : Contents) : Request → Except Error Answer → Contents
  | .allocate size, .ok (.handle h) =>
    Function.update m h.offset (some (List.replicate size 0))
  | .free h, .ok _ => Function.update m h.offset none
  | .resize h size, .ok (.handle new) =>
    Function.update (Function.update m h.offset none) new.offset
      ((m h.offset).map (fitted size))
  | .write h offset new, .ok _ =>
    Function.update m h.offset ((m h.offset).map (patched offset new))
  | _, _ => m

/-- The handle names a key of the map of a pool with the arena `id`. -/
def Names (m : Contents) (id : ArenaId) (h : Handle) : Prop :=
  h.arena = id ∧ (m h.offset).isSome = true

/-- What the map says about the answer to a request on the blocks: a place
that is granted is no key, and none of another block; a block is given back if
the handle names a key; bytes are written if they fit the string of the key;
and what is read is that string. -/
def Allows (m : Contents) (id : ArenaId) : Request → Except Error Answer → Prop
  | .allocate _, answer => ∀ a, answer = .ok a →
      ∃ new, a = .handle new ∧ new.arena = id ∧ m new.offset = none
  | .free h, answer => answer = .ok .done ↔ m.Names id h
  | .resize h _, answer => ∀ a, answer = .ok a → m.Names id h ∧
      ∃ new, a = .handle new ∧ new.arena = id ∧ (new.offset = h.offset ∨ m new.offset = none)
  | .read h, answer =>
    ∀ bytes, answer = .ok (.bytes bytes) ↔ h.arena = id ∧ m h.offset = some bytes
  | .write h offset new, answer => answer = .ok .done ↔
      ∃ bytes, h.arena = id ∧ m h.offset = some bytes ∧ offset + new.length ≤ bytes.length
  | _, _ => True

/-- The blocks hold the strings of the map, which has no other keys. -/
structure Stored (m : Contents) (a : Arena) (blocks : List Block) : Prop where
  block : ∀ b ∈ blocks, m b.start = some (a.slice b.start b.len)
  key : ∀ o, (m o).isSome = true → ∃ b ∈ blocks, b.start = o

end Contents

/-- A request that concerns the blocks of a pool, not its beginning or end. -/
def Request.onBlocks : Request → Bool
  | .allocate _ | .free _ | .resize _ _ | .read _ | .write _ _ _ => true
  | _ => false

/-- The blocks of the pool are the keys of the map in address order, with the
lengths of their strings, and a handle that names a key reads its string. -/
structure Shows (p : Pool) (id : ArenaId) (m : Contents) : Prop where
  arena : p.arena?.map Arena.id = some id
  ordered : p.blocks.Pairwise fun a b => a.start < b.start
  blocks : ∀ b, b ∈ p.blocks ↔ ∃ bytes, m b.start = some bytes ∧ bytes.length = b.len
  read : ∀ h bytes, h.arena = id → m h.offset = some bytes → p.read h = .ok (.ok bytes)

/-- Each state of a run shows the map that the answers so far make of `m`, and
each answer is one that the map allows. -/
def Follows (id : ArenaId) : List Request → Pool → Supply → Contents → Prop
  | [], p, _, m => p.Shows id m
  | r :: rest, p, supply, m => p.Shows id m ∧
      ∃ reply, p.serve supply r = .ok reply ∧ m.Allows id r reply.answer ∧
        Follows id rest reply.state.1 reply.state.2 (m.after r reply.answer)

/-! ### Blocks that hold the strings of a map -/

namespace Contents

open Layout (WellFormed)

variable {m : Contents} {a a' : Arena} {blocks pre post : List Block} {b : Block}
  {capacity : Nat}

namespace Stored

theorem nil (a : Arena) : Stored (fun _ => none) a [] :=
  ⟨fun _ hb => (nomatch hb), fun _ h => (nomatch h)⟩

/-- No block starts where all blocks have ended or not begun. -/
theorem eq_none (hm : m.Stored a blocks) (hw : WellFormed blocks capacity) (offset : Nat)
    (hfree : ∀ b ∈ blocks, b.stop ≤ offset ∨ offset < b.start) : m offset = none := by
  by_contra hne
  obtain ⟨b, hb, hstart⟩ := hm.key _ (Option.isSome_iff_ne_none.2 hne)
  have hlen := hw.nonempty b hb
  rcases hfree b hb with h | h
  · simp only [Block.stop] at h
    omega
  · omega

/-- A block that is taken out is no key any more. -/
theorem erase (hm : m.Stored a (pre ++ b :: post)) (hw : WellFormed (pre ++ b :: post) capacity) :
    Stored (Function.update m b.start none) a (pre ++ post) := by
  have hnd : b.start ∉ (pre ++ post).map Block.start := by
    have := (List.perm_middle.map Block.start).nodup_iff.1 hw.nodup_start
    exact (List.nodup_cons.1 this).1
  refine ⟨?_, ?_⟩
  · intro c hc
    rw [Function.update_of_ne fun h => hnd (List.mem_map.2 ⟨c, hc, h⟩)]
    exact hm.block c (((List.sublist_cons_self _ _).append_left _).subset hc)
  · intro o ho
    by_cases hob : o = b.start
    · rw [hob, Function.update_self] at ho
      exact nomatch ho
    · rw [Function.update_of_ne hob] at ho
      obtain ⟨c, hc, hco⟩ := hm.key o ho
      rcases List.mem_cons.1 (List.perm_middle.mem_iff.1 hc) with rfl | hc
      · exact absurd hco.symm hob
      · exact ⟨c, hc, hco⟩

/-- Blocks keep their strings if none of their bytes is written. -/
theorem rewrite {f : Nat → UInt8} (hm : m.Stored a blocks) (hbytes : a.Rewritten a' f)
    (hf : ∀ c ∈ blocks, ∀ i, c.start ≤ i → i < c.stop → f i = a.byte i) :
    m.Stored a' blocks := by
  refine ⟨fun c hc => (hm.block c hc).trans (congrArg some ?_), hm.key⟩
  refine (Arena.slice_congr ?_).symm
  intro i hi
  rw [hbytes.byte]
  exact hf c hc _ (Nat.le_add_right _ _) (Nat.add_lt_add_left hi _)

/-- A block that is put in is a key with the bytes that lie there. -/
theorem put (hm : m.Stored a (pre ++ post)) (hw : WellFormed (pre ++ b :: post) capacity) :
    Stored (Function.update m b.start (some (a.slice b.start b.len))) a (pre ++ b :: post) := by
  refine ⟨?_, ?_⟩
  · intro c hc
    by_cases hcb : c.start = b.start
    · rw [hw.eq_of_start hc hw.mem_split hcb, Function.update_self]
    · rw [Function.update_of_ne hcb]
      rcases List.mem_cons.1 (List.perm_middle.mem_iff.1 hc) with rfl | hc
      · exact absurd rfl hcb
      · exact hm.block c hc
  · intro o ho
    by_cases hob : o = b.start
    · exact ⟨b, hw.mem_split, hob.symm⟩
    · rw [Function.update_of_ne hob] at ho
      obtain ⟨c, hc, hco⟩ := hm.key o ho
      exact ⟨c, ((List.sublist_cons_self _ _).append_left _).subset hc, hco⟩

/-- A block in the place of another one: the bytes of all others are as before. -/
theorem replace {front back : List Block} {new : Block} {f : Nat → UInt8}
    (hm : m.Stored a (pre ++ b :: post)) (hw : WellFormed (pre ++ b :: post) capacity)
    (hrest : pre ++ post = front ++ back) (hnew : WellFormed (front ++ new :: back) capacity)
    (hbytes : a.Rewritten a' f) (hf : ∀ i, i < new.start ∨ new.stop ≤ i → f i = a.byte i) :
    Stored (Function.update (Function.update m b.start none) new.start
      (some (a'.slice new.start new.len))) a' (front ++ new :: back) := by
  refine Stored.put (Stored.rewrite (hrest ▸ hm.erase hw) hbytes fun c hc i h1 h2 => hf i ?_) hnew
  rcases List.mem_append.1 hc with hc | hc
  · exact .inl (Nat.lt_of_lt_of_le h2 (hnew.before hc))
  · exact .inr (Nat.le_trans (hnew.behind hc) h1)

end Stored

end Contents
end Pool

namespace Space

open Pool (Contents Handle Error Growth)
open Layout (WellFormed)

variable {s : Space} {m : Contents} {h : Handle} {pre post : List Block} {b : Block}
  {size offset : Nat} {arena : Arena}

theorem stored_located (hs : s.Sound) (hm : m.Stored s.arena s.layout.blocks)
    (hl : s.locate? h = some (pre.length, b)) :
    h.arena = s.arena.id ∧ b.start = h.offset ∧
      m h.offset = some (s.arena.slice b.start b.len) := by
  obtain ⟨ha, pre, post, hsplit, hb, -⟩ := (locate?_eq_some hs).1 hl
  have := hm.block b (hsplit ▸ List.mem_append_right _ List.mem_cons_self)
  exact ⟨ha, hb, hb ▸ this⟩

theorem stored_not_located (hs : s.Sound) (hm : m.Stored s.arena s.layout.blocks)
    (hl : s.locate? h = none) (ha : h.arena = s.arena.id) : m h.offset = none := by
  by_contra hne
  obtain ⟨b, hb, hstart⟩ := hm.key _ (Option.isSome_iff_ne_none.2 hne)
  exact (locate?_eq_none hs).1 hl ha b hb hstart

theorem carried_of_not {i : Nat} (hi : i < offset ∨ offset + size ≤ i) :
    s.carried b offset size i = s.arena.byte i := by
  unfold carried
  rw [if_neg (by omega), if_neg (by omega)]

/-- The string of a block that went to another place. -/
theorem slice_carried (hz : s.zeroing = true)
    (hbytes : s.arena.Rewritten arena (s.carried b offset size)) :
    arena.slice offset size = Contents.fitted size (s.arena.slice b.start b.len) := by
  have hkept : arena.slice offset (min b.len size) = s.arena.slice b.start (min b.len size) :=
    Arena.slice_congr fun i hi => by
      rw [hbytes.byte, carried, if_pos (by omega), Nat.add_sub_cancel_left]
  rw [Contents.fitted, Arena.length_slice]
  by_cases hsize : size ≤ b.len
  · rw [Nat.min_eq_right hsize] at hkept
    rw [hkept, Arena.take_slice hsize, Nat.sub_eq_zero_of_le hsize, List.replicate_zero,
      List.append_nil]
  · have hgrown : arena.slice (offset + b.len) (size - b.len) = List.replicate (size - b.len) 0 :=
      Arena.slice_replicate fun i h1 h2 => by
        rw [hbytes.byte, carried, if_neg (by omega), if_pos ⟨hz, h1, by omega⟩]
    rw [Nat.min_eq_left (by omega)] at hkept
    rw [List.take_of_length_le (by rw [Arena.length_slice]; omega), ← hkept, ← hgrown,
      ← Arena.slice_append, Nat.add_sub_cancel' (by omega)]

/-! ### One request on the blocks -/

theorem allocate_stored (hs : s.Sound) (hz : s.zeroing = true)
    (hm : m.Stored s.arena s.layout.blocks) {r : Except Error Handle × Space}
    (hr : s.Allocated size r) :
    m.Allows s.arena.id (.allocate size) (r.1.map .handle) ∧
      (m.after (.allocate size) (r.1.map .handle)).Stored r.2.arena r.2.layout.blocks := by
  cases hr with
  | refused => exact ⟨fun a h => (nomatch h), hm⟩
  | outOfSpace => exact ⟨fun a h => (nomatch h), hm⟩
  | @placed pre post offset arena ha hsplit hfit hbytes =>
    rw [hsplit] at hm
    have hw : WellFormed (pre ++ post) s.capacity := hsplit ▸ hs.wellFormed
    have hw' := hfit.wellFormed hw (assess_eq_ok.1 ha).1
    have hfree := hfit.isFree.2
    have hzero : arena.slice offset size = List.replicate size 0 :=
      Arena.slice_replicate fun i h1 h2 => by rw [hbytes.byte, if_pos ⟨hz, h1, h2⟩]
    have hnew : m offset = none := hm.eq_none hw offset fun c hc => by
      have := hfree c hc
      have := (assess_eq_ok.1 ha).1
      omega
    have hrest := hm.rewrite hbytes fun c hc i h1 h2 => by
      have := hfree c hc
      rw [if_neg (by omega)]
    refine ⟨fun a h => ⟨_, (Except.ok.inj h).symm, rfl, hnew⟩, ?_⟩
    have hput := hrest.put hw'
    rw [hzero] at hput
    exact hput

theorem free_stored (hs : s.Sound) (hm : m.Stored s.arena s.layout.blocks)
    {r : Except Error Block × Space} (hr : s.Freed h r) :
    m.Allows s.arena.id (.free h) (r.1.map fun _ => .done) ∧
      (m.after (.free h) (r.1.map fun _ => .done)).Stored r.2.arena r.2.layout.blocks := by
  cases hr with
  | invalid hl =>
    refine ⟨⟨fun h => (nomatch h), ?_⟩, hm⟩
    intro hn
    have hkey := hn.2
    rw [stored_not_located hs hm hl hn.1] at hkey
    exact nomatch hkey
  | @freed pre post b ha hb hsplit =>
    have hl := locate?_append hs ha hsplit hb
    obtain ⟨-, -, hkey⟩ := stored_located hs hm hl
    refine ⟨⟨fun _ => ⟨ha, Option.isSome_of_eq_some hkey⟩, fun _ => rfl⟩, ?_⟩
    rw [hsplit] at hm
    have herase := hm.erase (hsplit ▸ hs.wellFormed)
    rw [hb] at herase
    exact herase

theorem resize_stored (hs : s.Sound) (hz : s.zeroing = true)
    (hm : m.Stored s.arena s.layout.blocks) {r : Except Error (Handle × Growth) × Space}
    (hr : s.Resized h size r) :
    m.Allows s.arena.id (.resize h size) (r.1.map fun a => .handle a.1) ∧
      (m.after (.resize h size) (r.1.map fun a => .handle a.1)).Stored
        r.2.arena r.2.layout.blocks := by
  cases hr with
  | invalid => exact ⟨fun a h => (nomatch h), hm⟩
  | refused => exact ⟨fun a h => (nomatch h), hm⟩
  | outOfSpace => exact ⟨fun a h => (nomatch h), hm⟩
  | @done pre post front back b offset how arena hl ha hsplit hplace hbytes =>
    obtain ⟨harena, hb, hkey⟩ := stored_located hs hm hl
    rw [hsplit] at hm
    have hw : WellFormed (pre ++ b :: post) s.capacity := hsplit ▸ hs.wellFormed
    have hsize := (assess_eq_ok.1 ha).1
    obtain ⟨hrest, hfront, hback, -⟩ := hplace.fits hw
    refine ⟨fun a h => ⟨⟨harena, Option.isSome_of_eq_some hkey⟩, _, (Except.ok.inj h).symm,
      rfl, ?_⟩, ?_⟩
    · -- the new place is that of the block itself or of no block
      by_cases hob : offset = b.start
      · exact .inl (hob.trans hb)
      · refine .inr ?_
        have hnone := (hm.erase hw).eq_none hw.erase offset fun c hc => by
          rcases List.mem_append.1 (hrest ▸ hc) with hc | hc
          · exact .inl (hfront c hc)
          · have := hback c hc
            omega
        rwa [Function.update_of_ne hob] at hnone
    · have hmoved := hm.replace hw hrest (hplace.wellFormed hw hsize) hbytes fun i hi =>
        carried_of_not hi
      rw [slice_carried hz hbytes] at hmoved
      show Contents.Stored (Function.update (Function.update m h.offset none) offset
        ((m h.offset).map (Contents.fitted size))) _ _
      rw [hkey, ← hb]
      exact hmoved

theorem write_stored (hs : s.Sound) (hm : m.Stored s.arena s.layout.blocks)
    {bytes : List UInt8} {r : Except Error Unit × Space} (hr : s.Written h offset bytes r) :
    m.Allows s.arena.id (.write h offset bytes) (r.1.map fun _ => .done) ∧
      (m.after (.write h offset bytes) (r.1.map fun _ => .done)).Stored
        r.2.arena r.2.layout.blocks := by
  cases hr with
  | invalid hl =>
    refine ⟨⟨fun h => (nomatch h), fun ⟨old, ha, hkey, _⟩ => ?_⟩, hm⟩
    rw [stored_not_located hs hm hl ha] at hkey
    exact nomatch hkey
  | @outOfBounds p hl hlen =>
    obtain ⟨i, b⟩ := p
    obtain ⟨-, pre, post, -, -, rfl⟩ := (locate?_eq_some hs).1 hl
    obtain ⟨-, -, hkey⟩ := stored_located hs hm hl
    refine ⟨⟨fun h => (nomatch h), fun ⟨old, _, hold, hfit⟩ => ?_⟩, hm⟩
    rw [Option.some.inj (hold.symm.trans hkey), Arena.length_slice] at hfit
    exact absurd hlen (Nat.not_lt_of_le hfit)
  | @written pre post b hl hsplit hlen =>
    obtain ⟨harena, hb, hkey⟩ := stored_located hs hm hl
    refine ⟨⟨fun _ => ⟨_, harena, hkey, by rwa [Arena.length_slice]⟩, fun _ => rfl⟩, ?_⟩
    have hw : WellFormed (pre ++ b :: post) s.capacity := hsplit ▸ hs.wellFormed
    have hstop := hw.inside b hw.mem_split
    have hin : s.arena.Holds (b.start + offset) bytes.length := by
      simp only [Block.stop] at hstop
      show b.start + offset + bytes.length ≤ s.capacity
      omega
    rw [hsplit] at hm
    have hsame := hm.replace hw rfl hw (Arena.rewritten_written hin) fun i hi => by
      simp only [Block.stop] at hi
      rw [if_neg (by omega)]
    rw [Function.update_idem, Arena.slice_written hin (Nat.le_add_right _ _) (by omega),
      Nat.add_sub_cancel_left] at hsame
    show Contents.Stored (Function.update m h.offset
      ((m h.offset).map (Contents.patched offset bytes))) _ s.layout.blocks
    rw [hkey, hsplit, ← hb]
    exact hsame

/-- A sound space that zeroes blocks, with the arena `id` and the strings of `m`. -/
structure Carries (s : Space) (id : ArenaId) (m : Contents) : Prop where
  sound : s.Sound
  zeroing : s.zeroing = true
  arena : s.arena.id = id
  stored : m.Stored s.arena s.layout.blocks

theorem Carries.continue {id : ArenaId} {s' : Space} {m' : Contents} (hs : s.Carries id m)
    (hc : s.Continues s') (hs' : s'.Sound) (hm : m'.Stored s'.arena s'.layout.blocks) :
    s'.Carries id m' :=
  ⟨hs', hc.zeroing.trans hs.zeroing, hc.id.trans hs.arena, hm⟩

theorem Carries.shows {id : ArenaId} (hs : s.Carries id m) : Pool.Shows ⟨some s⟩ id m := by
  obtain ⟨hsound, -, ha, hm⟩ := hs
  have hw := hsound.wellFormed
  refine ⟨congrArg some ha, hw.start_lt, fun b => ⟨?_, fun ⟨bytes, hkey, hlen⟩ => ?_⟩,
    ?_⟩
  · intro hb
    exact ⟨_, hm.block b hb, Arena.length_slice _ _ _⟩
  · obtain ⟨c, hc, hstart⟩ := hm.key _ (Option.isSome_of_eq_some hkey)
    have hsame := Option.some.inj ((hm.block c hc).symm.trans (hstart ▸ hkey))
    have hlens : c.len = b.len := by rw [← hlen, ← hsame, Arena.length_slice]
    have hcb : c = b := by
      cases c
      cases b
      simp only at hstart hlens
      rw [hstart, hlens]
    exact hcb ▸ hc
  · intro h bytes harena hkey
    obtain ⟨c, hc, hstart⟩ := hm.key _ (Option.isSome_of_eq_some hkey)
    obtain ⟨pre, post, hsplit⟩ := List.append_of_mem hc
    have hread := read_eq hsound (locate?_append hsound (harena.trans ha.symm) hsplit hstart) hsplit
    rw [show bytes = s.arena.slice c.start c.len from
      Option.some.inj (hkey.symm.trans (hstart ▸ hm.block c hc))]
    exact hread

/-- What is read is the string of the key. -/
theorem read_stored (hs : s.Sound) (hm : m.Stored s.arena s.layout.blocks)
    {answer : Except Error (List UInt8)} (hr : s.read h = .ok answer) :
    m.Allows s.arena.id (.read h) (answer.map .bytes) := by
  intro bytes
  cases hl : s.locate? h with
  | none =>
    obtain rfl := Except.ok.inj (hr.symm.trans (read_eq_invalid hl))
    refine ⟨fun h => (nomatch h), fun ⟨ha, hkey⟩ => ?_⟩
    rw [stored_not_located hs hm hl ha] at hkey
    exact nomatch hkey
  | some p =>
    obtain ⟨i, b⟩ := p
    obtain ⟨-, pre, post, hsplit, -, rfl⟩ := (locate?_eq_some hs).1 hl
    obtain rfl := Except.ok.inj (hr.symm.trans (read_eq hs hl hsplit))
    obtain ⟨ha, -, hkey⟩ := stored_located hs hm hl
    rw [hkey]
    constructor
    · intro h
      exact ⟨ha, congrArg some (Pool.Answer.bytes.inj (Except.ok.inj h))⟩
    · intro h
      exact congrArg (Except.ok ∘ Pool.Answer.bytes) (Option.some.inj h.2)

namespace Carries

variable {id : ArenaId}

theorem allocate (hs : s.Carries id m) (size : Nat) :
    ∃ r, s.allocate size = .ok r ∧ m.Allows id (.allocate size) (r.1.map .handle) ∧
      r.2.Carries id (m.after (.allocate size) (r.1.map .handle)) := by
  obtain ⟨r, hr, hcase⟩ := allocate_cases hs.sound size
  obtain ⟨hallows, hafter⟩ := allocate_stored hs.sound hs.zeroing hs.stored hcase
  exact ⟨r, hr, hs.arena ▸ hallows, hs.continue hcase.continues (hcase.sound hs.sound) hafter⟩

theorem free (hs : s.Carries id m) (h : Handle) :
    ∃ r, s.free h = .ok r ∧ m.Allows id (.free h) (r.1.map fun _ => .done) ∧
      r.2.Carries id (m.after (.free h) (r.1.map fun _ => .done)) := by
  obtain ⟨r, hr, hcase⟩ := free_cases hs.sound h
  obtain ⟨hallows, hafter⟩ := free_stored hs.sound hs.stored hcase
  exact ⟨r, hr, hs.arena ▸ hallows, hs.continue hcase.continues (hcase.sound hs.sound) hafter⟩

theorem resize (hs : s.Carries id m) (h : Handle) (size : Nat) :
    ∃ r, s.resize h size = .ok r ∧ m.Allows id (.resize h size) (r.1.map fun a => .handle a.1) ∧
      r.2.Carries id (m.after (.resize h size) (r.1.map fun a => .handle a.1)) := by
  obtain ⟨r, hr, hcase⟩ := resize_cases hs.sound h size
  obtain ⟨hallows, hafter⟩ := resize_stored hs.sound hs.zeroing hs.stored hcase
  exact ⟨r, hr, hs.arena ▸ hallows, hs.continue hcase.continues (hcase.sound hs.sound) hafter⟩

theorem write (hs : s.Carries id m) (h : Handle) (offset : Nat) (bytes : List UInt8) :
    ∃ r, s.write h offset bytes = .ok r ∧
      m.Allows id (.write h offset bytes) (r.1.map fun _ => .done) ∧
      r.2.Carries id (m.after (.write h offset bytes) (r.1.map fun _ => .done)) := by
  obtain ⟨r, hr, hcase⟩ := write_cases hs.sound h offset bytes
  obtain ⟨hallows, hafter⟩ := write_stored hs.sound hs.stored hcase
  exact ⟨r, hr, hs.arena ▸ hallows, hs.continue hcase.continues (hcase.sound hs.sound) hafter⟩

end Carries

end Space

namespace Pool

variable {s : Space} {m : Contents} {id : ArenaId}

/-- One request on the blocks of a live pool that zeroes them: the pool shows
the map that the answer makes of the map before. -/
theorem serve_carries (hs : s.Carries id m) (supply : Supply) {r : Request}
    (hr : r.onBlocks = true) :
    ∃ reply s', serve ⟨some s⟩ supply r = .ok reply ∧ reply.state = (⟨some s'⟩, supply) ∧
      m.Allows id r reply.answer ∧ s'.Carries id (m.after r reply.answer) := by
  cases r with
  | allocate size =>
    obtain ⟨a, ha, hallows, hafter⟩ := hs.allocate size
    exact ⟨_, _, serve_allocate ha, rfl, hallows, hafter⟩
  | free h =>
    obtain ⟨a, ha, hallows, hafter⟩ := hs.free h
    exact ⟨_, _, serve_free ha, rfl, hallows, hafter⟩
  | resize h size =>
    obtain ⟨a, ha, hallows, hafter⟩ := hs.resize h size
    exact ⟨_, _, serve_resize ha, rfl, hallows, hafter⟩
  | read h =>
    obtain ⟨a, ha⟩ := Space.read_ok hs.sound h
    have hallows := Space.read_stored hs.sound hs.stored ha
    rw [hs.arena] at hallows
    refine ⟨_, s, serve_read ha, rfl, hallows, ?_⟩
    cases a <;> exact hs
  | write h offset bytes =>
    obtain ⟨a, ha, hallows, hafter⟩ := hs.write h offset bytes
    exact ⟨_, _, serve_write ha, rfl, hallows, hafter⟩
  | _ => exact nomatch hr

theorem follows_of_carries : ∀ (rs : List Request) {s : Space} {m : Contents} (supply : Supply),
    s.Carries id m → (∀ r ∈ rs, r.onBlocks = true) → Follows id rs ⟨some s⟩ supply m
  | [], _, _, _, hs, _ => hs.shows
  | r :: rest, s, m, supply, hs, hrs => by
    obtain ⟨reply, s', hserve, hstate, hallows, hs'⟩ :=
      serve_carries hs supply (hrs r List.mem_cons_self)
    refine ⟨hs.shows, reply, hserve, hallows, ?_⟩
    rw [hstate]
    exact follows_of_carries rest supply hs' fun x hx => hrs x (List.mem_cons_of_mem _ hx)

/-- A pool that begins has no block, so the map without keys is its own. -/
theorem initialise_carries {supply : Supply} {capacity : Nat}
    (h : (initialise {} supply ⟨capacity, true⟩).answer = .ok ()) :
    ∃ s, (initialise {} supply ⟨capacity, true⟩).state = (⟨some s⟩, supply.rest) ∧
      s.Carries supply.next fun _ => none := by
  simp only [initialise] at h ⊢
  cases hc : Config.validate ⟨capacity, true⟩ with
  | error e => simp [hc] at h
  | ok u =>
    cases ha : Arena.reserve? supply.next capacity with
    | none => simp [hc, ha] at h
    | some arena =>
      refine ⟨_, rfl, reserve?_sound ha, rfl, ?_, .nil _⟩
      obtain ⟨-, -, rfl⟩ := Arena.reserve?_eq_some.1 ha
      rfl

/-- Whatever is asked of the blocks of a pool that zeroes them, by whom, and in
which order: from the empty map on, every state shows the map that the answers
make, and no answer is one that the map does not allow. -/
theorem follows_contents {supply : Supply} {capacity : Nat} {rs : List Request}
    (h : (initialise {} supply ⟨capacity, true⟩).answer = .ok ())
    (hrs : ∀ r ∈ rs, r.onBlocks = true) :
    let reply := initialise {} supply ⟨capacity, true⟩
    Follows supply.next rs reply.state.1 reply.state.2 fun _ => none := by
  obtain ⟨s, hstate, hs⟩ := initialise_carries h
  simp only [hstate]
  exact follows_of_carries rs supply.rest hs hrs

/-- Two blocks, of which the first has to move when it grows. -/
theorem follows_contents_moved :
    let rs : List Request := [.allocate 4, .write ⟨⟨1⟩, 0, 4⟩ 1 [7, 8], .allocate 4,
      .resize ⟨⟨1⟩, 0, 4⟩ 6, .read ⟨⟨1⟩, 8, 6⟩, .free ⟨⟨1⟩, 4, 4⟩]
    let reply := initialise {} {} ⟨16, true⟩
    reply.answer = .ok () ∧ (∀ r ∈ rs, r.onBlocks = true) ∧
      Follows ⟨1⟩ rs reply.state.1 reply.state.2 fun _ => none :=
  ⟨rfl, by decide, follows_contents rfl (by decide)⟩

end Pool
end FirstFit
