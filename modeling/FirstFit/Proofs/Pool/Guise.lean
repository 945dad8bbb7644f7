/-
# A pool in another guise

Two pools that are asked the same may differ in the identity of their arena,
and one may zero blocks while the other does not. No operation looks at an
identity except to compare it with another, so giving them other names changes
nothing else. Zeroing changes bytes, but only those of a block that is handed
out, and whoever writes all of these leaves no difference.

Key definitions: `Checked.Mirrors`, `Guise`, `Guise.Unlike`, `Guise.Allocates`.
Key theorems: `Mirrors.bind`, `store_mirrors`, `Unlike.store`, `Unlike.eq`,
`allocate_guise`, `free_mirrors`.
-/
import FirstFit.Proofs.Pool.Run

namespace FirstFit

/-! ### Computations side by side -/

namespace Checked

variable {α β γ δ : Type} {f : α → β} {P Q : α → Prop} {x : Checked α} {y : Checked β}

/-- The computation `y` is `x` seen through `f`, and what `x` gives is as `P` says. -/
structure Mirrors (f : α → β) (P : α → Prop) (x : Checked α) (y : Checked β) : Prop where
  eq : y = x.map f
  post : ∀ a, x = .ok a → P a

theorem Mirrors.ok {a : α} {b : β} (hb : b = f a) (ha : P a) :
    Mirrors f P (.ok a) (.ok b) :=
  ⟨congrArg Except.ok hb, fun _ h => Except.ok.inj h ▸ ha⟩

theorem Mirrors.error (e : Fault) : Mirrors f P (.error e) (.error e) :=
  ⟨rfl, fun _ h => nomatch h⟩

/-- A computation of which nothing is kept in mind but that the other one mirrors it. -/
theorem Mirrors.of_eq (h : y = x.map f) : Mirrors f (fun _ => True) x y :=
  ⟨h, fun _ _ => trivial⟩

theorem Mirrors.same (x : Checked α) : Mirrors id (fun _ => True) x x := by
  apply Mirrors.of_eq
  cases x <;> rfl

theorem Mirrors.imp (h : Mirrors f P x y) (hPQ : ∀ a, P a → Q a) : Mirrors f Q x y :=
  ⟨h.eq, fun a ha => hPQ a (h.post a ha)⟩

/-- What comes second may rely on what the first part gives. -/
theorem Mirrors.bind {g : γ → δ} {R : γ → Prop} {k : α → Checked γ} {k' : β → Checked δ}
    (h : Mirrors f P x y) (hk : ∀ a, P a → Mirrors g R (k a) (k' (f a))) :
    Mirrors g R (x >>= k) (y >>= k') := by
  obtain ⟨rfl, hpost⟩ := h
  cases x with
  | error e => exact .error e
  | ok a => exact hk a (hpost a rfl)

end Checked

open Checked (Mirrors)

/-! ### Other names for arenas -/

/-- Other names for the arenas, and another choice whether blocks are zeroed. -/
structure Guise where
  name : ArenaId → ArenaId
  injective : Function.Injective name
  zeroing : Bool

namespace Guise

variable (g : Guise)

def arena (a : Arena) : Arena := { a with id := g.name a.id }

def space (s : Space) : Space := ⟨g.arena s.arena, s.layout, g.zeroing⟩

def pool (p : Pool) : Pool := ⟨p.space?.map g.space⟩

def handle (h : Pool.Handle) : Pool.Handle := { h with arena := g.name h.arena }

def poolEvent : Pool.Event → Pool.Event
  | .initialised arena capacity => .initialised (g.name arena) capacity
  | .freeRejected h e => .freeRejected (g.handle h) e
  | .resizeRejected h newSize e => .resizeRejected (g.handle h) newSize e
  | .tornDown arena liveBlocks => .tornDown (g.name arena) liveBlocks
  | e => e

variable {a a' : Arena} {s : Space} {h : Pool.Handle} {size offset lo hi : Nat}
  {new : List UInt8}

theorem name_eq_iff {m n : ArenaId} : g.name m = g.name n ↔ m = n := g.injective.eq_iff

/-- The same bytes are written to both arenas. -/
theorem store_mirrors (a : Arena) (offset : Nat) (new : List UInt8) :
    Mirrors g.arena (fun b => b.id = a.id ∧ b.capacity = a.capacity)
      (a.store offset new) ((g.arena a).store offset new) := by
  by_cases hin : a.Holds offset new.length
  · have hin' : (g.arena a).Holds offset new.length := hin
    rw [Arena.store_eq hin, Arena.store_eq hin']
    exact .ok rfl ⟨rfl, Arena.capacity_written⟩
  · have hin' : ¬ (g.arena a).Holds offset new.length := hin
    rw [Arena.store_of_not hin, Arena.store_of_not hin']
    exact .error _

/-! ### Bytes that differ for a while -/

/-- The arenas have all bytes in common, except perhaps those from `lo` up to `hi`. -/
structure Unlike (g : Guise) (lo hi : Nat) (a a' : Arena) : Prop where
  id : a'.id = g.name a.id
  capacity : a'.capacity = a.capacity
  byte : ∀ i, i < lo ∨ hi ≤ i → a'.byte i = a.byte i

variable {g}

/-- Bytes that are written where the difference begins take it away from there. -/
theorem Unlike.store (hu : g.Unlike lo hi a a') (hin : a.Holds lo new.length) :
    a.store lo new = .ok (a.written lo new) ∧ a'.store lo new = .ok (a'.written lo new) ∧
      g.Unlike (lo + new.length) hi (a.written lo new) (a'.written lo new) := by
  have hin' : a'.Holds lo new.length := Nat.le_trans hin (Nat.le_of_eq hu.capacity.symm)
  refine ⟨Arena.store_eq hin, Arena.store_eq hin', hu.id, ?_, ?_⟩
  · rw [Arena.capacity_written, Arena.capacity_written, hu.capacity]
  · intro i hi
    rw [Arena.byte_written hin, Arena.byte_written hin']
    by_cases hnew : lo ≤ i ∧ i < lo + new.length
    · rw [if_pos hnew, if_pos hnew]
    · rw [if_neg hnew, if_neg hnew]
      exact hu.byte i (by omega)

/-- A word that is written at the front of the difference. -/
theorem Unlike.word (hu : g.Unlike lo hi a a') (width v : Nat) (hin : lo + width ≤ a.capacity) :
    ∃ b b', a.store lo (LittleEndian.encode width v) = .ok b ∧
      a'.store lo (LittleEndian.encode width v) = .ok b' ∧
      b.id = a.id ∧ b.capacity = a.capacity ∧ g.Unlike (lo + width) hi b b' := by
  have hlen : (LittleEndian.encode width v).length = width := LittleEndian.length_encode width v
  have hholds : a.Holds lo (LittleEndian.encode width v).length := by
    rw [hlen]
    exact hin
  obtain ⟨hstore, hstore', hunlike⟩ := hu.store hholds
  rw [hlen] at hunlike
  exact ⟨_, _, hstore, hstore', rfl, Arena.capacity_written, hunlike⟩

/-- Once all bytes were written over, the arenas are the same but for the name. -/
theorem Unlike.eq (hu : g.Unlike lo lo a a') : a' = g.arena a :=
  Arena.ext_byte hu.id hu.capacity fun i => hu.byte i (Nat.lt_or_ge i lo)

/-! ### Allocating and freeing -/

/-- A request for a block has the same answer, and the spaces afterwards differ
in the bytes of the block at most. -/
inductive Allocates (g : Guise) (s : Space) (size : Nat) :
    Except Pool.Error Pool.Handle × Space → Except Pool.Error Pool.Handle × Space → Prop
  | refused {e : Pool.Error} : Allocates g s size (.error e, s) (.error e, g.space s)
  | placed {offset : Nat} {layout : Layout} {a a' : Arena} (hin : offset + size ≤ a.capacity)
      (hid : a.id = s.arena.id) (hunlike : g.Unlike offset (offset + size) a a')
      (hsound : Space.Sound ⟨a, layout, s.zeroing⟩) :
      Allocates g s size (.ok (s.handle ⟨offset, size⟩), ⟨a, layout, s.zeroing⟩)
        (.ok ((g.space s).handle ⟨offset, size⟩), ⟨a', layout, g.zeroing⟩)

theorem allocate_guise (g : Guise) (hs : s.Sound) (size : Nat) :
    ∃ r r', s.allocate size = .ok r ∧ (g.space s).allocate size = .ok r' ∧
      g.Allocates s size r r' := by
  cases ha : s.assess size with
  | error e =>
    have ha' : (g.space s).assess size = .error e := ha
    refine ⟨(.error e, s), (.error e, g.space s), ?_, ?_, .refused⟩
    · simp only [Space.allocate, ha]
      rfl
    · simp only [Space.allocate, ha']
      rfl
  | ok u =>
    have ha' : (g.space s).assess size = .ok () := ha
    obtain ⟨hsize, -⟩ := Space.assess_eq_ok.1 ha
    rcases Layout.firstFit_cases hs.wellFormed hs.bound hsize with
      ⟨pre, post, offset, hsplit, hfound, hfit⟩ | ⟨hfound, hnone⟩
    · have hs₁ : Space.Sound { s with layout := ⟨pre ++ ⟨offset, size⟩ :: post⟩ } :=
        hs.mono rfl (hfit.wellFormed (hsplit ▸ hs.wellFormed) hsize)
      have hs₂ : Space.Sound { g.space s with layout := ⟨pre ++ ⟨offset, size⟩ :: post⟩ } :=
        ⟨hs₁.wellFormed, hs₁.small⟩
      obtain ⟨a, hz, hbytes⟩ := Space.zeroTail_eq hs₁ offset 0 size hfit.inside
      obtain ⟨a', hz', hbytes'⟩ := Space.zeroTail_eq hs₂ offset 0 size hfit.inside
      have hfound' : (g.space s).layout.firstFit size (g.space s).capacity =
          .ok (some ⟨pre.length, offset⟩) := hfound
      have hinsert := hfit.insertAt_eq hs.wellFormed hs.bound hsize hsplit
      have hinsert' : (g.space s).layout.insertAt pre.length ⟨offset, size⟩ =
          .ok ⟨pre ++ ⟨offset, size⟩ :: post⟩ := hinsert
      have hunlike : g.Unlike offset (offset + size) a a' := by
        refine ⟨hbytes'.id.trans (congrArg g.name hbytes.id.symm),
          hbytes'.capacity.trans hbytes.capacity.symm, ?_⟩
        intro i hi
        rw [hbytes.byte, hbytes'.byte, if_neg (by omega), if_neg (by omega)]
        rfl
      have hin : offset + size ≤ a.capacity :=
        Nat.le_trans hfit.inside (Nat.le_of_eq hbytes.capacity.symm)
      refine ⟨_, _, ?_, ?_, .placed hin hbytes.id hunlike (hs₁.mono hbytes.capacity hs₁.wellFormed)⟩
      · simp only [Space.allocate, ha, hfound, Checked.ok_bind, hinsert, hz]
        rw [Space.handle, Space.handle, ← hbytes.id]
        rfl
      · simp only [Space.allocate, ha', hfound', Checked.ok_bind, hinsert', hz']
        rw [Space.handle, Space.handle, ← hbytes'.id]
        rfl
    · obtain ⟨gap, hgap⟩ := Layout.largestGap_ok hs.wellFormed hs.bound
      have hfound' : (g.space s).layout.firstFit size (g.space s).capacity = .ok none := hfound
      have hgap' : (g.space s).layout.largestGap (g.space s).capacity = .ok gap := hgap
      refine ⟨(.error (.outOfSpace size gap), s), (.error (.outOfSpace size gap), g.space s),
        ?_, ?_, .refused⟩
      · simp only [Space.allocate, ha, hfound, Checked.ok_bind, hgap]
        rfl
      · simp only [Space.allocate, ha', hfound', Checked.ok_bind, hgap']
        rfl

theorem locate?_guise (s : Space) (h : Pool.Handle) :
    (g.space s).locate? (g.handle h) = s.locate? h := by
  unfold Space.locate?
  by_cases ha : h.arena = s.arena.id
  · rw [if_pos ha, if_pos (show (g.handle h).arena = (g.space s).arena.id from congrArg _ ha)]
    rfl
  · have ha' : ¬ (g.handle h).arena = (g.space s).arena.id := fun he => ha (g.injective he)
    rw [if_neg ha, if_neg ha']

/-- The same block is given back. -/
theorem free_mirrors (hs : s.Sound) (h : Pool.Handle) :
    Mirrors (fun r => (r.1, g.space r.2)) (fun r => r.2.Sound ∧ r.2.arena.id = s.arena.id)
      (s.free h) ((g.space s).free (g.handle h)) where
  eq := by
    unfold Space.free
    rw [locate?_guise]
    rcases s.locate? h with - | ⟨i, b⟩
    · rfl
    · show (s.layout.removeAt i >>= _) = Except.map _ (s.layout.removeAt i >>= _)
      cases s.layout.removeAt i <;> rfl
  post := by
    intro r hr
    obtain ⟨r', hr', hcase⟩ := Space.free_cases hs h
    obtain rfl := Except.ok.inj (hr.symm.trans hr')
    exact ⟨hcase.sound hs, hcase.continues.id⟩

end Guise
end FirstFit
