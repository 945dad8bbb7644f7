/-
# Nodes in another guise

A link is two words, so its bytes name no arena, and a node is read the same
whatever its arena is called. A node that is created has all its sixteen bytes
written, one field behind the other, so that nothing is left of what the pool
made of them before. Node tables in two guises therefore stay what they are,
one as the other.

Key definitions: `Guise.node`, `Guise.table`, `Guise.event`, `NodeTable.Over`.
Key theorems: `create_mirrors`, `checkLive_guise`, `setNext_mirrors`,
`release_mirrors`, `walk_guise`.
-/
import FirstFit.Chain.Walk
import FirstFit.Proofs.Chain.Storage
import FirstFit.Proofs.Pool.Guise

namespace FirstFit

open Checked (Mirrors)
open Chain (Event Error)

/-- The reply to a call, seen through what becomes of its answer, its state and its log. -/
def Reply.through {ε σ ρ τ υ α β : Type} (state : σ → ρ) (event : τ → υ) (answer : α → β)
    (r : Reply ε σ τ α) : Reply ε ρ υ β :=
  ⟨r.answer.map answer, state r.state, r.log.map event⟩

namespace Guise

variable (g : Guise)

def node (n : NodeRef) : NodeRef := { n with arena := g.name n.arena }

def link (next : Option NodeRef) : Option NodeRef := next.map g.node

def table (t : NodeTable) : NodeTable := { t with space := g.space t.space }

def record (r : NodeTable.Record) : NodeTable.Record := { r with next := g.link r.next }

def event : Event → Event
  | .pool e => .pool (g.poolEvent e)
  | .appended data n => .appended data (g.node n)
  | .insertedAfter data anchor n => .insertedAfter data (g.node anchor) (g.node n)
  | .insertedAtHead data anchor n => .insertedAtHead data (g.node anchor) (g.node n)
  | .insertedBefore data anchor n => .insertedBefore data (g.node anchor) (g.node n)
  | .nothingBefore anchor => .nothingBefore (g.node anchor)
  | .missingBefore anchor => .missingBefore (g.node anchor)
  | .deleted data n => .deleted data (g.node n)
  | .staleReference n => .staleReference (g.node n)
  | .freedAfterTearDown n => .freedAfterTearDown (g.node n)
  | .notFreed n e => .notFreed (g.node n) e
  | e => e

/-- The reply of a table to a request for a node. -/
def made : Reply Error NodeTable Event NodeRef → Reply Error NodeTable Event NodeRef :=
  Reply.through g.table g.event g.node

variable {g} {t : NodeTable} {n : NodeRef} {base : Nat} {home : ArenaId} {lo hi : Nat}

theorem node_injective : Function.Injective g.node := by
  intro m n h
  obtain ⟨harena, hoffset, hstamp⟩ := NodeRef.mk.inj h
  cases m
  cases n
  exact NodeRef.mk.injEq .. ▸ ⟨g.injective harena, hoffset, hstamp⟩

theorem map_pool (log : List Pool.Event) :
    (log.map Event.pool).map g.event = (log.map g.poolEvent).map Event.pool := by
  simp [event]

end Guise

/-! ### Tables over one arena -/

namespace NodeTable

variable {g : Guise} {t t' : NodeTable} {n : NodeRef} {base : Nat} {home : ArenaId} {lo hi : Nat}
  {data : UInt16} {stamp : UInt32} {next : Option NodeRef}

/-- The arena of the table is the one with this identity, and the layout describes its use. -/
structure Over (home : ArenaId) (t : NodeTable) : Prop where
  sound : t.space.Sound
  arena : t.arena.id = home

theorem Over.withArena (h : t.Over home) {a : Arena} (hid : a.id = t.arena.id)
    (hcapacity : a.capacity = t.arena.capacity) : (t.withArena a).Over home :=
  ⟨h.sound.mono hcapacity h.sound.wellFormed, hid.trans h.arena⟩

/-! ### Reading -/

theorem slotOf_guise (t : NodeTable) (n : NodeRef) :
    (g.table t).slotOf (g.node n) = t.slotOf n := rfl

theorem data_guise (t : NodeTable) (n : NodeRef) : (g.table t).data (g.node n) = t.data n := rfl

theorem nextAt_guise (t : NodeTable) (base : Nat) :
    (g.table t).nextAt base = (t.nextAt base).map g.link := by
  unfold nextAt
  show (t.arena.load32 _ >>= _) = Except.map _ (t.arena.load32 _ >>= _)
  cases t.arena.load32 (base + Node.nextStampField) with
  | error e => rfl
  | ok stamp =>
    simp only [Checked.ok_bind]
    by_cases hstamp : stamp = 0
    · rw [if_pos hstamp, if_pos hstamp]
      rfl
    · rw [if_neg hstamp, if_neg hstamp]
      show (t.arena.load32 _ >>= _) = Except.map _ (t.arena.load32 _ >>= _)
      cases t.arena.load32 (base + Node.nextOffsetField) <;> rfl

theorem next_guise (t : NodeTable) (n : NodeRef) :
    (g.table t).next (g.node n) = (t.next n).map g.link := by
  unfold NodeTable.next
  rw [slotOf_guise]
  cases t.slotOf n with
  | error e => rfl
  | ok base => exact nextAt_guise t base

theorem record_guise (t : NodeTable) (n : NodeRef) :
    (g.table t).record (g.node n) = (t.record n).map g.record := by
  unfold record
  rw [data_guise, next_guise]
  cases t.data n with
  | error e => rfl
  | ok data => cases t.next n <;> rfl

/-- A reference stands for the same under the other name of its arena. -/
theorem standing_guise (t : NodeTable) (n : NodeRef) :
    (g.table t).standing (g.node n) = t.standing n := by
  have hiff : (g.node n).arena = (g.table t).arena.id ↔ n.arena = t.arena.id := g.name_eq_iff
  unfold standing
  simp only [hiff]
  rfl

theorem checkLive_guise (t : NodeTable) (n : NodeRef) :
    (g.table t).checkLive (g.node n) =
      (t.checkLive n).map fun r => (r.1, r.2.map g.event) := by
  unfold checkLive
  rw [standing_guise]
  cases t.standing n with
  | error e => rfl
  | ok standing => cases standing <;> rfl

/-! ### Writing -/

theorem writeNext_mirrors (h : t.Over home) (base : Nat) (next : Option NodeRef) :
    Mirrors g.table (Over home) (t.writeNext base next)
      ((g.table t).writeNext base (g.link next)) := by
  have hcell : Cell.leadingTo 0 0 (g.link next) = Cell.leadingTo 0 0 next := by
    cases next <;> rfl
  rw [writeNext_eq t base 0 0, writeNext_eq (g.table t) base 0 0, hcell]
  refine (g.store_mirrors t.arena _ _).bind ?_
  rintro a₁ ⟨hid₁, hcapacity₁⟩
  refine (g.store_mirrors a₁ _ _).bind ?_
  rintro a₂ ⟨hid₂, hcapacity₂⟩
  exact .ok rfl (h.withArena (hid₂.trans hid₁) (hcapacity₂.trans hcapacity₁))

theorem setNext_mirrors (h : t.Over home) (n : NodeRef) (next : Option NodeRef) :
    Mirrors g.table (Over home) (t.setNext n next) ((g.table t).setNext (g.node n) (g.link next)) :=
  (Mirrors.same (t.slotOf n)).bind fun base _ => writeNext_mirrors h base next

theorem erase_mirrors (h : t.Over home) (base : Nat) :
    Mirrors g.table (Over home) (t.erase base) ((g.table t).erase base) := by
  have hwords : ∀ (words : List Nat) (a : Arena),
      Mirrors g.arena (fun b => b.id = a.id ∧ b.capacity = a.capacity)
        (words.foldlM (fun a word => a.store32 (base + word) 0) a)
        (words.foldlM (fun a word => a.store32 (base + word) 0) (g.arena a)) := by
    intro words
    induction words with
    | nil => exact fun a => .ok rfl ⟨rfl, rfl⟩
    | cons word words ih =>
      intro a
      rw [List.foldlM_cons, List.foldlM_cons]
      refine (g.store_mirrors a _ _).bind ?_
      rintro b ⟨hid, hcapacity⟩
      exact (ih b).imp fun c hc => ⟨hc.1.trans hid, hc.2.trans hcapacity⟩
  refine (hwords [0, 4, 8, 12] t.arena).bind ?_
  rintro a ⟨hid, hcapacity⟩
  exact .ok rfl (h.withArena hid hcapacity)

/-! ### Creating -/

/-- The value and the stamp of a node are the first half of it. -/
theorem writeHeader_unlike (hu : g.Unlike base hi t.arena t'.arena)
    (hin : base + Node.size ≤ t.arena.capacity) (data : UInt16) (stamp : UInt32) :
    ∃ a a', t.writeHeader base data stamp = .ok (t.withArena a) ∧
      t'.writeHeader base data stamp = .ok (t'.withArena a') ∧
      a.id = t.arena.id ∧ a.capacity = t.arena.capacity ∧
      g.Unlike (base + Node.nextStampField) hi a a' := by
  have hroom : ∀ k ≤ Node.size, base + k ≤ t.arena.capacity := fun k hk => by omega
  -- the fields follow one another, so each word begins where the difference then begins
  have hu₀ : g.Unlike (base + Node.dataField) hi t.arena t'.arena := hu
  obtain ⟨a₁, a₁', hdata, hdata', hid₁, hcap₁, hu₁⟩ :=
    hu₀.word 2 data.toNat (hroom 2 (by decide))
  have hu₁ : g.Unlike (base + Node.reservedField) hi a₁ a₁' := hu₁
  obtain ⟨a₂, a₂', hreserved, hreserved', hid₂, hcap₂, hu₂⟩ :=
    hu₁.word 2 (0 : UInt16).toNat (hcap₁ ▸ hroom 4 (by decide))
  have hu₂ : g.Unlike (base + Node.stampField) hi a₂ a₂' := hu₂
  obtain ⟨a₃, a₃', hstamp, hstamp', hid₃, hcap₃, hu₃⟩ :=
    hu₂.word 4 stamp.toNat (hcap₂ ▸ hcap₁ ▸ hroom 8 (by decide))
  refine ⟨a₃, a₃', ?_, ?_, hid₃.trans (hid₂.trans hid₁), hcap₃.trans (hcap₂.trans hcap₁), hu₃⟩
  · simp only [writeHeader, Arena.store16, Arena.store32, hdata, hreserved, hstamp, Checked.ok_bind]
    rfl
  · simp only [writeHeader, Arena.store16, Arena.store32, hdata', hreserved', hstamp',
      Checked.ok_bind]
    rfl

/-- The link of a node is the second half of it. -/
theorem writeNext_unlike (hu : g.Unlike (base + Node.nextStampField) hi t.arena t'.arena)
    (hin : base + Node.size ≤ t.arena.capacity) (next : Option NodeRef) :
    ∃ a a', t.writeNext base next = .ok (t.withArena a) ∧
      t'.writeNext base (g.link next) = .ok (t'.withArena a') ∧
      a.id = t.arena.id ∧ a.capacity = t.arena.capacity ∧
      g.Unlike (base + Node.size) hi a a' := by
  have hroom : ∀ k ≤ Node.size, base + k ≤ t.arena.capacity := fun k hk => by omega
  have hcell : Cell.leadingTo 0 0 (g.link next) = Cell.leadingTo 0 0 next := by
    cases next <;> rfl
  obtain ⟨a₁, a₁', hstamp, hstamp', hid₁, hcap₁, hu₁⟩ :=
    hu.word 4 (Cell.leadingTo 0 0 next).nextStamp.toNat (hroom 12 (by decide))
  have hu₁ : g.Unlike (base + Node.nextOffsetField) hi a₁ a₁' := hu₁
  obtain ⟨a₂, a₂', hoffset, hoffset', hid₂, hcap₂, hu₂⟩ :=
    hu₁.word 4 (Cell.leadingTo 0 0 next).nextOffset.toNat (hcap₁ ▸ hroom 16 (by decide))
  refine ⟨a₂, a₂', ?_, ?_, hid₂.trans hid₁, hcap₂.trans hcap₁, hu₂⟩
  · simp only [writeNext_eq t base 0 0, Arena.store32, hstamp, hoffset, Checked.ok_bind]
    rfl
  · simp only [writeNext_eq t' base 0 0, hcell, Arena.store32, hstamp', hoffset', Checked.ok_bind]
    rfl

theorem toWord_mirrors (offset : Nat) :
    Mirrors id (fun w : UInt32 => w.toNat = offset) (Size.toWord offset) (Size.toWord offset) := by
  unfold Size.toWord
  by_cases hlt : offset < UInt32.size
  · rw [if_pos hlt]
    exact .ok rfl (UInt32.toNat_ofNat_of_lt' hlt)
  · rw [if_neg hlt]
    exact .error _

/-- Write a node into its slot. -/
def inscribe (t : NodeTable) (n : NodeRef) (data : UInt16) (next : Option NodeRef)
    (log : List Event) : Checked (Reply Error NodeTable Event NodeRef) := do
  let base ← t.slotOf n
  let t ← t.writeHeader base data n.stamp
  let t ← t.writeNext base next
  return ⟨.ok n, t, log⟩

/-- Whatever the bytes of the slot were, they are all written. -/
theorem inscribe_mirrors {a' : Arena} (h : t.Over home)
    (hin : n.offset.toNat + Node.size ≤ t.arena.capacity)
    (hu : g.Unlike n.offset.toNat (n.offset.toNat + Node.size) t.arena a') (data : UInt16)
    (next : Option NodeRef) (log : List Event) :
    Mirrors g.made (fun r => r.state.Over home) (t.inscribe n data next log)
      (((g.table t).withArena a').inscribe (g.node n) data (g.link next) (log.map g.event)) := by
  have hin' : n.offset.toNat + Node.size ≤ a'.capacity :=
    Nat.le_trans hin (Nat.le_of_eq hu.capacity.symm)
  have hslot : t.slotOf n = .ok n.offset.toNat := slotOf_eq hin
  have hslot' : ((g.table t).withArena a').slotOf (g.node n) = .ok n.offset.toNat := slotOf_eq hin'
  obtain ⟨b, b', hheader, hheader', hid₁, hcap₁, hu₁⟩ :=
    @writeHeader_unlike g t ((g.table t).withArena a') _ _ hu hin data n.stamp
  have hin₁ : n.offset.toNat + Node.size ≤ b.capacity := Nat.le_trans hin (Nat.le_of_eq hcap₁.symm)
  obtain ⟨c, c', hnext, hnext', hid₂, hcap₂, hu₂⟩ :=
    @writeNext_unlike g (t.withArena b) ((g.table t).withArena b') _ _ hu₁ hin₁ next
  obtain rfl := hu₂.eq
  have hheader' : ((g.table t).withArena a').writeHeader n.offset.toNat data (g.node n).stamp =
      .ok ((g.table t).withArena b') := hheader'
  have hinscribe : t.inscribe n data next log = .ok ⟨.ok n, t.withArena c, log⟩ := by
    simp only [inscribe, hslot, hheader, hnext, Checked.ok_bind]
    rfl
  have hinscribe' : ((g.table t).withArena a').inscribe (g.node n) data (g.link next)
      (log.map g.event) = .ok (g.made ⟨.ok n, t.withArena c, log⟩) := by
    simp only [inscribe, hslot', hheader', hnext', Checked.ok_bind]
    rfl
  rw [hinscribe, hinscribe']
  exact .ok rfl (h.withArena (hid₂.trans hid₁) (hcap₂.trans hcap₁))

theorem Over.withPool_none (h : t.Over home) : (t.withPool {}).Over home :=
  ⟨⟨.nil _, h.sound.small⟩, h.arena⟩

/-- Two tables of which one mirrors the other create the same node: the bytes
in which the pool leaves them different are all written. -/
theorem create_mirrors (h : t.Over home) (data : UInt16) (next : Option NodeRef) :
    Mirrors g.made (fun r => r.state.Over home) (t.create data next)
      ((g.table t).create data (g.link next)) := by
  cases hlive : t.isLive with
  | false =>
    have hlive' : (g.table t).isLive = false := hlive
    unfold create
    rw [pool_of_ended hlive, pool_of_ended hlive']
    exact .ok rfl h.withPool_none
  | true =>
    have hlive' : (g.table t).isLive = true := hlive
    obtain ⟨r, r', hr, hr', hcase⟩ := g.allocate_guise h.sound Node.size
    have halloc : t.pool.allocate Node.size = _ := pool_of_live hlive ▸ Pool.allocate_some hr
    have halloc' : (g.table t).pool.allocate Node.size = _ :=
      pool_of_live hlive' ▸ Pool.allocate_some hr'
    unfold create
    rw [halloc, halloc']
    cases hcase with
    | refused => exact .ok rfl h
    | @placed offset layout a a' hin hid hunlike hsound =>
      refine (toWord_mirrors offset).bind ?_
      rintro w rfl
      -- the tables are no mirror images here, for one pool zeroed the block: so no rule for
      -- `bind` applies until the node is in it
      let t₁ : NodeTable :=
        { t with space := ⟨a, layout, t.space.zeroing⟩, nextStamp := t.takeStamp.1 + 1 }
      have hover : t₁.Over home := ⟨hsound, hid.trans h.arena⟩
      have hnew := @inscribe_mirrors g t₁ ⟨a.id, w, t.takeStamp.1⟩ home a' hover hin hunlike data
        next [.pool (.allocated w.toNat Node.size)]
      have hname : g.node ⟨a.id, w, t.takeStamp.1⟩ = ⟨a'.id, w, t.takeStamp.1⟩ := by
        rw [hunlike.id]
        rfl
      rw [hname] at hnew
      exact hnew

/-! ### Releasing -/

theorem pool_guise (t : NodeTable) : (g.table t).pool = g.pool t.pool := by
  unfold pool
  show (if t.isLive then _ else _) = g.pool (if t.isLive then _ else _)
  cases t.isLive <;> rfl

theorem withPool_guise (t : NodeTable) (p : Pool) :
    (g.table t).withPool (g.pool p) = g.table (t.withPool p) := by
  obtain ⟨space?⟩ := p
  cases space? <;> rfl

theorem free_mirrors (h : t.Over home) (hd : Pool.Handle) :
    Mirrors (Reply.through g.pool g.poolEvent id) (fun r => (t.withPool r.state).Over home)
      (t.pool.free hd) ((g.table t).pool.free (g.handle hd)) := by
  cases hlive : t.isLive with
  | false =>
    have hlive' : (g.table t).isLive = false := hlive
    rw [pool_of_ended hlive, pool_of_ended hlive']
    exact .ok rfl h.withPool_none
  | true =>
    have hlive' : (g.table t).isLive = true := hlive
    obtain ⟨⟨answer, s⟩, hr, -⟩ := Space.free_cases h.sound hd
    have hmirrors := Guise.free_mirrors (g := g) h.sound hd
    obtain ⟨hsound, harena⟩ := hmirrors.post _ hr
    have hr' : (g.table t).space.free (g.handle hd) = .ok (answer, g.space s) := by
      rw [hr] at hmirrors
      exact hmirrors.eq
    rw [pool_of_live hlive, pool_of_live hlive', Pool.free_some hr, Pool.free_some hr']
    cases answer <;> exact .ok rfl ⟨hsound, harena.trans h.arena⟩

theorem release_mirrors (h : t.Over home) (n : NodeRef) :
    Mirrors (fun r => (g.table r.1, r.2.map g.event)) (fun r => r.1.Over home)
      (t.release n) ((g.table t).release (g.node n)) := by
  refine (Mirrors.same (t.slotOf n)).bind fun base _ => ?_
  refine (erase_mirrors h base).bind fun t₁ h₁ => ?_
  refine (free_mirrors h₁ ⟨n.arena, base, Node.size⟩).bind ?_
  rintro ⟨answer, p, log⟩ hover
  have hstate : (g.table t₁).withPool (g.pool p) = g.table (t₁.withPool p) := withPool_guise t₁ p
  have hlog : (log.map g.poolEvent).map Event.pool = (log.map Event.pool).map g.event :=
    (Guise.map_pool log).symm
  rcases answer with e | u
  · cases e <;> exact .ok (by simp [Reply.through, hstate, hlog, Guise.event]) hover
  · exact .ok (by simp [Reply.through, hstate, hlog]) hover

theorem tearDown_guise (t : NodeTable) :
    (g.table t).tearDown = (g.table t.tearDown.1, t.tearDown.2.map g.event) := by
  unfold tearDown
  rw [pool_guise]
  obtain ⟨space?⟩ := t.pool
  cases space? <;> rfl

theorem Over.tearDown (h : t.Over home) : t.tearDown.1.Over home := by
  have hpool : t.pool.tearDown.state = {} := by
    obtain ⟨space?⟩ := t.pool
    cases space? <;> rfl
  show (t.withPool t.pool.tearDown.state).Over home
  rw [hpool]
  exact h.withPool_none

/-! ### Walking -/

theorem lastFrom_guise (t : NodeTable) : ∀ (steps : Nat) (n : NodeRef),
    (g.table t).lastFrom steps (g.node n) = (t.lastFrom steps n).map g.node
  | 0, _ => rfl
  | steps + 1, n => by
    unfold lastFrom
    rw [next_guise]
    rcases t.next n with e | next
    · rfl
    · cases next with
      | none => rfl
      | some m => exact lastFrom_guise t steps m

end NodeTable

namespace Guise

/-- Where a walk stops. -/
def stop (g : Guise) (s : NodeTable.Stop) : NodeTable.Stop :=
  ⟨g.link s.previous, g.node s.node, g.record s.record⟩

end Guise

namespace NodeTable

variable {g : Guise} {meets meets' : Record → Bool}

/-- A walk stops at the same node if it looks for the same. -/
theorem walk_guise (t : NodeTable) (hmeets : ∀ r, meets' (g.record r) = meets r) :
    ∀ (steps : Nat) (previous : Option NodeRef) (n : NodeRef),
      (g.table t).walk meets' steps (g.link previous) (g.node n) =
        (t.walk meets steps previous n).map (Option.map g.stop)
  | 0, _, _ => rfl
  | steps + 1, previous, n => by
    unfold walk
    rw [record_guise]
    rcases t.record n with e | ⟨data, next⟩
    · rfl
    · simp only [Except.map, Checked.ok_bind, hmeets]
      by_cases hstop : meets ⟨data, next⟩ = true
      · rw [if_pos hstop, if_pos hstop]
        rfl
      · rw [if_neg hstop, if_neg hstop]
        cases next with
        | none => rfl
        | some m => exact walk_guise t hmeets steps (some n) m

theorem findValue_guise (t : NodeTable) (data : UInt16) (first : NodeRef) :
    (g.table t).findValue data (g.node first) =
      (t.findValue data first).map (Option.map g.stop) :=
  walk_guise t (fun _ => rfl) t.slots none first

theorem findBefore_guise (t : NodeTable) (target first : NodeRef) :
    (g.table t).findBefore (g.node target) (g.node first) =
      (t.findBefore target first).map (Option.map g.stop) := by
  apply walk_guise t _ t.slots none first
  rintro ⟨data, next⟩
  have hiff : g.link next = some (g.node target) ↔ next = some target :=
    (Option.map_injective Guise.node_injective).eq_iff (b := some target)
  show (g.link next == some (g.node target)) = (next == some target)
  rw [Bool.eq_iff_iff, beq_iff_eq, beq_iff_eq, hiff]

end NodeTable
end FirstFit
