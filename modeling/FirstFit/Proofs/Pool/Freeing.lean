/-
# Giving blocks back

A block that is given back leaves the others where they are, and the arena as
it is. So the order in which blocks are given back plays no part, and what was
placed meanwhile leaves no trace in the layout once it is given back, in
whatever order.

Key definitions: `Space.without`, `Space.NamesEach`, `Space.Lent`, `Pool.granted`,
`Pool.Restores`.
Key theorems: `Accepts.free_eq`, `frees_eq`, `Lent.cons`, `allocates_lent`,
`restores_of_reached`.
-/
import FirstFit.Proofs.Pool.Allocate
import FirstFit.Proofs.Pool.Handles

namespace FirstFit

/-! ### The blocks that stay -/

namespace Space

open Pool (Error Handle)
open Layout (WellFormed)

variable {s s' : Space} {h : Handle} {handles handles' rest : List Handle} {pre post : List Block}
  {b : Block}

/-- The blocks that start at the offset of none of the handles. -/
def without (s : Space) (handles : List Handle) : List Block :=
  s.layout.blocks.filter fun b => ∀ h ∈ handles, h.offset ≠ b.start

theorem mem_without : b ∈ s.without handles ↔
    b ∈ s.layout.blocks ∧ ∀ h ∈ handles, h.offset ≠ b.start := by
  rw [without, List.mem_filter, decide_eq_true_iff]

theorem without_nil (s : Space) : s.without [] = s.layout.blocks :=
  List.filter_eq_self.2 fun _ _ => decide_eq_true nofun

theorem without_perm (hp : handles.Perm handles') : s.without handles = s.without handles' :=
  List.filter_congr fun _ _ => decide_eq_decide.2 (forall_congr' fun _ => imp_congr_left hp.mem_iff)

theorem without_append (s : Space) (handles handles' : List Handle) :
    s.without (handles ++ handles') =
      (s.without handles).filter fun b => ∀ h ∈ handles', h.offset ≠ b.start := by
  rw [without, without, List.filter_filter]
  refine List.filter_congr fun b _ => ?_
  rw [← Bool.decide_and, decide_eq_decide, List.forall_mem_append, and_comm]

/-- Every one of the handles names a block, and no two name the same. -/
structure NamesEach (s : Space) (handles : List Handle) : Prop where
  accepted : ∀ h ∈ handles, s.Accepts h
  different : handles.Pairwise fun h h' => h.offset ≠ h'.offset

theorem NamesEach.perm (hn : s.NamesEach handles) (hp : handles'.Perm handles) :
    s.NamesEach handles' :=
  ⟨fun h hh => hn.accepted h (hp.mem_iff.1 hh), (hp.pairwise_iff Ne.symm).2 hn.different⟩

/-- Another block is named as before when the first one is gone. -/
theorem NamesEach.tail (hn : s.NamesEach (h :: rest)) :
    NamesEach { s with layout := ⟨s.without [h]⟩ } rest := by
  obtain ⟨hdifferent, hrest⟩ := List.pairwise_cons.1 hn.different
  refine ⟨fun h' hh' => ?_, hrest⟩
  obtain ⟨harena, b, hb, hstart⟩ := hn.accepted h' (List.mem_cons_of_mem _ hh')
  refine ⟨harena, b, mem_without.2 ⟨hb, List.forall_mem_singleton.2 ?_⟩, hstart⟩
  rw [hstart]
  exact hdifferent h' hh'

theorem Names.without_eq (hn : s.Names h pre b post) (hs : s.Sound) :
    s.without [h] = pre ++ post := by
  have hstart : s.without [h] = (pre ++ b :: post).filter fun c => c.start ≠ b.start := by
    rw [without, hn.blocks]
    refine List.filter_congr fun c _ => decide_eq_decide.2 ?_
    rw [List.forall_mem_singleton, hn.start, ne_comm]
  rw [hstart, List.filter_append, List.filter_cons_of_neg (by simp), ← List.filter_append]
  exact List.filter_eq_self.2 fun c hc => decide_eq_true ((hn.wellFormed hs).start_ne hc)

/-- Giving back a block changes nothing but that the block is gone. -/
theorem Accepts.free_eq (ha : s.Accepts h) (hs : s.Sound) :
    ∃ b, s.free h = .ok (.ok b, { s with layout := ⟨s.without [h]⟩ }) := by
  obtain ⟨pre, b, post, hn⟩ := ha.names
  exact ⟨b, by rw [hn.free_eq hs, hn.without_eq hs]⟩

theorem Sound.without (hs : s.Sound) (handles : List Handle) :
    Sound { s with layout := ⟨s.without handles⟩ } :=
  hs.mono rfl (hs.wellFormed.sublist List.filter_sublist)

/-! ### Blocks that are placed for a while -/

/-- `s'` has the blocks of `s`, and one more for each of the handles. -/
structure Lent (s : Space) (handles : List Handle) (s' : Space) : Prop where
  sound : s'.Sound
  id : s'.arena.id = s.arena.id
  named : s'.NamesEach handles
  others : s'.without handles = s.layout.blocks

theorem Sound.lent (hs : s.Sound) : s.Lent [] s :=
  ⟨hs, rfl, ⟨nofun, .nil⟩, s.without_nil⟩

/-- A block that is placed has a new start. -/
theorem Allocated.lent {size : Nat} {r : Except Error Handle × Space} (hs : s.Sound)
    (hr : s.Allocated size r) (hh : r.1 = .ok h) : s.Lent [h] r.2 := by
  cases hr with
  | refused => exact nomatch hh
  | outOfSpace => exact nomatch hh
  | @placed pre post offset arena ha hsplit hfit hbytes =>
    obtain rfl := Except.ok.inj hh
    have hafter := (Allocated.placed ha hsplit hfit hbytes).sound hs
    have hnames : Names { s with arena, layout := ⟨pre ++ ⟨offset, size⟩ :: post⟩ }
        (s.handle ⟨offset, size⟩) pre ⟨offset, size⟩ post := ⟨hbytes.id.symm, rfl, rfl⟩
    exact {
      sound := hafter
      id := hbytes.id
      named := ⟨List.forall_mem_singleton.2
        ⟨hnames.arena, _, (hnames.wellFormed hafter).mem_split, rfl⟩, List.pairwise_singleton _ _⟩
      others := (hnames.without_eq hafter).trans hsplit.symm }

/-- What is placed later starts elsewhere, and leaves the blocks before it alone. -/
theorem Lent.cons {first : Space} (hfirst : s.Lent [h] first) (hrest : first.Lent rest s') :
    s.Lent (h :: rest) s' := by
  obtain ⟨harena, b, hb, hstart⟩ := hfirst.named.accepted h List.mem_cons_self
  rw [← hrest.others] at hb
  obtain ⟨hmem, hother⟩ := mem_without.1 hb
  have haccepts : s'.Accepts h := ⟨harena.trans hrest.id.symm, b, hmem, hstart⟩
  have hdifferent : ∀ h' ∈ rest, h.offset ≠ h'.offset := by
    intro h' hh'
    rw [← hstart]
    exact (hother h' hh').symm
  exact {
    sound := hrest.sound
    id := hrest.id.trans hfirst.id
    named := ⟨List.forall_mem_cons.2 ⟨haccepts, hrest.named.accepted⟩,
      List.pairwise_cons.2 ⟨hdifferent, hrest.named.different⟩⟩
    others := by
      have hlast : s'.without (h :: rest) = s'.without (rest ++ [h]) :=
        without_perm (List.perm_append_singleton h rest).symm
      rw [hlast, without_append, hrest.others]
      exact hfirst.others }

end Space

/-! ### Runs -/

namespace Pool

variable {s : Space} {handles : List Handle}

/-- The handles in a list of answers. -/
def granted (answers : List (Except Error Answer)) : List Handle :=
  answers.filterMap fun
    | .ok (.handle h) => some h
    | _ => none

/-- Blocks are given back one after another: the induction is on the handles
that are left, which name what they named. -/
theorem frees_eq : ∀ {handles : List Handle} {s : Space}, s.Sound → s.NamesEach handles →
    ∀ supply, ∃ log, serveAll ⟨some s⟩ supply (handles.map .free) =
      .ok (handles.map fun _ => .ok .done,
        (⟨some { s with layout := ⟨s.without handles⟩ }⟩, supply), log)
  | [], s, _, _, supply => ⟨[], by rw [s.without_nil]; rfl⟩
  | h :: rest, s, hs, hn, supply => by
    obtain ⟨b, hfree⟩ := (hn.accepted h List.mem_cons_self).free_eq hs
    obtain ⟨log, hrest⟩ := frees_eq (hs.without [h]) hn.tail supply
    have hall : Space.without { s with layout := ⟨s.without [h]⟩ } rest = s.without (h :: rest) :=
      (s.without_append [h] rest).symm
    rw [hall] at hrest
    exact ⟨_, serveAll_cons (serve_free hfree) hrest⟩

/-- Blocks are placed one after another, or refused. -/
theorem allocates_lent : ∀ (sizes : List Nat) {s : Space}, s.Sound → ∀ supply,
    ∃ answers s' log, serveAll ⟨some s⟩ supply (sizes.map .allocate) =
      .ok (answers, (⟨some s'⟩, supply), log) ∧ s.Lent (granted answers) s'
  | [], s, hs, _ => ⟨[], s, [], rfl, hs.lent⟩
  | size :: rest, s, hs, supply => by
    obtain ⟨r, hr, hcase⟩ := Space.allocate_cases hs size
    obtain ⟨answers, s', log, hrest, hlent⟩ := allocates_lent rest (hcase.sound hs) supply
    refine ⟨_, s', _, serveAll_cons (serve_allocate hr) hrest, ?_⟩
    cases hanswer : r.1 with
    | error e =>
      rw [hcase.eq_of_error hanswer] at hlent
      exact hlent
    | ok h => exact (hcase.lent hs hanswer).cons hlent

/-! ### Giving back blocks of a pool that can be reached -/

/-- What it comes to that blocks of a pool with the space `s` are given back. -/
structure Restores (s : Space) (supply : Supply) : Prop where
  /-- Every order succeeds and ends alike: the other blocks are left, and every
  byte of the arena. -/
  anyOrder : ∀ handles, s.NamesEach handles → ∀ order : List Handle, order.Perm handles →
    ∃ log, serveAll ⟨some s⟩ supply (order.map .free) =
      .ok (order.map fun _ => .ok .done,
        (⟨some { s with layout := ⟨s.without handles⟩ }⟩, supply), log)
  /-- Without blocks the arena is one gap. -/
  emptied : ∀ handles, s.NamesEach handles →
    (∀ b ∈ s.layout.blocks, ∃ h ∈ handles, h.offset = b.start) →
    ∃ last figures log, serveAll ⟨some s⟩ supply (handles.map .free) =
        .ok (handles.map fun _ => .ok .done, (last, supply), log) ∧
      last.blocks = [] ∧ last.stats = .ok (.ok figures) ∧ figures.largestGap = s.capacity
  /-- A block that is given back at once was never there. -/
  undone : ∀ size : Nat, ∃ placed, serve ⟨some s⟩ supply (.allocate size) = .ok placed ∧
    ∀ h, placed.answer = .ok (.handle h) →
      ∃ freed, placed.state.1.serve placed.state.2 (.free h) = .ok freed ∧
        freed.answer = .ok .done ∧ freed.state.1.blocks = s.layout.blocks
  /-- Neither were many that are given back in any order, whatever was refused meanwhile. -/
  undoneAll : ∀ sizes : List Nat, ∃ answers placed log,
    serveAll ⟨some s⟩ supply (sizes.map .allocate) = .ok (answers, (placed, supply), log) ∧
    ∀ order : List Handle, order.Perm (granted answers) →
      ∃ last log', placed.serveAll supply (order.map .free) =
          .ok (order.map fun _ => .ok .done, (last, supply), log') ∧
        last.blocks = s.layout.blocks

/-- Blocks of a pool that can be reached are given back in any order with the same
result, and giving back what was placed undoes it. -/
theorem restores_of_reached (hreached : Reached ⟨some s⟩) (supply : Supply) :
    Restores s supply := by
  have hs : s.Sound := sound_some.1 hreached.sound
  exact {
    anyOrder := by
      intro handles hn order hperm
      obtain ⟨log, hrun⟩ := frees_eq hs (hn.perm hperm) supply
      rw [Space.without_perm hperm] at hrun
      exact ⟨log, hrun⟩
    emptied := by
      intro handles hn hall
      obtain ⟨log, hrun⟩ := frees_eq hs hn supply
      have hnone : s.without handles = [] := by
        refine List.eq_nil_iff_forall_not_mem.2 fun b hb => ?_
        obtain ⟨hmem, hother⟩ := Space.mem_without.1 hb
        obtain ⟨h, hh, hstart⟩ := hall b hmem
        exact hother h hh hstart
      rw [hnone] at hrun
      have hempty : Space.Sound { s with layout := ⟨[]⟩ } := hs.mono rfl (.nil _)
      exact ⟨_, _, log, hrun, rfl,
        stats_some (Space.stats_eq hempty (Layout.largestGap_nil s.capacity)), rfl⟩
    undone := by
      intro size
      obtain ⟨r, hr, hcase⟩ := Space.allocate_cases hs size
      refine ⟨_, serve_allocate hr, fun h hanswer => ?_⟩
      obtain ⟨_, hgranted, hsame⟩ := Reply.ok_of_map hanswer
      obtain rfl := Answer.handle.inj hsame
      have hlent := hcase.lent hs hgranted
      obtain ⟨b, hfree⟩ := (hlent.named.accepted _ List.mem_cons_self).free_eq hlent.sound
      exact ⟨_, serve_free hfree, rfl, hlent.others⟩
    undoneAll := by
      intro sizes
      obtain ⟨answers, s', log, hrun, hlent⟩ := allocates_lent sizes hs supply
      refine ⟨answers, _, log, hrun, fun order hperm => ?_⟩
      obtain ⟨log', hfrees⟩ := frees_eq hlent.sound (hlent.named.perm hperm) supply
      exact ⟨_, log', hfrees, (Space.without_perm hperm).trans hlent.others⟩ }

/-- Two of three blocks are given back, the later one first. Of three requests
two are granted, and undone in the order in which they came. -/
theorem restores_of_reached_order :
    let rs : List Request := [.initialise ⟨8, true⟩, .allocate 2, .allocate 1, .allocate 2]
    ∃ answers s supply log, serveAll {} {} rs = .ok (answers, (⟨some s⟩, supply), log) ∧
      s.layout.blocks = [⟨0, 2⟩, ⟨2, 1⟩, ⟨3, 2⟩] ∧
      s.NamesEach [⟨⟨1⟩, 0, 2⟩, ⟨⟨1⟩, 2, 7⟩] ∧
      (∃ log', serveAll ⟨some s⟩ supply [.free ⟨⟨1⟩, 2, 7⟩, .free ⟨⟨1⟩, 0, 2⟩] =
        .ok ([.ok .done, .ok .done], (⟨some { s with layout := ⟨[⟨3, 2⟩]⟩ }⟩, supply), log')) ∧
      ∃ answers' placed log', serveAll ⟨some s⟩ supply [.allocate 2, .allocate 4, .allocate 1] =
          .ok (answers', (placed, supply), log') ∧
        placed.blocks = [⟨0, 2⟩, ⟨2, 1⟩, ⟨3, 2⟩, ⟨5, 2⟩, ⟨7, 1⟩] ∧
        ∃ last log'', placed.serveAll supply [.free ⟨⟨1⟩, 5, 2⟩, .free ⟨⟨1⟩, 7, 1⟩] =
            .ok ([.ok .done, .ok .done], (last, supply), log'') ∧
          last.blocks = s.layout.blocks := by
  intro rs
  have hlive := reached_of_any rs (fun s supply =>
    decide (s.arena.id = ⟨1⟩ ∧ s.layout.blocks = [⟨0, 2⟩, ⟨2, 1⟩, ⟨3, 2⟩]) &&
      (serveAll ⟨some s⟩ supply [.allocate 2, .allocate 4, .allocate 1]).toOption.any fun placed =>
        decide (granted placed.1 = [⟨⟨1⟩, 5, 2⟩, ⟨⟨1⟩, 7, 1⟩] ∧
          placed.2.1.1.blocks = [⟨0, 2⟩, ⟨2, 1⟩, ⟨3, 2⟩, ⟨5, 2⟩, ⟨7, 1⟩])) (by decide)
  obtain ⟨answers, s, supply, log, hrun, hreached, hs⟩ := hlive
  obtain ⟨hfacts, hplaced⟩ := Bool.and_eq_true_iff.1 hs
  obtain ⟨hid, hblocks⟩ := of_decide_eq_true hfacts
  have hrestores := restores_of_reached hreached supply
  have hn : s.NamesEach [⟨⟨1⟩, 0, 2⟩, ⟨⟨1⟩, 2, 7⟩] := by
    constructor
    · simp [Space.Accepts, hid, hblocks]
    · decide
  obtain ⟨log', hfrees⟩ := hrestores.anyOrder _ hn [⟨⟨1⟩, 2, 7⟩, ⟨⟨1⟩, 0, 2⟩] (.swap ..)
  have hleft : s.without [⟨⟨1⟩, 0, 2⟩, ⟨⟨1⟩, 2, 7⟩] = [⟨3, 2⟩] := by
    rw [Space.without, hblocks]
    rfl
  rw [hleft] at hfrees
  obtain ⟨answers', placed, log'', hallocates, hundone⟩ := hrestores.undoneAll [2, 4, 1]
  rw [List.map_cons, List.map_cons, List.map_cons, List.map_nil] at hallocates
  rw [hallocates] at hplaced
  obtain ⟨hgranted, hafter⟩ := of_decide_eq_true hplaced
  exact ⟨answers, s, supply, log, hrun, hblocks, hn, ⟨log', hfrees⟩, answers', placed, log'',
    hallocates, hafter, hundone [⟨⟨1⟩, 5, 2⟩, ⟨⟨1⟩, 7, 1⟩] (.of_eq hgranted.symm)⟩

end Pool
end FirstFit
