/-
# The log of a pool as a journal

Whoever reads the log of a pool from the beginning, and sees nothing else of
it, knows its blocks at every moment. The handle in a request may have a length
that its block has no longer, and may name a block that took the place of
another. What is logged is what the layout says: the length of a block that is
given back is the one it had, and the source of a resize is the block that was
there.

Key definitions: `Event.follow`, `Pool.retrace`, `Request.rejection`,
`Pool.Recorded`.
Key theorems: `serve_retrace`, `serve_rejected`, `Recorded.retrace`,
`journal_of_recorded`.
-/
import Mathlib.Data.Finset.Card
import FirstFit.Proofs.Pool.Reached

namespace FirstFit

/-! ### Blocks as a set -/

theorem Block.toFinset_insert (pre post : List Block) (b : Block) :
    (pre ++ b :: post).toFinset = insert b (pre ++ post).toFinset :=
  (List.toFinset_eq_of_perm _ _ List.perm_middle).trans List.toFinset_cons

namespace Layout

variable {pre post : List Block} {b : Block} {capacity : Nat}

theorem WellFormed.toFinset_erase (h : WellFormed (pre ++ b :: post) capacity) :
    (pre ++ b :: post).toFinset.erase b = (pre ++ post).toFinset := by
  have hb : b ∉ pre ++ post := fun hm => h.start_ne hm rfl
  rw [Block.toFinset_insert, Finset.erase_insert fun hm => hb (List.mem_toFinset.1 hm)]

/-- One block starts where `b` does. -/
theorem WellFormed.filter_start (h : WellFormed (pre ++ b :: post) capacity) :
    (pre ++ b :: post).toFinset.filter (fun a => a.start = b.start) = {b} := by
  ext a
  rw [Finset.mem_filter, List.mem_toFinset, Finset.mem_singleton]
  constructor
  · rintro ⟨ha, hstart⟩
    exact h.eq_of_start ha h.mem_split hstart
  · rintro rfl
    exact ⟨h.mem_split, rfl⟩

/-- The others start elsewhere. -/
theorem WellFormed.filter_start_ne (h : WellFormed (pre ++ b :: post) capacity) :
    (pre ++ b :: post).toFinset.filter (fun a => a.start ≠ b.start) = (pre ++ post).toFinset := by
  rw [← h.toFinset_erase, ← Finset.filter_ne']
  refine Finset.filter_congr fun a ha => not_congr ⟨fun hstart => ?_, congrArg Block.start⟩
  exact h.eq_of_start (List.mem_toFinset.1 ha) h.mem_split hstart

end Layout

/-! ### Reading the log -/

namespace Pool

variable {p : Pool} {supply : Supply} {r : Request} {e : Error} {event : Event}
  {present : Finset Block} {log : List Event}

/-- The blocks after an event, to one who knew of those before. There is no
telling if the event does not fit them. -/
def Event.follow (present : Finset Block) : Event → Option (Finset Block)
  | .initialised _ _ => some ∅
  | .tornDown _ liveBlocks => if present.card = liveBlocks then some ∅ else none
  | .allocated offset size =>
    if ∀ b ∈ present, b.stop ≤ offset ∨ offset + size ≤ b.start then
      some (insert ⟨offset, size⟩ present)
    else none
  | .freed offset size =>
    if ⟨offset, size⟩ ∈ present then some (present.erase ⟨offset, size⟩) else none
  | .resized source target newSize _ =>
    if (present.filter fun b => b.start = source).card = 1 then
      some (insert ⟨target, newSize⟩ (present.filter fun b => b.start ≠ source))
    else none
  | _ => some present

/-- The blocks after all events of a log. -/
def retrace (present : Finset Block) (log : List Event) : Option (Finset Block) :=
  log.foldlM Event.follow present

theorem retrace_append (present : Finset Block) (log log' : List Event) :
    retrace present (log ++ log') = (retrace present log).bind (retrace · log') :=
  List.foldlM_append

theorem retrace_singleton (present : Finset Block) (event : Event) :
    retrace present [event] = event.follow present :=
  bind_pure (event.follow present)

end Pool

/-! ### What a space logs -/

namespace Space

open Pool (Error Handle Growth Event)

variable {s : Space} {h : Handle} {size : Nat}

theorem Allocated.follow {r : Except Error Handle × Space} (hr : s.Allocated size r) :
    Event.follow s.layout.blocks.toFinset
      (match r.1 with
        | .ok h => .allocated h.offset size
        | .error e => .allocationRejected size e) = some r.2.layout.blocks.toFinset := by
  cases hr with
  | refused => rfl
  | outOfSpace => rfl
  | @placed pre post offset arena ha hsplit hfit hbytes =>
    have hfree : ∀ b ∈ s.layout.blocks.toFinset, b.stop ≤ offset ∨ offset + size ≤ b.start := by
      intro b hb
      rw [hsplit, List.mem_toFinset] at hb
      exact hfit.isFree.2 b hb
    show (if ∀ b ∈ s.layout.blocks.toFinset, b.stop ≤ offset ∨ offset + size ≤ b.start then
      some (insert ⟨offset, size⟩ s.layout.blocks.toFinset) else none) = _
    rw [if_pos hfree, Block.toFinset_insert, hsplit]

theorem Freed.follow {r : Except Error Block × Space} (hs : s.Sound) (hr : s.Freed h r) :
    Event.follow s.layout.blocks.toFinset
      (match r.1 with
        | .ok b => .freed b.start b.len
        | .error e => .freeRejected h e) = some r.2.layout.blocks.toFinset := by
  cases hr with
  | invalid => rfl
  | @freed pre post b ha hb hsplit =>
    have hw : Layout.WellFormed (pre ++ b :: post) s.capacity := hsplit ▸ hs.wellFormed
    show (if b ∈ s.layout.blocks.toFinset then some (s.layout.blocks.toFinset.erase b)
      else none) = _
    rw [hsplit, if_pos (List.mem_toFinset.2 hw.mem_split), hw.toFinset_erase]

/-- Whichever way the block went, it is the one at the offset of the handle. -/
theorem Resized.follow {r : Except Error (Handle × Growth) × Space} (hs : s.Sound)
    (hr : s.Resized h size r) :
    Event.follow s.layout.blocks.toFinset
      (match r.1 with
        | .ok (new, how) => .resized h.offset new.offset size how
        | .error e => .resizeRejected h size e) = some r.2.layout.blocks.toFinset := by
  cases hr with
  | invalid => rfl
  | refused => rfl
  | outOfSpace => rfl
  | @done pre post front back b offset how arena hl ha hsplit hplace hbytes =>
    have hw : Layout.WellFormed (pre ++ b :: post) s.capacity := hsplit ▸ hs.wellFormed
    obtain ⟨-, _, _, hsplit', hstart, -⟩ := (locate?_eq_some hs).1 hl
    obtain ⟨hrest, -⟩ := hplace.fits hw
    show (if (s.layout.blocks.toFinset.filter fun a => a.start = h.offset).card = 1 then
      some (insert ⟨offset, size⟩ (s.layout.blocks.toFinset.filter fun a => a.start ≠ h.offset))
      else none) = _
    rw [← hstart, hsplit, hw.filter_start, if_pos (Finset.card_singleton b), hw.filter_start_ne,
      Block.toFinset_insert, hrest]

end Space

namespace Pool

variable {p : Pool} {supply : Supply} {r : Request} {e : Error} {event : Event}
  {present : Finset Block} {log : List Event}

/-- An initialisation begins with no block, or says nothing about blocks. -/
theorem initialise_retrace (p : Pool) (supply : Supply) (c : Config) (available : Bool)
    (present : Finset Block) :
    (∃ e, (p.initialise supply c available).answer = .error e ∧
      retrace present (p.initialise supply c available).log = some present) ∨
    (p.initialise supply c available).answer = .ok () ∧
      (p.initialise supply c available).state.1.blocks = [] ∧
      retrace present (p.initialise supply c available).log = some ∅ := by
  unfold initialise
  cases c.validate with
  | error e => exact .inl ⟨e, rfl, rfl⟩
  | ok u =>
    cases p.space? with
    | some s => exact .inl ⟨_, rfl, rfl⟩
    | none =>
      cases Arena.reserve? supply.next c.capacity available with
      | none => exact .inl ⟨_, rfl, rfl⟩
      | some arena => exact .inr ⟨rfl, rfl, rfl⟩

/-- The events of one request lead from the blocks before it to those after it. -/
theorem serve_retrace (hp : p.Sound) {reply : Reply Error (Pool × Supply) Event Answer}
    (hserve : p.serve supply r = .ok reply) :
    retrace p.blocks.toFinset reply.log = some reply.state.1.blocks.toFinset := by
  obtain ⟨space?⟩ := p
  cases r with
  | initialise c available =>
    obtain rfl := Except.ok.inj hserve
    show _ = some (initialise ⟨space?⟩ supply c available).state.1.blocks.toFinset
    rcases initialise_retrace ⟨space?⟩ supply c available (blocks ⟨space?⟩).toFinset with
      ⟨e, he, hlog⟩ | ⟨-, hnone, hlog⟩
    · rw [initialise_error he]
      exact hlog
    · rw [hnone]
      exact hlog
  | renew capacity available =>
    obtain rfl := Except.ok.inj hserve
    show retrace _ (renew ⟨space?⟩ supply capacity available).log =
      some (renew ⟨space?⟩ supply capacity available).state.1.blocks.toFinset
    unfold renew
    rcases initialise_retrace {} supply ⟨capacity, true⟩ available (blocks ⟨space?⟩).toFinset with
      ⟨e, he, hlog⟩ | ⟨hok, hnone, hlog⟩
    · simp only [he]
      exact hlog
    · simp only [hok, hnone]
      exact hlog
  | tearDown =>
    obtain rfl := Except.ok.inj hserve
    cases space? with
    | none => rfl
    | some s =>
      have hcard : s.layout.blocks.toFinset.card = s.layout.size :=
        List.toFinset_card_of_nodup (.of_map _ (sound_some.1 hp).wellFormed.nodup_start)
      exact (retrace_singleton _ _).trans (if_pos hcard)
  | allocate size =>
    cases space? with
    | none => exact Except.ok.inj hserve ▸ rfl
    | some s =>
      obtain ⟨a, ha, hcase⟩ := Space.allocate_cases (sound_some.1 hp) size
      obtain rfl := Except.ok.inj ((serve_allocate ha).symm.trans hserve)
      exact (retrace_singleton _ _).trans hcase.follow
  | free h =>
    cases space? with
    | none => exact Except.ok.inj hserve ▸ rfl
    | some s =>
      obtain ⟨a, ha, hcase⟩ := Space.free_cases (sound_some.1 hp) h
      obtain rfl := Except.ok.inj ((serve_free ha).symm.trans hserve)
      exact (retrace_singleton _ _).trans (hcase.follow (sound_some.1 hp))
  | resize h size =>
    cases space? with
    | none => exact Except.ok.inj hserve ▸ rfl
    | some s =>
      obtain ⟨a, ha, hcase⟩ := Space.resize_cases (sound_some.1 hp) h size
      obtain rfl := Except.ok.inj ((serve_resize ha).symm.trans hserve)
      exact (retrace_singleton _ _).trans (hcase.follow (sound_some.1 hp))
  | read h =>
    cases space? with
    | none => exact Except.ok.inj hserve ▸ rfl
    | some s =>
      obtain ⟨a, ha⟩ := Space.read_ok (sound_some.1 hp) h
      obtain rfl := Except.ok.inj ((serve_read ha).symm.trans hserve)
      rfl
  | write h offset bytes =>
    cases space? with
    | none => exact Except.ok.inj hserve ▸ rfl
    | some s =>
      obtain ⟨a, ha, hcase⟩ := Space.write_cases (sound_some.1 hp) h offset bytes
      obtain rfl := Except.ok.inj ((serve_write ha).symm.trans hserve)
      cases hcase <;> rfl

/-! ### Warnings -/

/-- What is logged when a request to place, give back or resize a block is refused. -/
def Request.rejection : Request → Error → Option Event
  | .allocate size, e => some (.allocationRejected size e)
  | .free h, e => some (.freeRejected h e)
  | .resize h size, e => some (.resizeRejected h size e)
  | _, _ => none

/-- Such an entry is a warning, and says why. -/
theorem Request.rejection_entry (h : r.rejection e = some event) :
    event.entry.level = .warn ∧ ("error", e.message) ∈ event.entry.fields := by
  cases r with
  | allocate size =>
    obtain rfl := Option.some.inj h
    exact ⟨rfl, by simp [Event.entry]⟩
  | free handle =>
    obtain rfl := Option.some.inj h
    exact ⟨rfl, by simp [Event.entry]⟩
  | resize handle size =>
    obtain rfl := Option.some.inj h
    exact ⟨rfl, by simp [Event.entry]⟩
  | _ => exact nomatch h

/-- A live pool logs the refusal and nothing else. -/
theorem serve_rejected (hp : p.Sound) (hlive : p.isLive = true)
    {reply : Reply Error (Pool × Supply) Event Answer} (hserve : p.serve supply r = .ok reply)
    (he : reply.answer = .error e) (hr : r.rejection e = some event) : reply.log = [event] := by
  obtain ⟨space?⟩ := p
  cases space? with
  | none => exact nomatch hlive
  | some s =>
    cases r with
    | allocate size =>
      obtain ⟨⟨answer, s'⟩, ha, -⟩ := Space.allocate_cases (sound_some.1 hp) size
      obtain rfl := Except.ok.inj ((serve_allocate ha).symm.trans hserve)
      obtain rfl : answer = .error e := Reply.error_of_map he
      exact congrArg (fun event => [event]) (Option.some.inj hr)
    | free h =>
      obtain ⟨⟨answer, s'⟩, ha, -⟩ := Space.free_cases (sound_some.1 hp) h
      obtain rfl := Except.ok.inj ((serve_free ha).symm.trans hserve)
      obtain rfl : answer = .error e := Reply.error_of_map he
      exact congrArg (fun event => [event]) (Option.some.inj hr)
    | resize h size =>
      obtain ⟨⟨answer, s'⟩, ha, -⟩ := Space.resize_cases (sound_some.1 hp) h size
      obtain rfl := Except.ok.inj ((serve_resize ha).symm.trans hserve)
      obtain rfl : answer = .error e := Reply.error_of_map he
      exact congrArg (fun event => [event]) (Option.some.inj hr)
    | _ => exact nomatch hr

/-! ### The log of a run -/

/-- A pool that can be reached, and all that was logged on the way. -/
inductive Recorded : List Event → Pool → Prop
  | new : Recorded [] {}
  | serve {log : List Event} {p : Pool} {supply : Supply} {r : Request}
      {reply : Reply Error (Pool × Supply) Event Answer} (h : Recorded log p)
      (hserve : p.serve supply r = .ok reply) : Recorded (log ++ reply.log) reply.state.1
  | store {log : List Event} {s : Space} {offset : Nat} {bytes : List UInt8} {arena : Arena}
      (h : Recorded log ⟨some s⟩) (hstore : s.arena.store offset bytes = .ok arena) :
      Recorded log ⟨some { s with arena }⟩

theorem Recorded.reached (h : Recorded log p) : Reached p := by
  induction h with
  | new => exact .new
  | serve _ hserve ih => exact ih.serve hserve
  | store _ hstore ih => exact ih.store hstore

/-- The blocks of a pool are those that its log leads to. -/
theorem Recorded.retrace (h : Recorded log p) :
    Pool.retrace ∅ log = some p.blocks.toFinset := by
  induction h with
  | new => rfl
  | @serve log p supply r reply h hserve ih =>
    rw [retrace_append, ih]
    exact serve_retrace h.reached.sound hserve
  | store _ _ ih => exact ih

theorem Recorded.serveAll : ∀ {rs : List Request} {log : List Event} {p : Pool} {supply : Supply},
    Recorded log p → ∀ {answers : List (Except Error Answer)} {last : Pool × Supply}
      {log' : List Event}, p.serveAll supply rs = .ok (answers, last, log') →
      Recorded (log ++ log') last.1
  | [], log, _, _, h, _, _, _, hrun => by
    obtain ⟨-, rfl, rfl⟩ := Except.ok.inj hrun
    rw [List.append_nil]
    exact h
  | r :: rest, log, p, supply, h, answers, last, log', hrun => by
    unfold Pool.serveAll at hrun
    obtain ⟨reply, hserve, hrun⟩ := Checked.bind_eq_ok.1 hrun
    obtain ⟨⟨answers', last', log''⟩, hrest, hrun⟩ := Checked.bind_eq_ok.1 hrun
    obtain ⟨-, rfl, rfl⟩ := Except.ok.inj hrun
    rw [← List.append_assoc]
    exact (h.serve hserve).serveAll hrest

/-- The log of a pool is a journal of its blocks, whatever was asked of it: read
from the beginning it never names a block that is not there, and it leads to
the blocks that the pool has. A request for a block that is refused leaves one
entry, a warning that says why. -/
theorem journal_of_recorded (h : Recorded log p) :
    retrace ∅ log = some p.blocks.toFinset ∧ p.blocks.Nodup ∧
      ∀ supply r, ∃ reply, p.serve supply r = .ok reply ∧
        ∀ e event, p.isLive = true → reply.answer = .error e → r.rejection e = some event →
          reply.log = [event] ∧ event.entry.level = .warn ∧
            ("error", e.message) ∈ event.entry.fields := by
  have hsound := h.reached.sound
  refine ⟨h.retrace, .of_map _ hsound.wellFormed.nodup_start, fun supply r => ?_⟩
  obtain ⟨reply, hserve, -⟩ := serve_sound hsound supply r
  refine ⟨reply, hserve, fun e event hlive he hr => ?_⟩
  exact ⟨serve_rejected hsound hlive hserve he hr, Request.rejection_entry hr⟩

/-- A handle that was not renewed after its block went elsewhere: it gives back
the byte that lies in the old place, and then nothing. -/
theorem journal_of_recorded_stale :
    let stale : Handle := ⟨⟨1⟩, 0, 2⟩
    let rs : List Request := [.initialise ⟨8, false⟩, .allocate 2, .allocate 1,
      .resize stale 4, .allocate 1, .free stale]
    let log : List Event := [.initialised ⟨1⟩ 8, .allocated 0 2, .allocated 2 1,
      .resized 0 3 4 .moved, .allocated 0 1, .freed 0 1]
    ∃ answers p supply, Pool.serveAll {} {} rs = .ok (answers, (p, supply), log) ∧
      Recorded log p ∧ retrace ∅ log = some {⟨2, 1⟩, ⟨3, 4⟩} ∧
      ∃ reply, p.serve supply (.free stale) = .ok reply ∧
        p.isLive = true ∧ reply.answer = .error (.invalidHandle 0) ∧
        reply.log = [.freeRejected stale (.invalidHandle 0)] := by
  intro stale rs log
  have hlast : (Pool.serveAll {} {} rs).toOption.any (fun last =>
      decide (last.2.2 = log ∧ last.2.1.1.blocks = [⟨2, 1⟩, ⟨3, 4⟩] ∧
        last.2.1.1.isLive = true) &&
      (last.2.1.1.serve last.2.1.2 (.free stale)).toOption.any fun reply =>
        decide (reply.answer = .error (.invalidHandle 0))) = true := by decide
  cases hrun : Pool.serveAll {} {} rs with
  | error fault =>
    rw [hrun] at hlast
    exact absurd hlast Bool.false_ne_true
  | ok last =>
    obtain ⟨answers, ⟨p, supply⟩, log'⟩ := last
    rw [hrun] at hlast
    obtain ⟨hfacts, hanswer⟩ := Bool.and_eq_true_iff.1 hlast
    obtain ⟨rfl, hblocks, hlive⟩ := of_decide_eq_true hfacts
    have hrecorded : Recorded log p := Recorded.new.serveAll hrun
    obtain ⟨hretrace, -, hserve⟩ := journal_of_recorded hrecorded
    obtain ⟨reply, hreply, hrejected⟩ := hserve supply (.free stale)
    rw [hreply] at hanswer
    have he : reply.answer = .error (.invalidHandle 0) := of_decide_eq_true hanswer
    rw [hblocks] at hretrace
    exact ⟨answers, p, supply, rfl, hrecorded, hretrace, reply, hreply, hlive, he,
      (hrejected _ _ hlive he rfl).1⟩

end Pool
end FirstFit
