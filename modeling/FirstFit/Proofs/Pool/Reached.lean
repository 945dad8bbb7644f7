/-
# Pools that can be reached

A pool is reached by requests, one after another, from one that is without an
arena. In between identities go to the arenas of other pools, and whoever
holds on to the arena of this one writes to its bytes. On such a pool no
request faults, and a request that is refused leaves the pool as it was, to
the last byte. For a block that cannot grow this is so because it goes back to
the position it was taken from.

Key definition: `Pool.Reached`.
Key theorems: `Reached.sound`, `serve_error`, `faultless_of_reached`,
`unchanged_of_refused`.
-/
import FirstFit.Proofs.Pool.Run

namespace FirstFit

/-! ### Refusals of a space -/

namespace Space

open Pool (Error Handle Growth)

variable {s : Space} {h : Handle} {size : Nat} {e : Error}

theorem Allocated.eq_of_error {r : Except Error Handle × Space} (hr : s.Allocated size r)
    (he : r.1 = .error e) : r.2 = s := by
  cases hr with
  | refused => rfl
  | outOfSpace => rfl
  | placed => exact nomatch he

theorem Freed.eq_of_error {r : Except Error Block × Space} (hr : s.Freed h r)
    (he : r.1 = .error e) : r.2 = s := by
  cases hr with
  | invalid => rfl
  | freed => exact nomatch he

theorem Resized.eq_of_error {r : Except Error (Handle × Growth) × Space}
    (hr : s.Resized h size r) (he : r.1 = .error e) : r.2 = s := by
  cases hr with
  | invalid => rfl
  | refused => rfl
  | outOfSpace => rfl
  | done => exact nomatch he

theorem Written.eq_of_error {offset : Nat} {bytes : List UInt8} {r : Except Error Unit × Space}
    (hr : s.Written h offset bytes r) (he : r.1 = .error e) : r.2 = s := by
  cases hr with
  | invalid => rfl
  | outOfBounds => rfl
  | written => exact nomatch he

end Space

namespace Pool

variable {p : Pool} {supply : Supply} {r : Request} {e : Error}

/-! ### Refusals of a pool -/

theorem initialise_error {c : Config} {available : Bool}
    (he : (p.initialise supply c available).answer = .error e) :
    (p.initialise supply c available).state = (p, supply) := by
  unfold initialise at he ⊢
  cases hc : c.validate with
  | error e' => rfl
  | ok u =>
    cases hs : p.space? with
    | some s => rfl
    | none =>
      cases ha : Arena.reserve? supply.next c.capacity available with
      | none => rfl
      | some arena => simp [hc, hs, ha] at he

theorem renew_error {capacity : Nat} {available : Bool}
    (he : (p.renew supply capacity available).answer = .error e) :
    (p.renew supply capacity available).state = (p, supply) := by
  rw [renew] at he ⊢
  cases ha : (initialise {} supply ⟨capacity, true⟩ available).answer with
  | ok u => simp [ha] at he
  | error e' => exact congrArg (fun s => (p, s.2)) (initialise_error ha)

/-- A request that is refused leaves a sound pool, and the supply, as they were. -/
theorem serve_error (hp : p.Sound) {reply : Reply Error (Pool × Supply) Event Answer}
    (hserve : p.serve supply r = .ok reply) (he : reply.answer = .error e) :
    reply.state = (p, supply) := by
  obtain ⟨space?⟩ := p
  cases r with
  | initialise c available =>
    obtain rfl := Except.ok.inj hserve
    exact initialise_error (Reply.error_of_map he)
  | renew capacity available =>
    obtain rfl := Except.ok.inj hserve
    exact renew_error (Reply.error_of_map he)
  | tearDown =>
    obtain rfl := Except.ok.inj hserve
    cases space? <;> exact nomatch he
  | allocate size =>
    cases space? with
    | none => exact Except.ok.inj hserve ▸ rfl
    | some s =>
      obtain ⟨a, ha, hcase⟩ := Space.allocate_cases (sound_some.1 hp) size
      obtain rfl := Except.ok.inj ((serve_allocate ha).symm.trans hserve)
      rw [hcase.eq_of_error (Reply.error_of_map he)]
  | free h =>
    cases space? with
    | none => exact Except.ok.inj hserve ▸ rfl
    | some s =>
      obtain ⟨a, ha, hcase⟩ := Space.free_cases (sound_some.1 hp) h
      obtain rfl := Except.ok.inj ((serve_free ha).symm.trans hserve)
      rw [hcase.eq_of_error (Reply.error_of_map he)]
  | resize h size =>
    cases space? with
    | none => exact Except.ok.inj hserve ▸ rfl
    | some s =>
      obtain ⟨a, ha, hcase⟩ := Space.resize_cases (sound_some.1 hp) h size
      obtain rfl := Except.ok.inj ((serve_resize ha).symm.trans hserve)
      rw [hcase.eq_of_error (Reply.error_of_map he)]
  | read h =>
    cases space? with
    | none => exact Except.ok.inj hserve ▸ rfl
    | some s =>
      obtain ⟨a, ha⟩ := Space.read_ok (sound_some.1 hp) h
      obtain rfl := Except.ok.inj ((serve_read ha).symm.trans hserve)
      rfl
  | write h offset bytes =>
    cases space? with
    | none => exact Except.ok.inj hserve ▸ rfl
    | some s =>
      obtain ⟨a, ha, hcase⟩ := Space.write_cases (sound_some.1 hp) h offset bytes
      obtain rfl := Except.ok.inj ((serve_write ha).symm.trans hserve)
      rw [hcase.eq_of_error (Reply.error_of_map he)]

/-! ### Runs in company -/

/-- A pool after requests to it, each with the supply of that moment, and after
writes to its arena by others. -/
inductive Reached : Pool → Prop
  | new : Reached {}
  | serve {p : Pool} {supply : Supply} {r : Request}
      {reply : Reply Error (Pool × Supply) Event Answer} (h : Reached p)
      (hserve : p.serve supply r = .ok reply) : Reached reply.state.1
  | store {s : Space} {offset : Nat} {bytes : List UInt8} {arena : Arena}
      (h : Reached ⟨some s⟩) (hstore : s.arena.store offset bytes = .ok arena) :
      Reached ⟨some { s with arena }⟩

theorem Reached.sound (h : Reached p) : p.Sound := by
  induction h with
  | new => exact sound_none
  | @serve p supply r reply h hserve ih =>
    obtain ⟨reply', hserve', hsound⟩ := serve_sound ih supply r
    obtain rfl : reply' = reply := Except.ok.inj (hserve'.symm.trans hserve)
    exact hsound
  | @store s offset bytes arena h hstore ih =>
    have hs := sound_some.1 ih
    obtain rfl := Arena.written_of_store hstore
    exact sound_some.2 (hs.mono Arena.capacity_written hs.wellFormed)

/-- A run of requests goes from a pool that can be reached to another. -/
theorem Reached.serveAll : ∀ {rs : List Request} {p : Pool} {supply : Supply},
    Reached p → ∀ {answers : List (Except Error Answer)} {last : Pool × Supply}
      {log : List Event}, p.serveAll supply rs = .ok (answers, last, log) → Reached last.1
  | [], _, _, h, _, _, _, hrun => by
    obtain ⟨-, rfl, -⟩ := Except.ok.inj hrun
    exact h
  | r :: rest, p, supply, h, answers, last, log, hrun => by
    unfold Pool.serveAll at hrun
    obtain ⟨reply, hserve, hrun⟩ := Checked.bind_eq_ok.1 hrun
    obtain ⟨⟨answers', last', log'⟩, hrest, hrun⟩ := Checked.bind_eq_ok.1 hrun
    obtain ⟨-, rfl, -⟩ := Except.ok.inj hrun
    exact (h.serve hserve).serveAll hrest

/-- No sum, difference, index or access of a request to a pool that can be
reached is a fault, whatever is asked, and none of its figures is. -/
theorem faultless_of_reached (h : Reached p) :
    (∀ supply r, ∃ reply, p.serve supply r = .ok reply) ∧ ∃ answer, p.stats = .ok answer := by
  refine ⟨fun supply r => ?_, ?_⟩
  · obtain ⟨reply, hserve, -⟩ := serve_sound h.sound supply r
    exact ⟨reply, hserve⟩
  · obtain ⟨space?⟩ := p
    cases space? with
    | none => exact ⟨_, rfl⟩
    | some s =>
      have hs := sound_some.1 h.sound
      obtain ⟨gap, hgap⟩ := Layout.largestGap_ok hs.wellFormed hs.bound
      exact ⟨_, by simp only [stats, Space.stats_eq hs hgap, Checked.ok_bind]; rfl⟩

/-- A block was moved into the last gap and another one given back. -/
theorem faultless_of_reached_moved :
    let rs : List Request := [.initialise ⟨8, false⟩, .allocate 2, .allocate 1,
      .resize ⟨⟨1⟩, 0, 2⟩ 4, .allocate 1, .free ⟨⟨1⟩, 2, 1⟩]
    ∃ answers p supply log, Pool.serveAll {} {} rs = .ok (answers, (p, supply), log) ∧
      p.blocks = [⟨0, 1⟩, ⟨3, 4⟩] ∧
      (∀ supply r, ∃ reply, p.serve supply r = .ok reply) ∧ ∃ answer, p.stats = .ok answer := by
  intro rs
  have hblocks : (Pool.serveAll {} {} rs).toOption.any (fun last =>
      decide (last.2.1.1.blocks = [⟨0, 1⟩, ⟨3, 4⟩])) = true := by decide
  cases hrun : Pool.serveAll {} {} rs with
  | error fault => rw [hrun] at hblocks; exact nomatch hblocks
  | ok last =>
    rw [hrun] at hblocks
    exact ⟨last.1, last.2.1.1, last.2.1.2, last.2.2, rfl, of_decide_eq_true hblocks,
      faultless_of_reached (Reached.new.serveAll hrun)⟩

/-- A request to a pool that can be reached changes nothing at all if it is
refused: neither the pool, with its blocks and every byte of its arena, nor
the supply. -/
theorem unchanged_of_refused (h : Reached p) (supply : Supply) (r : Request) :
    ∃ reply, p.serve supply r = .ok reply ∧
      ∀ e, reply.answer = .error e → reply.state = (p, supply) := by
  obtain ⟨reply, hserve, -⟩ := serve_sound h.sound supply r
  exact ⟨reply, hserve, fun e he => serve_error h.sound hserve he⟩

/-- A block was taken out to grow, found no room without its own bytes either,
and is back between its neighbours. -/
theorem unchanged_of_refused_grown :
    let rs : List Request := [.initialise ⟨8, true⟩, .allocate 2, .allocate 2, .allocate 2,
      .free ⟨⟨1⟩, 0, 2⟩, .write ⟨⟨1⟩, 2, 2⟩ 1 [7]]
    let h : Handle := ⟨⟨1⟩, 2, 2⟩
    ∃ answers p supply log, Pool.serveAll {} {} rs = .ok (answers, (p, supply), log) ∧
      ∃ reply, p.serve supply (.resize h 5) = .ok reply ∧
        reply.answer = .error (.outOfSpace 5 4) ∧ reply.state = (p, supply) := by
  intro rs h
  have hanswer : (Pool.serveAll {} {} rs).toOption.any (fun last =>
      (last.2.1.1.serve last.2.1.2 (.resize h 5)).toOption.any fun reply =>
        match reply.answer with
        | .error e => decide (e = .outOfSpace 5 4)
        | .ok _ => false) = true := by decide
  cases hrun : Pool.serveAll {} {} rs with
  | error fault => rw [hrun] at hanswer; exact nomatch hanswer
  | ok last =>
    obtain ⟨answers, ⟨p, supply⟩, log⟩ := last
    obtain ⟨reply, hserve, hkeep⟩ :=
      unchanged_of_refused (Reached.new.serveAll hrun) supply (.resize h 5)
    rw [hrun] at hanswer
    simp only [Except.toOption, Option.any_some, hserve] at hanswer
    cases ha : reply.answer with
    | ok a => rw [ha] at hanswer; exact nomatch hanswer
    | error e =>
      rw [ha] at hanswer
      obtain rfl := of_decide_eq_true hanswer
      exact ⟨answers, p, supply, log, rfl, reply, hserve, ha, hkeep _ ha⟩

end Pool
end FirstFit
