/-
# Runs of a pool

A run is a list of requests, carried out one after another on a pool that was
without an arena at first. No request faults, and whatever the requests are
and however they are answered, the blocks of the pool stay in address order,
apart, not empty and inside the arena.

Key definitions: `Pool.serveAll`, `Pool.Sound`.
Key theorems: `serve_sound`, `serveAll_sound`.
-/
import FirstFit.Pool
import FirstFit.Proofs.Layout.Audit
import FirstFit.Proofs.Pool.Space

namespace FirstFit
namespace Pool

variable {p : Pool} {s : Space} {supply : Supply} {h : Handle} {size offset : Nat}
  {bytes : List UInt8}

/-- Carry out requests one after another: the answers, the pool and the supply
after the last one, and all that was logged. -/
def serveAll (p : Pool) (supply : Supply) :
    List Request → Checked (List (Except Error Answer) × (Pool × Supply) × List Event)
  | [] => return ([], (p, supply), [])
  | r :: rest => do
    let reply ← p.serve supply r
    let (answers, last, log) ← serveAll reply.state.1 reply.state.2 rest
    return (reply.answer :: answers, last, reply.log ++ log)

theorem serveAll_cons {r : Request} {rest : List Request}
    {reply : Reply Error (Pool × Supply) Event Answer} {answers : List (Except Error Answer)}
    {last : Pool × Supply} {log : List Event} (hserve : p.serve supply r = .ok reply)
    (hrest : reply.state.1.serveAll reply.state.2 rest = .ok (answers, last, log)) :
    p.serveAll supply (r :: rest) = .ok (reply.answer :: answers, last, reply.log ++ log) := by
  rw [serveAll, hserve, Checked.ok_bind, hrest]
  rfl

/-- The space of a pool is sound while there is one. -/
def Sound (p : Pool) : Prop := ∀ s, p.space? = some s → s.Sound

theorem sound_none : Sound {} := fun _ h => nomatch h

theorem sound_some : Sound ⟨some s⟩ ↔ s.Sound :=
  ⟨fun h => h s rfl, fun h _ e => Option.some.inj e ▸ h⟩

/-! ### Requests on a live pool -/

theorem allocate_some {r : Except Error Handle × Space} (hr : s.allocate size = .ok r) :
    allocate ⟨some s⟩ size = .ok ⟨r.1, ⟨some r.2⟩,
      [match r.1 with
        | .ok h => .allocated h.offset size
        | .error e => .allocationRejected size e]⟩ := by
  obtain ⟨answer, s'⟩ := r
  cases answer <;> simp only [allocate, hr, Checked.ok_bind] <;> rfl

theorem serve_allocate {r : Except Error Handle × Space} (hr : s.allocate size = .ok r) :
    serve ⟨some s⟩ supply (.allocate size) = .ok ⟨r.1.map .handle, (⟨some r.2⟩, supply),
      [match r.1 with
        | .ok h => .allocated h.offset size
        | .error e => .allocationRejected size e]⟩ := by
  rw [serve, allocate_some hr]
  rfl

theorem free_some {r : Except Error Block × Space} (hr : s.free h = .ok r) :
    free ⟨some s⟩ h = .ok ⟨r.1.map fun _ => (), ⟨some r.2⟩,
      [match r.1 with
        | .ok b => .freed b.start b.len
        | .error e => .freeRejected h e]⟩ := by
  obtain ⟨answer, s'⟩ := r
  cases answer <;> simp only [free, hr, Checked.ok_bind] <;> rfl

theorem serve_free {r : Except Error Block × Space} (hr : s.free h = .ok r) :
    serve ⟨some s⟩ supply (.free h) = .ok ⟨r.1.map fun _ => .done, (⟨some r.2⟩, supply),
      [match r.1 with
        | .ok b => .freed b.start b.len
        | .error e => .freeRejected h e]⟩ := by
  rw [serve, free_some hr]
  obtain ⟨answer, s'⟩ := r
  cases answer <;> rfl

theorem serve_resize {r : Except Error (Handle × Growth) × Space}
    (hr : s.resize h size = .ok r) :
    serve ⟨some s⟩ supply (.resize h size) =
      .ok ⟨r.1.map fun a => .handle a.1, (⟨some r.2⟩, supply),
        [match r.1 with
          | .ok (new, how) => .resized h.offset new.offset size how
          | .error e => .resizeRejected h size e]⟩ := by
  obtain ⟨answer, s'⟩ := r
  cases answer <;> simp only [serve, resize, hr, Checked.ok_bind] <;> rfl

theorem serve_read {answer : Except Error (List UInt8)} (hr : s.read h = .ok answer) :
    serve ⟨some s⟩ supply (.read h) = .ok ⟨answer.map .bytes, (⟨some s⟩, supply), []⟩ := by
  simp only [serve, read, hr, Checked.ok_bind]
  rfl

theorem serve_write {r : Except Error Unit × Space} (hr : s.write h offset bytes = .ok r) :
    serve ⟨some s⟩ supply (.write h offset bytes) =
      .ok ⟨r.1.map fun _ => .done, (⟨some r.2⟩, supply), []⟩ := by
  simp only [serve, write, hr, Checked.ok_bind]
  rfl

/-! ### What every request keeps -/

theorem reserve?_sound {id : ArenaId} {capacity : Nat} {available : Bool} {arena : Arena}
    {zeroing : Bool} (ha : Arena.reserve? id capacity available = some arena) :
    Space.Sound ⟨arena, {}, zeroing⟩ := by
  obtain ⟨-, hc, rfl⟩ := Arena.reserve?_eq_some.1 ha
  exact ⟨.nil _, Nat.le_trans (Nat.le_of_eq (Array.size_replicate ..)) hc⟩

theorem initialise_sound (hp : p.Sound) (supply : Supply) (c : Config) (available : Bool) :
    (p.initialise supply c available).state.1.Sound := by
  unfold initialise
  cases c.validate with
  | error e => exact hp
  | ok u =>
    cases hs : p.space? with
    | some s => exact hp
    | none =>
      cases ha : Arena.reserve? supply.next c.capacity available with
      | none => exact hp
      | some arena => exact sound_some.2 (reserve?_sound ha)

theorem renew_sound (hp : p.Sound) (supply : Supply) (capacity : Nat) (available : Bool) :
    (p.renew supply capacity available).state.1.Sound := by
  rw [renew]
  cases ha : (initialise {} supply ⟨capacity, true⟩ available).answer with
  | ok u => exact initialise_sound sound_none supply _ available
  | error e => exact hp

theorem tearDown_sound (p : Pool) : p.tearDown.state.Sound := by
  unfold tearDown
  cases hs : p.space? with
  | some s => exact sound_none
  | none => exact fun s h => nomatch hs.symm.trans h

/-- One request has a reply and leaves a sound pool sound. -/
theorem serve_sound (hp : p.Sound) (supply : Supply) (r : Request) :
    ∃ reply, p.serve supply r = .ok reply ∧ reply.state.1.Sound := by
  obtain ⟨space?⟩ := p
  cases r with
  | initialise c available => exact ⟨_, rfl, initialise_sound hp supply c available⟩
  | renew capacity available => exact ⟨_, rfl, renew_sound hp supply capacity available⟩
  | tearDown => exact ⟨_, rfl, tearDown_sound _⟩
  | allocate size =>
    cases space? with
    | none => exact ⟨_, rfl, hp⟩
    | some s =>
      obtain ⟨a, ha, hcase⟩ := Space.allocate_cases (sound_some.1 hp) size
      exact ⟨_, serve_allocate ha, sound_some.2 (hcase.sound (sound_some.1 hp))⟩
  | free h =>
    cases space? with
    | none => exact ⟨_, rfl, hp⟩
    | some s =>
      obtain ⟨a, ha, hcase⟩ := Space.free_cases (sound_some.1 hp) h
      exact ⟨_, serve_free ha, sound_some.2 (hcase.sound (sound_some.1 hp))⟩
  | resize h size =>
    cases space? with
    | none => exact ⟨_, rfl, hp⟩
    | some s =>
      obtain ⟨a, ha, hcase⟩ := Space.resize_cases (sound_some.1 hp) h size
      exact ⟨_, serve_resize ha, sound_some.2 (hcase.sound (sound_some.1 hp))⟩
  | read h =>
    cases space? with
    | none => exact ⟨_, rfl, hp⟩
    | some s =>
      obtain ⟨a, ha⟩ := Space.read_ok (sound_some.1 hp) h
      exact ⟨_, serve_read ha, hp⟩
  | write h offset bytes =>
    cases space? with
    | none => exact ⟨_, rfl, hp⟩
    | some s =>
      obtain ⟨a, ha, hcase⟩ := Space.write_cases (sound_some.1 hp) h offset bytes
      exact ⟨_, serve_write ha, sound_some.2 (hcase.sound (sound_some.1 hp))⟩

/-- Whatever the requests are, a run has a result and ends in a sound pool. -/
theorem serveAll_sound : ∀ (rs : List Request) {p : Pool} (supply : Supply), p.Sound →
    ∃ answers last log, p.serveAll supply rs = .ok (answers, last, log) ∧ last.1.Sound
  | [], _, _, hp => ⟨_, _, _, rfl, hp⟩
  | r :: rest, p, supply, hp => by
    obtain ⟨reply, hreply, hsound⟩ := serve_sound hp supply r
    obtain ⟨answers, last, log, hrest, hlast⟩ := serveAll_sound rest reply.state.2 hsound
    exact ⟨_, last, _, serveAll_cons hreply hrest, hlast⟩

theorem Sound.wellFormed (hp : p.Sound) : Layout.WellFormed p.blocks p.capacity := by
  obtain ⟨space?⟩ := p
  cases space? with
  | none => exact .nil _
  | some s => exact (sound_some.1 hp).wellFormed

theorem Sound.bound (hp : p.Sound) : p.capacity < Size.bound := by
  obtain ⟨space?⟩ := p
  cases space? with
  | none => decide
  | some s => exact (sound_some.1 hp).bound

/-- After any run the blocks lie in address order, none empty, each ending
where the next may start and all inside the arena, and the audit agrees. -/
theorem blocks_of_serveAll (supply : Supply) (rs : List Request) :
    ∃ answers p supply' log, serveAll {} supply rs = .ok (answers, (p, supply'), log) ∧
      p.blocks.Pairwise (fun a b => a.start < b.start) ∧
      (∀ b ∈ p.blocks, 1 ≤ b.len) ∧
      p.blocks.Pairwise (fun a b => a.stop ≤ b.start) ∧
      (∀ b ∈ p.blocks, b.stop ≤ p.capacity) ∧
      Layout.audit p.blocks p.capacity = .ok (.ok ()) := by
  obtain ⟨answers, last, log, hrun, hlast⟩ := serveAll_sound rs supply sound_none
  have hw := hlast.wellFormed
  exact ⟨answers, last.1, last.2, log, hrun, hw.start_lt, hw.nonempty, hw.apart, hw.inside,
    Layout.audit_of_wellFormed hw hlast.bound⟩

end Pool
end FirstFit
