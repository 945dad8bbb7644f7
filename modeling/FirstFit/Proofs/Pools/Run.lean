/-
# Runs of several pools

Pools get an arena, give it up and get another one in any order, with
identities from one supply that also serves arenas of other kinds. A lifetime
lasts from when a pool gets an arena until it is torn down or replaced. First
fit places the first block of every lifetime at offset zero, so what tells the
handles of two lifetimes apart is the identity of the arena alone.

Key definitions: `Pool.Served`, `Pools.Chronicle`, `Pools.Run`,
`Pools.Separated`.
Key theorems: `Pool.served_cases`, `Sound.serve`, `Run.sound`,
`separated_of_run`.
-/
import Mathlib.Data.List.Nodup
import Mathlib.Logic.Function.Basic
import FirstFit.Pools
import FirstFit.Proofs.Pool.Reached

namespace FirstFit

theorem Space.locate?_foreign {s : Space} {h : Pool.Handle} (hne : h.arena ≠ s.arena.id) :
    s.locate? h = none := if_neg hne

/-! ### One request to one pool -/

namespace Pool

variable {p : Pool} {s : Space} {supply : Supply} {r : Request} {h : Handle}

/-- The identity of the arena, while there is one. -/
def id? (p : Pool) : Option ArenaId := p.space?.map fun s => s.arena.id

/-- The request is to give the pool an arena. -/
def Request.begins : Request → Bool
  | .initialise _ _ | .renew _ _ => true
  | _ => false

/-- The request takes the arena from the pool. -/
def Request.ends : Request → Bool
  | .tearDown => true
  | _ => false

/-- The handle in a request. -/
def Request.handle? : Request → Option Handle
  | .free h | .resize h _ | .read h | .write h _ _ => some h
  | _ => none

/-- What becomes of a request: the pool gets an arena with the next identity, it
has none any more, or it has the same one as before and names blocks of it. -/
inductive Served (p : Pool) (supply : Supply) (r : Request) :
    Reply Error (Pool × Supply) Event Answer → Prop
  | begun {s : Space} {log : List Event} (hr : r.begins = true)
      (hid : s.arena.id = supply.next) :
      Served p supply r ⟨.ok .done, (⟨some s⟩, supply.rest), log⟩
  | ended {log : List Event} (hr : r.ends = true) :
      Served p supply r ⟨.ok .done, ({}, supply), log⟩
  | kept {p' : Pool} {answer : Except Error Answer} {log : List Event}
      (hr : (r.begins || r.ends) = true → ∃ e, answer = .error e) (hid : p'.id? = p.id?)
      (hnames : ∀ h, answer = .ok (.handle h) → p.id? = some h.arena) :
      Served p supply r ⟨answer, (p', supply), log⟩

theorem eq_empty_of_id? (h : p.id? = none) : p = {} := by
  obtain ⟨space?⟩ := p
  cases space? with
  | none => rfl
  | some s => exact nomatch h

theorem id?_continues {s' : Space} (hc : s.Continues s') : id? ⟨some s'⟩ = id? ⟨some s⟩ :=
  congrArg some hc.id

theorem initialise_served (p : Pool) (supply : Supply) (c : Config) (available : Bool)
    (hr : r.begins = true) :
    p.Served supply r ((p.initialise supply c available).map fun _ => .done) := by
  unfold initialise
  cases c.validate with
  | error e => exact .kept (fun _ => ⟨e, rfl⟩) rfl fun _ h => nomatch h
  | ok u =>
    cases hs : p.space? with
    | some s => exact .kept (fun _ => ⟨_, rfl⟩) rfl fun _ h => nomatch h
    | none =>
      cases ha : Arena.reserve? supply.next c.capacity available with
      | none => exact .kept (fun _ => ⟨_, rfl⟩) rfl fun _ h => nomatch h
      | some arena =>
        obtain ⟨-, -, rfl⟩ := Arena.reserve?_eq_some.1 ha
        exact .begun hr rfl

theorem renew_served (p : Pool) (supply : Supply) (capacity : Nat) (available : Bool)
    (hr : r.begins = true) :
    p.Served supply r ((p.renew supply capacity available).map fun _ => .done) := by
  have hfresh := initialise_served {} supply ⟨capacity, true⟩ available hr
  rw [renew]
  cases ha : (initialise {} supply ⟨capacity, true⟩ available).answer with
  | ok u =>
    generalize initialise {} supply ⟨capacity, true⟩ available = fresh at hfresh ha
    obtain ⟨answer, state, log⟩ := fresh
    obtain rfl : answer = .ok u := ha
    cases hfresh with
    | begun _ hid => exact .begun hr hid
    | ended hends => exact .ended hends
    | kept herror =>
      obtain ⟨e, he⟩ := herror (by rw [hr]; rfl)
      cases he
  | error e =>
    have hstate := initialise_error ha
    generalize initialise {} supply ⟨capacity, true⟩ available = fresh at ha hstate
    obtain ⟨answer, state, log⟩ := fresh
    obtain rfl : answer = .error e := ha
    obtain rfl : state = ({}, supply) := hstate
    exact .kept (fun _ => ⟨e, rfl⟩) rfl fun _ h => by cases h

/-- Every request to a sound pool has a reply, which is one of the three kinds. -/
theorem served_cases (hp : p.Sound) (supply : Supply) (r : Request) :
    ∃ reply, p.serve supply r = .ok reply ∧ p.Served supply r reply := by
  obtain ⟨space?⟩ := p
  cases r with
  | initialise c available => exact ⟨_, rfl, initialise_served _ supply c available rfl⟩
  | renew capacity available => exact ⟨_, rfl, renew_served _ supply capacity available rfl⟩
  | tearDown => cases space? <;> exact ⟨_, rfl, .ended rfl⟩
  | allocate size =>
    cases space? with
    | none => exact ⟨_, rfl, .kept (fun h => nomatch h) rfl fun _ h => nomatch h⟩
    | some s =>
      obtain ⟨a, ha, hcase⟩ := Space.allocate_cases (sound_some.1 hp) size
      refine ⟨_, serve_allocate ha, .kept (fun h => nomatch h) (id?_continues hcase.continues) ?_⟩
      intro h hanswer
      cases hcase with
      | refused => exact nomatch hanswer
      | outOfSpace => exact nomatch hanswer
      | placed => exact Answer.handle.inj (Except.ok.inj hanswer) ▸ rfl
  | free h =>
    cases space? with
    | none => exact ⟨_, rfl, .kept (fun h => nomatch h) rfl fun _ h => nomatch h⟩
    | some s =>
      obtain ⟨a, ha, hcase⟩ := Space.free_cases (sound_some.1 hp) h
      refine ⟨_, serve_free ha, .kept (fun h => nomatch h) (id?_continues hcase.continues) ?_⟩
      intro h' hanswer
      cases hcase <;> exact nomatch hanswer
  | resize h size =>
    cases space? with
    | none => exact ⟨_, rfl, .kept (fun h => nomatch h) rfl fun _ h => nomatch h⟩
    | some s =>
      obtain ⟨a, ha, hcase⟩ := Space.resize_cases (sound_some.1 hp) h size
      refine ⟨_, serve_resize ha, .kept (fun h => nomatch h) (id?_continues hcase.continues) ?_⟩
      intro h' hanswer
      cases hcase with
      | invalid => exact nomatch hanswer
      | refused => exact nomatch hanswer
      | outOfSpace => exact nomatch hanswer
      | done => exact Answer.handle.inj (Except.ok.inj hanswer) ▸ rfl
  | read h =>
    cases space? with
    | none => exact ⟨_, rfl, .kept (fun h => nomatch h) rfl fun _ h => nomatch h⟩
    | some s =>
      obtain ⟨a, ha⟩ := Space.read_ok (sound_some.1 hp) h
      refine ⟨_, serve_read ha, .kept (fun h => nomatch h) rfl ?_⟩
      intro h' hanswer
      cases a <;> exact nomatch hanswer
  | write h offset bytes =>
    cases space? with
    | none => exact ⟨_, rfl, .kept (fun h => nomatch h) rfl fun _ h => nomatch h⟩
    | some s =>
      obtain ⟨a, ha, hcase⟩ := Space.write_cases (sound_some.1 hp) h offset bytes
      refine ⟨_, serve_write ha, .kept (fun h => nomatch h) (id?_continues hcase.continues) ?_⟩
      intro h' hanswer
      cases hcase <;> exact nomatch hanswer

/-! ### Handles that are refused -/

/-- A pool refuses a handle that names no block, whatever is asked of the block. -/
theorem serve_invalid (supply : Supply) (hr : r.handle? = some h) (hl : s.locate? h = none) :
    ∃ log, serve ⟨some s⟩ supply r =
      .ok ⟨.error (.invalidHandle h.offset), (⟨some s⟩, supply), log⟩ := by
  cases r with
  | free h' =>
    obtain rfl := Option.some.inj hr
    have hfree : s.free h' = .ok (.error (.invalidHandle h'.offset), s) := by
      rw [Space.free, hl]
      rfl
    exact ⟨_, serve_free hfree⟩
  | resize h' size =>
    obtain rfl := Option.some.inj hr
    have hresize : s.resize h' size = .ok (.error (.invalidHandle h'.offset), s) := by
      rw [Space.resize, hl]
      rfl
    exact ⟨_, serve_resize hresize⟩
  | read h' =>
    obtain rfl := Option.some.inj hr
    exact ⟨_, serve_read (Space.read_eq_invalid hl)⟩
  | write h' offset bytes =>
    obtain rfl := Option.some.inj hr
    have hwrite : s.write h' offset bytes = .ok (.error (.invalidHandle h'.offset), s) := by
      rw [Space.write, hl]
      rfl
    exact ⟨_, serve_write hwrite⟩
  | _ => cases hr

/-- A pool refuses a handle of another arena, wherever its blocks are. -/
theorem serve_foreign (supply : Supply) (hr : r.handle? = some h) (hne : h.arena ≠ s.arena.id) :
    ∃ log, serve ⟨some s⟩ supply r =
      .ok ⟨.error (.invalidHandle h.offset), (⟨some s⟩, supply), log⟩ :=
  serve_invalid supply hr (Space.locate?_foreign hne)

/-- A pool without an arena refuses every handle. -/
theorem serve_handle_none (supply : Supply) (hr : r.handle? = some h) :
    ∃ log, serve {} supply r = .ok ⟨.error .uninitialised, ({}, supply), log⟩ := by
  cases r <;> first | exact ⟨_, rfl⟩ | exact nomatch hr

end Pool

/-! ### Several pools -/

namespace Pools

open Pool (Request Answer Error Event Handle Served)

variable {ps : Pools} {i j n : Nat} {p : Pool} {r : Request}
  {reply : Reply Error Pools Event Answer}

/-- What has happened to pools: the arenas in the order in which they came
about, the lifetime each pool is in, as a position in this order, and the
handles that answers have named, each with the lifetime it is of. -/
structure Chronicle where
  arenas : List ArenaId := []
  current : Nat → Option Nat := fun _ => none
  issued : List (Handle × Nat) := []

/-- The chronicle after a request to the pool at place `i`. -/
def Chronicle.after (x : Chronicle) (i : Nat) (r : Request)
    (reply : Reply Error Pools Event Answer) : Chronicle :=
  match reply.answer with
  | .error _ => x
  | .ok answer =>
    if r.begins then
      { x with
        arenas := x.arenas ++ (reply.state.get i).id?.toList
        current := Function.update x.current i (some x.arenas.length) }
    else if r.ends then { x with current := Function.update x.current i none }
    else
      match answer, x.current i with
      | .handle h, some k => { x with issued := x.issued ++ [(h, k)] }
      | _, _ => x

/-- Requests to `n` pools, any of them at any time. -/
inductive Run (n : Nat) : Chronicle → Pools → Prop
  | nil : Run n {} (ofCount n)
  | serve {x : Chronicle} {ps : Pools} {i : Nat} {r : Request}
      {reply : Reply Error Pools Event Answer} (h : Run n x ps) (hi : i < n)
      (hserve : ps.serve i r = .ok reply) : Run n (x.after i r reply) reply.state
  /-- An arena of another kind takes an identity. -/
  | elsewhere {x : Chronicle} {ps : Pools} (h : Run n x ps) :
      Run n { x with arenas := x.arenas ++ [ps.supply.next] } { ps with supply := ps.supply.rest }

/-- Carry out requests, each on the pool at a place, on what is left of a run. -/
def replay (x : Chronicle) (ps : Pools) : List (Nat × Request) → Option (Chronicle × Pools)
  | [] => some (x, ps)
  | (i, r) :: rest =>
    match ps.serve i r with
    | .ok reply => replay (x.after i r reply) reply.state rest
    | .error _ => none

theorem Run.replay : ∀ {rs : List (Nat × Request)} {x : Chronicle} {ps : Pools}, Run n x ps →
    (∀ q ∈ rs, q.1 < n) → ∀ {last : Chronicle × Pools}, Pools.replay x ps rs = some last →
      Run n last.1 last.2
  | [], _, _, h, _, _, hreplay => Option.some.inj hreplay ▸ h
  | (i, r) :: rest, x, ps, h, hi, last, hreplay => by
    rw [Pools.replay] at hreplay
    cases hserve : ps.serve i r with
    | error fault => rw [hserve] at hreplay; exact nomatch hreplay
    | ok reply =>
      rw [hserve] at hreplay
      exact (h.serve (hi _ List.mem_cons_self) hserve).replay
        (fun q hq => hi q (List.mem_cons_of_mem _ hq)) hreplay

theorem get_put (hi : i < ps.members.length) (p : Pool) (j : Nat) :
    (ps.put i p).get j = if j = i then p else ps.get j := by
  by_cases hj : j = i
  · subst hj
    simp [get, put, hi]
  · simp [get, put, hj, List.getElem?_set_ne (Ne.symm hj)]

/-- Putting a pool where it is changes nothing. -/
theorem put_get (ps : Pools) (i : Nat) : ps.put i (ps.get i) = ps := by
  have hmembers : ps.members.set i (ps.get i) = ps.members := by
    by_cases hi : i < ps.members.length
    · simp [get, hi]
    · exact List.set_eq_of_length_le (Nat.le_of_not_lt hi)
  unfold put
  rw [hmembers]
  cases (ps.get i).arena? with
  | none => rfl
  | some a => simp

/-- A request that leaves its pool and the supply as they were leaves all pools so. -/
theorem serve_unchanged {answer : Except Error Answer} {log : List Event}
    (h : (ps.get i).serve ps.supply r = .ok ⟨answer, (ps.get i, ps.supply), log⟩) :
    ps.serve i r = .ok ⟨answer, ps, log⟩ := by
  have hput := ps.put_get i
  unfold serve
  rw [h, Checked.ok_bind]
  simp only [Reply.onState, hput]
  rfl

/-- What a run keeps: identities are given out in ascending order from one on,
every pool has the arena of its lifetime, and a handle names the arena of its own. -/
structure Sound (n : Nat) (x : Chronicle) (ps : Pools) : Prop where
  places : ps.members.length = n
  next : ps.supply.next.val = UInt64.ofNat (x.arenas.length + 1)
  numbered : x.arenas.map (fun id => id.val.toNat) = List.range' 1 x.arenas.length
  current : ∀ i, (ps.get i).id? = (x.current i).bind fun k => x.arenas[k]?
  begun : ∀ i k, x.current i = some k → k < x.arenas.length
  issued : ∀ p ∈ x.issued, x.arenas[p.2]? = some p.1.arena
  sound : ∀ i, (ps.get i).Sound

variable {x : Chronicle} {supply : Supply}

theorem sound_ofCount (n : Nat) : Sound n {} (ofCount n) := by
  have hget : ∀ i, (ofCount n).get i = {} := by
    intro i
    simp only [ofCount, get, List.getD_eq_getElem?_getD, List.getElem?_replicate]
    split <;> rfl
  refine ⟨List.length_replicate, rfl, rfl, ?_, fun _ _ h => (nomatch h), fun _ h => (nomatch h), ?_⟩
  · exact fun i => congrArg Pool.id? (hget i)
  · exact fun i => (hget i).symm ▸ Pool.sound_none

/-- The numbers of the arenas once the next identity is given out. -/
theorem Sound.numbered_next (h : Sound n x ps) (hcount : x.arenas.length + 1 < UInt64.size) :
    (x.arenas ++ [ps.supply.next]).map (fun id => id.val.toNat) =
      List.range' 1 (x.arenas ++ [ps.supply.next]).length := by
  have hnext : ps.supply.next.val.toNat = 1 + x.arenas.length := by
    rw [h.next, UInt64.toNat_ofNat_of_lt' hcount, Nat.add_comm]
  rw [List.map_append, h.numbered, List.length_append, List.map_singleton, hnext,
    List.length_singleton, List.range'_concat, Nat.one_mul]

theorem Sound.next_rest (h : Sound n x ps) :
    ps.supply.rest.next.val = UInt64.ofNat ((x.arenas ++ [ps.supply.next]).length + 1) := by
  show ps.supply.next.val + 1 = _
  rw [h.next, List.length_append, List.length_singleton]
  exact (UInt64.ofNat_add _ 1).symm

/-- The arenas so far keep their places when another one comes. -/
theorem getElem?_concat {ids : List ArenaId} {k : Nat} (hk : k < ids.length) (id : ArenaId) :
    (ids ++ [id])[k]? = ids[k]? :=
  List.getElem?_append_left hk

theorem Sound.elsewhere (h : Sound n x ps) (hcount : x.arenas.length + 1 < UInt64.size) :
    Sound n { x with arenas := x.arenas ++ [ps.supply.next] }
      { ps with supply := ps.supply.rest } where
  places := h.places
  next := h.next_rest
  numbered := h.numbered_next hcount
  current := by
    intro i
    refine (h.current i).trans ?_
    cases hk : x.current i with
    | none => rfl
    | some k => exact (getElem?_concat (h.begun i k hk) _).symm
  begun := fun i k hk => Nat.lt_of_lt_of_le (h.begun i k hk) (by simp)
  issued := fun p hp => (getElem?_concat (List.getElem?_eq_some_iff.1 (h.issued p hp)).1 _).trans
    (h.issued p hp)
  sound := h.sound

/-- The pool at place `i` is replaced, and is in the lifetime `k?` from now on. -/
theorem Sound.put (h : Sound n x ps) (hi : i < n) {k? : Option Nat} (hp : p.Sound)
    (hcurrent : p.id? = k?.bind fun k => x.arenas[k]?)
    (hbegun : ∀ k, k? = some k → k < x.arenas.length) :
    Sound n { x with current := Function.update x.current i k? } (ps.put i p) where
  places := (List.length_set ..).trans h.places
  next := h.next
  numbered := h.numbered
  current := by
    intro j
    show ((ps.put i p).get j).id? = (Function.update x.current i k? j).bind fun k => x.arenas[k]?
    rw [get_put (h.places.symm ▸ hi)]
    by_cases hj : j = i
    · subst hj
      rw [if_pos rfl, Function.update_self]
      exact hcurrent
    · rw [if_neg hj, Function.update_of_ne hj]
      exact h.current j
  begun := by
    intro j k (hk : Function.update x.current i k? j = some k)
    by_cases hj : j = i
    · subst hj
      rw [Function.update_self] at hk
      exact hbegun k hk
    · rw [Function.update_of_ne hj] at hk
      exact h.begun j k hk
  issued := h.issued
  sound := by
    intro j
    rw [get_put (h.places.symm ▸ hi)]
    split
    · exact hp
    · exact h.sound j

theorem Sound.begin (h : Sound n x ps) (hi : i < n) (hp : p.Sound)
    (hid : p.id? = some ps.supply.next) (hcount : x.arenas.length + 1 < UInt64.size) :
    Sound n
      { x with
        arenas := x.arenas ++ [ps.supply.next]
        current := Function.update x.current i (some x.arenas.length) }
      { ps.put i p with supply := ps.supply.rest } := by
  refine (h.elsewhere hcount).put hi hp ?_ ?_
  · rw [hid, Option.bind_some, List.getElem?_concat_length]
  · intro k hk
    obtain rfl := Option.some.inj hk
    rw [List.length_append, List.length_singleton]
    exact Nat.lt_succ_self _

/-- A pool that keeps its arena keeps its lifetime. -/
theorem Sound.keep (h : Sound n x ps) (hi : i < n) (hp : p.Sound)
    (hid : p.id? = (ps.get i).id?) : Sound n x (ps.put i p) := by
  have hput := h.put hi hp (hid.trans (h.current i)) (h.begun i)
  rwa [Function.update_eq_self] at hput

/-- A handle is issued in the lifetime that its pool is in. -/
theorem Sound.issue (h : Sound n x ps) {k : Nat} (hk : x.current i = some k) {handle : Handle}
    (hid : (ps.get i).id? = some handle.arena) :
    Sound n { x with issued := x.issued ++ [(handle, k)] } ps where
  places := h.places
  next := h.next
  numbered := h.numbered
  current := h.current
  begun := h.begun
  issued := by
    intro p hp
    rcases List.mem_append.1 hp with hp | hp
    · exact h.issued p hp
    · obtain rfl := List.mem_singleton.1 hp
      have hcurrent := h.current i
      rw [hid, hk] at hcurrent
      exact hcurrent.symm
  sound := h.sound

/-- One request keeps the chronicle right. -/
theorem Sound.serve (h : Sound n x ps) (hi : i < n) (hserve : ps.serve i r = .ok reply)
    (hcount : (x.after i r reply).arenas.length < UInt64.size) :
    Sound n (x.after i r reply) reply.state := by
  obtain ⟨inner, hinner, hcase⟩ := Pool.served_cases (h.sound i) ps.supply r
  obtain ⟨inner', hinner', hsound⟩ := Pool.serve_sound (h.sound i) ps.supply r
  obtain rfl : inner = inner' := Except.ok.inj (hinner.symm.trans hinner')
  unfold Pools.serve at hserve
  rw [hinner, Checked.ok_bind] at hserve
  obtain rfl := Except.ok.inj hserve
  cases hcase with
  | @begun s log hr hid =>
    have hget : (ps.put i ⟨some s⟩).get i = ⟨some s⟩ := by
      rw [get_put (h.places.symm ▸ hi), if_pos rfl]
    have hafter :
        x.after i r ⟨.ok .done, { ps.put i ⟨some s⟩ with supply := ps.supply.rest }, log⟩ =
        { x with
          arenas := x.arenas ++ [ps.supply.next]
          current := Function.update x.current i (some x.arenas.length) } := by
      simp only [Chronicle.after, if_pos hr]
      show Chronicle.mk (x.arenas ++ ((ps.put i ⟨some s⟩).get i).id?.toList) _ _ = _
      rw [hget, ← hid]
      rfl
    have hlen := hcount
    simp only [Reply.onState] at hlen ⊢
    rw [hafter] at hlen ⊢
    rw [List.length_append] at hlen
    exact h.begin hi hsound (congrArg some hid) hlen
  | @ended log hr =>
    have hbegins : r.begins = false := by cases r <;> first | rfl | exact nomatch hr
    simp only [Reply.onState, Chronicle.after, hbegins, hr, if_pos, Bool.false_eq_true, if_false]
    exact h.put hi hsound rfl fun k hk => nomatch hk
  | @kept p' answer log hr hid hnames =>
    have hkeep := h.keep hi hsound hid
    cases answer with
    | error e => exact hkeep
    | ok answer =>
      have hother : (r.begins || r.ends) = false := Bool.eq_false_iff.2 fun ht => by
        obtain ⟨e, he⟩ := hr ht
        exact nomatch he
      obtain ⟨hbegins, hends⟩ := Bool.or_eq_false_iff.1 hother
      simp only [Reply.onState, Chronicle.after, hbegins, hends, Bool.false_eq_true, if_false]
      split
      · rename_i handle k hk
        refine hkeep.issue hk ?_
        rw [get_put (h.places.symm ▸ hi), if_pos rfl, hid]
        exact hnames handle rfl
      · exact hkeep

theorem Chronicle.length_le_after (x : Chronicle) (i : Nat) (r : Request)
    (reply : Reply Error Pools Event Answer) :
    x.arenas.length ≤ (x.after i r reply).arenas.length := by
  unfold after
  split
  · exact Nat.le_refl _
  · split
    · rw [List.length_append]
      exact Nat.le_add_right _ _
    · split
      · exact Nat.le_refl _
      · split <;> exact Nat.le_refl _

theorem Run.sound (h : Run n x ps) (hcount : x.arenas.length < UInt64.size) : Sound n x ps := by
  induction h with
  | nil => exact sound_ofCount n
  | @serve x ps i r reply h hi hserve ih =>
    have hbefore := Nat.lt_of_le_of_lt (x.length_le_after i r reply) hcount
    exact (ih hbefore).serve hi hserve hcount
  | elsewhere h ih =>
    rw [List.length_append] at hcount
    exact (ih (Nat.lt_of_succ_lt hcount)).elsewhere hcount

/-! ### Handles of other lifetimes -/

/-- The lifetimes of pools have nothing to do with one another. -/
structure Separated (x : Chronicle) (ps : Pools) : Prop where
  /-- No two arenas have the same identity. -/
  distinct : x.arenas.Nodup
  /-- A pool has the arena of the lifetime it is in. -/
  current : ∀ i, (ps.get i).id? = (x.current i).bind fun k => x.arenas[k]?
  /-- A handle of another lifetime names no block, whatever starts at its offset. -/
  invalid : ∀ p ∈ x.issued, ∀ i r, r.handle? = some p.1 → ∀ k, x.current i = some k → k ≠ p.2 →
    ∃ log, ps.serve i r = .ok ⟨.error (.invalidHandle p.1.offset), ps, log⟩
  /-- A pool that is in no lifetime has no blocks at all. -/
  uninitialised : ∀ i r h, r.handle? = some h → x.current i = none →
    ∃ log, ps.serve i r = .ok ⟨.error .uninitialised, ps, log⟩
  /-- An arena that is not to be had takes nothing from anyone. -/
  refused : ∀ i r, r.begins = true → ∃ reply, ps.serve i r = .ok reply ∧
    ∀ e, reply.answer = .error e → reply.state = ps

/-- Handles of two lifetimes name different arenas. -/
theorem Sound.arena_ne (h : Sound n x ps) (hdistinct : x.arenas.Nodup) {k : Nat}
    {q : Handle × Nat} (hq : q ∈ x.issued) (hne : k ≠ q.2) {id : ArenaId}
    (hk : x.arenas[k]? = some id) : q.1.arena ≠ id := by
  rintro rfl
  obtain ⟨hlt, hkey⟩ := List.getElem?_eq_some_iff.1 hk
  obtain ⟨hlt', hkey'⟩ := List.getElem?_eq_some_iff.1 (h.issued q hq)
  exact hne ((hdistinct.getElem_inj_iff).1 (hkey.trans hkey'.symm))

/-- Whatever was asked of pools before, while fewer than `2 ^ 64` arenas came
about, a handle is good for the lifetime in which it was issued, and for no
other one of any pool. -/
theorem separated_of_run (h : Run n x ps) (hcount : x.arenas.length < UInt64.size) :
    Separated x ps := by
  have hsound := h.sound hcount
  have hdistinct : x.arenas.Nodup := by
    refine List.Nodup.of_map (fun id : ArenaId => id.val.toNat) ?_
    rw [hsound.numbered]
    exact List.nodup_range'
  refine ⟨hdistinct, hsound.current, ?_, ?_, ?_⟩
  · intro q hq i r hr k hk hne
    have hid := hsound.current i
    rw [hk, Option.bind_some] at hid
    cases hp : ps.get i with
    | mk space? =>
      rw [hp] at hid
      cases space? with
      | none =>
        rw [List.getElem?_eq_getElem (hsound.begun i k hk)] at hid
        exact nomatch hid
      | some s =>
        have hforeign := hsound.arena_ne hdistinct hq hne hid.symm
        obtain ⟨log, hserve⟩ := Pool.serve_foreign ps.supply hr hforeign
        exact ⟨log, serve_unchanged (by rw [hp]; exact hserve)⟩
  · intro i r h hr hk
    have hid := hsound.current i
    rw [hk] at hid
    have hp : ps.get i = {} := Pool.eq_empty_of_id? hid
    obtain ⟨log, hserve⟩ := Pool.serve_handle_none ps.supply hr
    exact ⟨log, serve_unchanged (by rw [hp]; exact hserve)⟩
  · intro i r _
    obtain ⟨inner, hinner, -⟩ := Pool.serve_sound (hsound.sound i) ps.supply r
    refine ⟨_, by rw [Pools.serve, hinner]; rfl, ?_⟩
    intro e he
    have hstate := Pool.serve_error (hsound.sound i) hinner he
    show { ps.put i inner.state.1 with supply := inner.state.2 } = ps
    rw [hstate]
    exact ps.put_get i

/-- In three lifetimes of two pools the first block is at offset zero. The
handle of the first lifetime is of no use in the other two. -/
theorem separated_of_run_reused :
    let old : Handle := ⟨⟨1⟩, 0, 4⟩
    let config : Pool.Config := ⟨16, true⟩
    let rs : List (Nat × Request) := [(0, .initialise config), (0, .allocate 4),
      (1, .initialise config), (1, .allocate 4), (0, .tearDown), (0, .initialise config),
      (0, .allocate 4)]
    ∃ x ps, replay {} (ofCount 2) rs = some (x, ps) ∧ Run 2 x ps ∧
      x.arenas.length < UInt64.size ∧ (old, 0) ∈ x.issued ∧
      (ps.get 0).blocks = [⟨0, 4⟩] ∧ (ps.get 1).blocks = [⟨0, 4⟩] ∧
      (∃ log, ps.serve 0 (.free old) = .ok ⟨.error (.invalidHandle 0), ps, log⟩) ∧
      ∃ log, ps.serve 1 (.free old) = .ok ⟨.error (.invalidHandle 0), ps, log⟩ := by
  intro old config rs
  have hany : (replay {} (ofCount 2) rs).any (fun last =>
      decide (last.1.arenas.length < UInt64.size ∧ (old, 0) ∈ last.1.issued ∧
        (last.2.get 0).blocks = [⟨0, 4⟩] ∧ (last.2.get 1).blocks = [⟨0, 4⟩] ∧
        last.1.current 0 = some 2 ∧ last.1.current 1 = some 1)) = true := by decide
  obtain ⟨⟨x, ps⟩, hreplay, hlast⟩ := (Option.any_eq_true _ _).1 hany
  obtain ⟨hcount, hissued, hblocks, hblocks', hfirst, hsecond⟩ := of_decide_eq_true hlast
  have hrun : Run 2 x ps := Run.nil.replay (by decide) hreplay
  have hinvalid := (separated_of_run hrun hcount).invalid (old, 0) hissued
  exact ⟨x, ps, hreplay, hrun, hcount, hissued, hblocks, hblocks',
    hinvalid 0 (.free old) rfl 2 hfirst (by decide),
    hinvalid 1 (.free old) rfl 1 hsecond (by decide)⟩

end Pools
end FirstFit
