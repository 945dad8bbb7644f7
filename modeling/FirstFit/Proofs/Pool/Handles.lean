/-
# Which handles a pool accepts

A handle is looked up by its arena and its offset. Its length is not compared
with anything, and neither is the block that it was issued for: a handle that
nobody issued is as good as another if a block starts where it says, and a
handle whose block is gone is good again once a block is placed there. Until
then it is rejected, whatever else is asked of the pool.

Key definitions: `Space.Accepts`, `Pool.Acted`, `Event.target?`, `Pool.Later`,
`Request.Vacates`, `Pool.Judged`.
Key theorems: `serve_acted`, `serve_withHandle`, `Later.start_ne`,
`Acted.vacated`, `judged_of_reached`.
-/
import FirstFit.Proofs.Pool.Journal
import FirstFit.Proofs.Pool.Resize
import FirstFit.Proofs.Pools.Run

namespace FirstFit

/-! ### The handle check -/

namespace Space

open Pool (Error Handle)

variable {s : Space} {h : Handle} {pre post : List Block} {b c : Block} {size : Nat}

/-- The handle is one of this arena, and a block starts at its offset. -/
def Accepts (s : Space) (h : Handle) : Prop :=
  h.arena = s.arena.id ∧ ∃ b ∈ s.layout.blocks, b.start = h.offset

theorem Accepts.names (ha : s.Accepts h) : ∃ pre b post, s.Names h pre b post := by
  obtain ⟨harena, b, hb, hstart⟩ := ha
  obtain ⟨pre, post, hsplit⟩ := List.append_of_mem hb
  exact ⟨pre, b, post, harena, hstart, hsplit⟩

theorem locate?_of_not_accepts (hs : s.Sound) (hn : ¬ s.Accepts h) : s.locate? h = none :=
  (locate?_eq_none hs).2 fun harena b hb hstart => hn ⟨harena, b, hb, hstart⟩

/-- The search in the starts finds something exactly if a block starts there. -/
theorem locate?_iff_accepts (hs : s.Sound) : (∃ p, s.locate? h = some p) ↔ s.Accepts h := by
  constructor
  · rintro ⟨p, hp⟩
    by_contra hn
    rw [locate?_of_not_accepts hs hn] at hp
    exact nomatch hp
  · intro ha
    obtain ⟨pre, b, post, hn⟩ := ha.names
    exact ⟨_, locate?_append hs hn.arena hn.blocks hn.start⟩

theorem Names.unique (hn : s.Names h pre b post) (hs : s.Sound) (hc : c ∈ s.layout.blocks)
    (hstart : c.start = h.offset) : c = b := by
  rw [hn.blocks] at hc
  exact (hn.wellFormed hs).eq_of_start hc (hn.wellFormed hs).mem_split (hstart.trans hn.start.symm)

theorem Names.free_eq (hn : s.Names h pre b post) (hs : s.Sound) :
    s.free h = .ok (.ok b, { s with layout := ⟨pre ++ post⟩ }) := by
  simp only [free, locate?_append hs hn.arena hn.blocks hn.start,
    Layout.removeAt_append hn.blocks, Checked.ok_bind]
  rfl

/-- A size is not refused as a handle. -/
theorem assess_ne_invalid {o : Nat} : s.assess size ≠ .error (.invalidHandle o) := by
  unfold assess
  split
  · simp
  · split <;> simp

end Space

/-! ### Requests with a handle -/

namespace Pool

open Layout (IsFree)

variable {p q : Pool} {s : Space} {supply : Supply} {r : Request} {h : Handle}
  {pre post : List Block} {b : Block} {event : Event} {log : List Event}
  {present present' : Finset Block} {reply : Reply Error (Pool × Supply) Event Answer}

/-- What becomes of a request for the block `b` between `pre` and `post`: it
concerns this block, with the length it has now. -/
inductive Acted (s : Space) (supply : Supply) (pre : List Block) (b : Block)
    (post : List Block) : Request → Reply Error (Pool × Supply) Event Answer → Prop
  | freed {h : Handle} : Acted s supply pre b post (.free h)
      ⟨.ok .done, (⟨some { s with layout := ⟨pre ++ post⟩ }⟩, supply), [.freed b.start b.len]⟩
  | resized {h : Handle} {size offset : Nat} {how : Growth} {arena : Arena} {blocks : List Block}
      (ha : s.assess size = .ok ()) (hfree : IsFree (pre ++ post) s.capacity offset size)
      (hplace : s.Settled pre b post offset size how blocks)
      (hbytes : s.Brought b offset size arena) :
      Acted s supply pre b post (.resize h size)
        ⟨.ok (.handle ⟨s.arena.id, offset, size⟩),
          (⟨some { s with arena, layout := ⟨blocks⟩ }⟩, supply),
          [.resized b.start offset size how]⟩
  | missized {h : Handle} {size : Nat} {e : Error} (ha : s.assess size = .error e) :
      Acted s supply pre b post (.resize h size)
        ⟨.error e, (⟨some s⟩, supply), [.resizeRejected h size e]⟩
  | crowded {h : Handle} {size gap : Nat} (ha : s.assess size = .ok ())
      (hgap : Layout.largestGap ⟨pre ++ post⟩ s.capacity = .ok gap)
      (hnone : ∀ o, ¬ IsFree (pre ++ post) s.capacity o size) :
      Acted s supply pre b post (.resize h size)
        ⟨.error (.outOfSpace size gap), (⟨some s⟩, supply),
          [.resizeRejected h size (.outOfSpace size gap)]⟩
  | read {h : Handle} : Acted s supply pre b post (.read h)
      ⟨.ok (.bytes (s.arena.slice b.start b.len)), (⟨some s⟩, supply), []⟩
  | written {h : Handle} {offset : Nat} {bytes : List UInt8}
      (hlen : offset + bytes.length ≤ b.len) :
      Acted s supply pre b post (.write h offset bytes)
        ⟨.ok .done, (⟨some { s with arena := s.arena.written (b.start + offset) bytes }⟩,
          supply), []⟩
  | outOfBounds {h : Handle} {offset : Nat} {bytes : List UInt8}
      (hlen : b.len < offset + bytes.length) :
      Acted s supply pre b post (.write h offset bytes)
        ⟨.error (.outOfBounds b.start (Size.addCapped offset bytes.length) b.len),
          (⟨some s⟩, supply), []⟩

theorem Acted.ne_invalid (ha : Acted s supply pre b post r reply) (o : Nat) :
    reply.answer ≠ .error (.invalidHandle o) := by
  cases ha with
  | missized ha =>
    intro he
    obtain rfl := Except.error.inj he
    exact Space.assess_ne_invalid ha
  | _ => simp

/-- Each of the four requests concerns the block that the handle names. -/
theorem serve_acted (hs : s.Sound) (hn : s.Names h pre b post) (supply : Supply)
    (hr : r.handle? = some h) :
    ∃ reply, serve ⟨some s⟩ supply r = .ok reply ∧ Acted s supply pre b post r reply := by
  have hl := Space.locate?_append hs hn.arena hn.blocks hn.start
  cases r with
  | free h' =>
    obtain rfl := Option.some.inj hr
    exact ⟨_, serve_free (hn.free_eq hs), .freed⟩
  | resize h' size =>
    obtain rfl := Option.some.inj hr
    obtain ⟨a, ha, hcase⟩ := hn.resize_cases hs size
    refine ⟨_, serve_resize ha, ?_⟩
    rcases hcase with ⟨e, hassess, rfl⟩ | ⟨hassess, hnone, gap, hgap, rfl⟩ |
      ⟨hassess, front, back, offset, how, arena, hplace, hbytes, rfl⟩
    · exact .missized hassess
    · exact .crowded hassess hgap hnone
    · have hw := hn.wellFormed hs
      have hsettled := hplace.settled hs hn (Space.assess_eq_ok.1 hassess).1
      rw [← hn.start]
      exact .resized hassess (hplace.isFree hw) hsettled (hplace.brought hw hbytes)
  | read h' =>
    obtain rfl := Option.some.inj hr
    exact ⟨_, serve_read (Space.read_eq hs hl hn.blocks), .read⟩
  | write h' offset bytes =>
    obtain rfl := Option.some.inj hr
    obtain ⟨a, ha, hcase⟩ := Space.write_cases hs h' offset bytes
    refine ⟨_, serve_write ha, ?_⟩
    cases hcase with
    | invalid hl' => exact nomatch hl.symm.trans hl'
    | outOfBounds hl' hlen =>
      obtain rfl := Option.some.inj (hl.symm.trans hl')
      exact .outOfBounds hlen
    | written hl' hsplit hlen =>
      obtain ⟨rfl, rfl, rfl⟩ := hn.eq_of_locate? hs hl' hsplit
      exact .written hlen
  | _ => exact nomatch hr

/-- The same request with another handle. -/
def Request.withHandle (h : Handle) : Request → Request
  | .free _ => .free h
  | .resize _ size => .resize h size
  | .read _ => .read h
  | .write _ offset bytes => .write h offset bytes
  | r => r

/-- The check reads the arena and the offset of a handle, and what follows it
does not read the handle any more. -/
theorem serve_withHandle (hs : s.Sound) (supply : Supply) (hr : r.handle? = some h)
    {h' : Handle} (harena : h'.arena = h.arena) (hoffset : h'.offset = h.offset) :
    ∃ reply reply', serve ⟨some s⟩ supply r = .ok reply ∧
      serve ⟨some s⟩ supply (r.withHandle h') = .ok reply' ∧
      reply'.answer = reply.answer ∧ reply'.state = reply.state := by
  obtain ⟨arena, offset, len⟩ := h
  obtain ⟨arena', offset', len'⟩ := h'
  obtain rfl : arena' = arena := harena
  obtain rfl : offset' = offset := hoffset
  cases r with
  | free h =>
    obtain rfl := Option.some.inj hr
    obtain ⟨a, ha, -⟩ := Space.free_cases hs ⟨arena', offset', len⟩
    have ha' : s.free ⟨arena', offset', len'⟩ = .ok a := ha
    exact ⟨_, _, serve_free ha, serve_free ha', rfl, rfl⟩
  | resize h size =>
    obtain rfl := Option.some.inj hr
    obtain ⟨a, ha, -⟩ := Space.resize_cases hs ⟨arena', offset', len⟩ size
    have ha' : s.resize ⟨arena', offset', len'⟩ size = .ok a := ha
    exact ⟨_, _, serve_resize ha, serve_resize ha', rfl, rfl⟩
  | read h =>
    obtain rfl := Option.some.inj hr
    obtain ⟨a, ha⟩ := Space.read_ok hs ⟨arena', offset', len⟩
    have ha' : s.read ⟨arena', offset', len'⟩ = .ok a := ha
    exact ⟨_, _, serve_read ha, serve_read ha', rfl, rfl⟩
  | write h first bytes =>
    obtain rfl := Option.some.inj hr
    obtain ⟨a, ha, -⟩ := Space.write_cases hs ⟨arena', offset', len⟩ first bytes
    have ha' : s.write ⟨arena', offset', len'⟩ first bytes = .ok a := ha
    exact ⟨_, _, serve_write ha, serve_write ha', rfl, rfl⟩
  | _ => exact nomatch hr

/-! ### Where blocks come from -/

/-- Where an event puts a block. -/
def Event.target? : Event → Option Nat
  | .allocated offset _ => some offset
  | .resized _ target _ _ => some target
  | _ => none

theorem Event.follow_start (hf : event.follow present = some present') (hb : b ∈ present') :
    b ∈ present ∨ event.target? = some b.start := by
  cases event with
  | initialised =>
    obtain rfl := Option.some.inj hf
    exact absurd hb (Finset.notMem_empty b)
  | tornDown =>
    obtain ⟨-, hf⟩ := Option.ite_none_right_eq_some.1 hf
    obtain rfl := Option.some.inj hf
    exact absurd hb (Finset.notMem_empty b)
  | allocated =>
    obtain ⟨-, hf⟩ := Option.ite_none_right_eq_some.1 hf
    obtain rfl := Option.some.inj hf
    rcases Finset.mem_insert.1 hb with rfl | hb
    · exact .inr rfl
    · exact .inl hb
  | freed =>
    obtain ⟨-, hf⟩ := Option.ite_none_right_eq_some.1 hf
    obtain rfl := Option.some.inj hf
    exact .inl (Finset.mem_of_mem_erase hb)
  | resized =>
    obtain ⟨-, hf⟩ := Option.ite_none_right_eq_some.1 hf
    obtain rfl := Option.some.inj hf
    rcases Finset.mem_insert.1 hb with rfl | hb
    · exact .inr rfl
    · exact .inl (Finset.mem_filter.1 hb).1
  | _ =>
    obtain rfl := Option.some.inj hf
    exact .inl hb

/-- A block that is there after a log was there before, or an event of the log
put one where it starts. -/
theorem retrace_start : ∀ {log : List Event} {present : Finset Block},
    retrace present log = some present' → b ∈ present' →
    b ∈ present ∨ ∃ event ∈ log, event.target? = some b.start
  | [], present, hlog, hb => by
    obtain rfl := Option.some.inj hlog
    exact .inl hb
  | event :: rest, present, hlog, hb => by
    obtain ⟨between, hfollow, hrest⟩ := Option.bind_eq_some_iff.1 hlog
    rcases retrace_start hrest hb with hbetween | ⟨e, he, htarget⟩
    · rcases Event.follow_start hfollow hbetween with hpresent | htarget
      · exact .inl hpresent
      · exact .inr ⟨event, List.mem_cons_self, htarget⟩
    · exact .inr ⟨e, List.mem_cons_of_mem _ he, htarget⟩

/-- What a pool `p` comes to by requests, and by writes of others to its arena,
and all that is logged meanwhile. -/
inductive Later (p : Pool) : List Event → Pool → Prop
  | refl : Later p [] p
  | serve {log : List Event} {q : Pool} {supply : Supply} {r : Request}
      {reply : Reply Error (Pool × Supply) Event Answer} (h : Later p log q)
      (hserve : q.serve supply r = .ok reply) : Later p (log ++ reply.log) reply.state.1
  | store {log : List Event} {s : Space} {offset : Nat} {bytes : List UInt8} {arena : Arena}
      (h : Later p log ⟨some s⟩) (hstore : s.arena.store offset bytes = .ok arena) :
      Later p log ⟨some { s with arena }⟩

theorem Later.reached (hp : Reached p) (hq : Later p log q) : Reached q := by
  induction hq with
  | refl => exact hp
  | serve _ hserve ih => exact ih.serve hserve
  | store _ hstore ih => exact ih.store hstore

theorem Later.retrace (hp : Reached p) (hq : Later p log q) :
    Pool.retrace p.blocks.toFinset log = some q.blocks.toFinset := by
  induction hq with
  | refl => rfl
  | serve hq hserve ih =>
    rw [retrace_append, ih]
    exact serve_retrace (hq.reached hp).sound hserve
  | store _ _ ih => exact ih

/-- No block appears anywhere without an entry in the log. -/
theorem Later.starts (hp : Reached p) (hq : Later p log q) (hb : b ∈ q.blocks) :
    b ∈ p.blocks ∨ ∃ event ∈ log, event.target? = some b.start := by
  rcases retrace_start (hq.retrace hp) (List.mem_toFinset.2 hb) with hold | hnew
  · exact .inl (List.mem_toFinset.1 hold)
  · exact .inr hnew

/-- Where no block starts none does later, until one is placed there. -/
theorem Later.start_ne {offset : Nat} (hp : Reached p) (hq : Later p log q)
    (hnone : ∀ c ∈ p.blocks, c.start ≠ offset)
    (hlog : ∀ event ∈ log, event.target? ≠ some offset) : ∀ c ∈ q.blocks, c.start ≠ offset := by
  intro c hc hstart
  rcases hq.starts hp hc with hold | ⟨event, hevent, htarget⟩
  · exact hnone c hold hstart
  · exact hlog event hevent (hstart ▸ htarget)

/-! ### Handles whose block is gone -/

/-- The request was granted, and the block does not start where it did. -/
def Request.Vacates (answer : Except Error Answer) : Request → Prop
  | .free _ => answer = .ok .done
  | .resize h _ => ∃ new, answer = .ok (.handle new) ∧ new.offset ≠ h.offset
  | _ => False

/-- A request that is refused takes no block away. -/
theorem Request.Vacates.ne_error {answer : Except Error Answer} (hv : r.Vacates answer)
    (e : Error) : answer ≠ .error e := by
  rintro rfl
  cases r with
  | free => exact nomatch hv
  | resize =>
    obtain ⟨new, hnew, -⟩ := hv
    exact nomatch hnew
  | _ => exact hv

theorem Acted.vacated (hs : s.Sound) (hn : s.Names h pre b post) (hr : r.handle? = some h)
    (ha : Acted s supply pre b post r reply) (hv : r.Vacates reply.answer) :
    ∀ c ∈ reply.state.1.blocks, c.start ≠ h.offset := by
  have hw := hn.wellFormed hs
  intro c hc
  cases ha with
  | freed => exact hn.start ▸ hw.start_ne hc
  | resized _ _ hplace =>
    obtain rfl := Option.some.inj hr
    obtain ⟨new, hnew, hne⟩ := hv
    obtain rfl := Answer.handle.inj (Except.ok.inj hnew)
    obtain ⟨front, back, hrest, rfl⟩ := hplace.others
    rcases List.mem_cons.1 (List.perm_middle.mem_iff.1 hc) with rfl | hc
    · exact hne
    · exact hn.start ▸ hw.start_ne (hrest ▸ hc)
  | missized => exact absurd rfl (hv.ne_error _)
  | crowded => exact absurd rfl (hv.ne_error _)
  | _ => exact hv.elim

/-- Where no block starts, a pool refuses every handle of any arena. -/
theorem serve_unplaced (hq : q.Sound) (hr : r.handle? = some h)
    (hnone : ∀ b ∈ q.blocks, b.start ≠ h.offset) (supply : Supply) :
    ∃ reply, q.serve supply r = .ok reply ∧
      reply.answer = .error (if q.isLive then .invalidHandle h.offset else .uninitialised) ∧
      reply.state = (q, supply) := by
  obtain ⟨space?⟩ := q
  cases space? with
  | none =>
    obtain ⟨log, hserve⟩ := serve_handle_none supply hr
    exact ⟨_, hserve, rfl, rfl⟩
  | some s =>
    have hl : s.locate? h = none := (Space.locate?_eq_none (sound_some.1 hq)).2 fun _ => hnone
    obtain ⟨log, hserve⟩ := serve_invalid supply hr hl
    exact ⟨_, hserve, rfl, rfl⟩

/-! ### Handles in a pool that can be reached -/

/-- What a pool with the space `s` makes of a handle. -/
structure Judged (s : Space) (h : Handle) : Prop where
  /-- This is the check that all four requests begin with. -/
  checked : (∃ p, s.locate? h = some p) ↔ s.Accepts h
  /-- They concern one block then, as it is now. -/
  accepted : s.Accepts h → ∃ pre b post, s.Names h pre b post ∧
    (∀ c ∈ s.layout.blocks, c.start = h.offset → c = b) ∧
    ∀ supply r, r.handle? = some h → ∃ reply, serve ⟨some s⟩ supply r = .ok reply ∧
      Acted s supply pre b post r reply ∧ ∀ o, reply.answer ≠ .error (.invalidHandle o)
  /-- A size that is no good either is not looked at. -/
  rejected : ¬ s.Accepts h → ∀ supply r, r.handle? = some h →
    ∃ reply, serve ⟨some s⟩ supply r = .ok reply ∧
      reply.answer = .error (.invalidHandle h.offset) ∧ reply.state = (⟨some s⟩, supply)
  anyLength : ∀ h' : Handle, h'.arena = h.arena → h'.offset = h.offset →
    ∀ supply r, r.handle? = some h → ∃ reply reply', serve ⟨some s⟩ supply r = .ok reply ∧
      serve ⟨some s⟩ supply (r.withHandle h') = .ok reply' ∧
      reply'.answer = reply.answer ∧ reply'.state = reply.state
  /-- Once its block is gone it is rejected until one is placed at its offset. -/
  vacated : ∀ supply r, r.handle? = some h → ∃ reply, serve ⟨some s⟩ supply r = .ok reply ∧
    (r.Vacates reply.answer → ∀ log q, Later reply.state.1 log q →
      (∀ event ∈ log, event.target? ≠ some h.offset) →
      ∀ supply' r' h', r'.handle? = some h' → h'.offset = h.offset →
        ∃ reply', q.serve supply' r' = .ok reply' ∧
          reply'.answer = .error (if q.isLive then .invalidHandle h.offset else .uninitialised) ∧
          reply'.state = (q, supply'))

/-- A pool that can be reached accepts a handle, whoever made it, exactly if it
is one of the present arena and a block starts at its offset. -/
theorem judged_of_reached (hreached : Reached ⟨some s⟩) (h : Handle) : Judged s h := by
  have hs : s.Sound := sound_some.1 hreached.sound
  have hrejected : ¬ s.Accepts h → ∀ supply r, r.handle? = some h →
      ∃ reply, serve ⟨some s⟩ supply r = .ok reply ∧
        reply.answer = .error (.invalidHandle h.offset) ∧ reply.state = (⟨some s⟩, supply) := by
    intro hnot supply r hr
    obtain ⟨log, hserve⟩ := serve_invalid supply hr (Space.locate?_of_not_accepts hs hnot)
    exact ⟨_, hserve, rfl, rfl⟩
  exact {
    checked := Space.locate?_iff_accepts hs
    accepted := by
      intro ha
      obtain ⟨pre, b, post, hn⟩ := ha.names
      refine ⟨pre, b, post, hn, fun c hc => hn.unique hs hc, fun supply r hr => ?_⟩
      obtain ⟨reply, hserve, hacted⟩ := serve_acted hs hn supply hr
      exact ⟨reply, hserve, hacted, hacted.ne_invalid⟩
    rejected := hrejected
    anyLength := fun h' harena hoffset supply r hr => serve_withHandle hs supply hr harena hoffset
    vacated := by
      intro supply r hr
      by_cases ha : s.Accepts h
      · obtain ⟨pre, b, post, hn⟩ := ha.names
        obtain ⟨reply, hserve, hacted⟩ := serve_acted hs hn supply hr
        refine ⟨reply, hserve, fun hv log q hq hlog supply' r' h' hr' hoffset => ?_⟩
        have hafter : Reached reply.state.1 := hreached.serve hserve
        have hnone := hq.start_ne hafter (hacted.vacated hs hn hr hv) hlog
        rw [← hoffset] at hnone ⊢
        exact serve_unplaced (hq.reached hafter).sound hr' hnone supply'
      · obtain ⟨reply, hserve, hanswer, -⟩ := hrejected ha supply r hr
        exact ⟨reply, hserve, fun hv => absurd hanswer (hv.ne_error _)⟩ }

/-- A handle with a length that no block has gives a block back. After it, one
with the right length is rejected, though another block was placed meanwhile. -/
theorem judged_of_reached_vacated :
    let rs : List Request := [.initialise ⟨8, true⟩, .allocate 2, .allocate 3]
    let h : Handle := ⟨⟨1⟩, 0, 77⟩
    ∃ answers s supply log, serveAll {} {} rs = .ok (answers, (⟨some s⟩, supply), log) ∧
      s.Accepts h ∧
      ∃ freed, serve ⟨some s⟩ supply (.free h) = .ok freed ∧ freed.answer = .ok .done ∧
        freed.log = [.freed 0 2] ∧
        ∃ placed, freed.state.1.serve freed.state.2 (.allocate 3) = .ok placed ∧
          placed.log = [.allocated 5 3] ∧
          ∃ reply, placed.state.1.serve placed.state.2 (.resize ⟨⟨1⟩, 0, 2⟩ 0) = .ok reply ∧
            reply.answer = .error (.invalidHandle 0) ∧ reply.state = placed.state := by
  intro rs h
  have hlive := reached_of_any rs (fun s supply =>
    decide (s.arena.id = ⟨1⟩ ∧ s.layout.blocks = [⟨0, 2⟩, ⟨2, 3⟩]) &&
      (serve ⟨some s⟩ supply (.free h)).toOption.any fun freed =>
        decide (freed.answer = .ok .done ∧ freed.log = [.freed 0 2]) &&
          (freed.state.1.serve freed.state.2 (.allocate 3)).toOption.any fun placed =>
            decide (placed.log = [.allocated 5 3] ∧ placed.state.1.isLive = true)) (by decide)
  obtain ⟨answers, s, supply, log, hrun, hreached, hs⟩ := hlive
  obtain ⟨hfacts, hs⟩ := Bool.and_eq_true_iff.1 hs
  obtain ⟨hid, hblocks⟩ := of_decide_eq_true hfacts
  have haccepts : s.Accepts h := ⟨hid.symm, ⟨0, 2⟩, hblocks ▸ List.mem_cons_self, rfl⟩
  obtain ⟨freed, hfree, hvacated⟩ :=
    (judged_of_reached hreached h).vacated supply (.free h) rfl
  rw [hfree] at hs
  obtain ⟨hfreed, hs⟩ := Bool.and_eq_true_iff.1 hs
  obtain ⟨hanswer, hlog⟩ := of_decide_eq_true hfreed
  obtain ⟨placed, hplace, -⟩ :=
    serve_sound (hreached.serve hfree).sound freed.state.2 (.allocate 3)
  rw [hplace] at hs
  obtain ⟨hplaced, hlive⟩ := of_decide_eq_true hs
  have hlater : Later freed.state.1 placed.log placed.state.1 := Later.refl.serve hplace
  have hother : ∀ event ∈ placed.log, event.target? ≠ some h.offset := by
    rw [hplaced]
    decide
  obtain ⟨reply, hresize, hrejected, hstate⟩ := hvacated hanswer _ _ hlater hother
    placed.state.2 (.resize ⟨⟨1⟩, 0, 2⟩ 0) ⟨⟨1⟩, 0, 2⟩ rfl rfl
  rw [if_pos hlive] at hrejected
  exact ⟨answers, s, supply, log, hrun, haccepts, freed, hfree, hanswer, hlog, placed, hplace,
    hplaced, reply, hresize, hrejected, hstate⟩

end Pool
end FirstFit
