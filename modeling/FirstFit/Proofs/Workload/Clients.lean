/-
# Clients do not disturb each other

A client of a pool marks the blocks it is granted. No other client writes to
them, so it finds its marks untouched, however many others there are, and the
blocks that are kept are full of marks in the end. Clients of a chain that
append until they are refused take all the slots that are left and no more, and
clients with operations of their own are answered as in one run of all the
operations.

Key definitions: `Contents.withMarks`, `Contents.Fresh`, `Contents.Shared`,
`Chain.spare`, `Tally.of`.
Key theorems: `claim_carries`, `marks_of_shareOut`, `appendAll_holds`,
`refusals_of_run`, `serveClients_eq`, `balance_of_serveClients`.
-/
import FirstFit.Proofs.Pool.Contents
import FirstFit.Proofs.Workload.Tally
import FirstFit.Workload.Clients

namespace FirstFit

/-! ### Marks in a pool -/

namespace Pool

variable {s : Space} {m m₁ m' : Contents} {id : ArenaId} {h : Handle} {handles : List Handle}
  {size clients : Nat} {mark : UInt8} {bytes : List UInt8}

namespace Contents

/-- The map with the same string for each of the handles. -/
def withMarks (m : Contents) (bytes : List UInt8) (handles : List Handle) : Contents :=
  fun o => if o ∈ handles.map Handle.offset then some bytes else m o

/-- Handles of different places, none of which is a key of the map. -/
structure Fresh (m : Contents) (id : ArenaId) (handles : List Handle) : Prop where
  arena : ∀ h ∈ handles, h.arena = id
  vacant : ∀ h ∈ handles, m h.offset = none
  distinct : (handles.map Handle.offset).Nodup

/-- What clients, the first of them with the mark `mark`, make of a map: it
keeps its strings, and all others are marks of one of the clients. -/
structure Shared (m m' : Contents) (size : Nat) (mark : UInt8) (clients : Nat) : Prop where
  kept : ∀ o bytes, m o = some bytes → m' o = some bytes
  marked : ∀ o bytes, m' o = some bytes → m o = some bytes ∨
    ∃ k < clients, bytes = List.replicate size (mark + UInt8.ofNat k)

theorem withMarks_nil (m : Contents) (bytes : List UInt8) : m.withMarks bytes [] = m :=
  funext fun _ => if_neg List.not_mem_nil

theorem withMarks_update (m : Contents) (bytes : List UInt8) (h : Handle)
    (handles : List Handle) :
    withMarks (Function.update m h.offset (some bytes)) bytes handles =
      m.withMarks bytes (h :: handles) := by
  funext o
  unfold withMarks
  by_cases ho : o = h.offset
  · simp [ho]
  · simp [ho]

/-- A mark that is taken away again. -/
theorem update_withMarks (hf : m.Fresh id (h :: handles)) :
    Function.update (m.withMarks bytes (h :: handles)) h.offset none =
      m.withMarks bytes handles := by
  have hout : h.offset ∉ handles.map Handle.offset := (List.nodup_cons.1 hf.distinct).1
  have hnone := hf.vacant h List.mem_cons_self
  funext o
  by_cases ho : o = h.offset
  · rw [ho, Function.update_self, withMarks, if_neg hout, hnone]
  · rw [Function.update_of_ne ho, withMarks, withMarks]
    simp [ho]

theorem withMarks_of_mem (hh : h ∈ handles) : m.withMarks bytes handles h.offset = some bytes :=
  if_pos (List.mem_map_of_mem hh)

theorem patched_all {new : List UInt8} (h : bytes.length ≤ new.length) :
    patched 0 new bytes = new := by
  simp [patched, h]

namespace Fresh

theorem nil : m.Fresh id [] :=
  ⟨fun _ h => (nomatch h), fun _ h => (nomatch h), List.nodup_nil⟩

theorem tail (hf : m.Fresh id (h :: handles)) : m.Fresh id handles :=
  ⟨fun x hx => hf.arena x (List.mem_cons_of_mem _ hx),
    fun x hx => hf.vacant x (List.mem_cons_of_mem _ hx), (List.nodup_cons.1 hf.distinct).2⟩

/-- A handle of a place that got a string before the others were granted. -/
theorem cons (ha : h.arena = id) (hnone : m h.offset = none)
    (hf : Fresh (Function.update m h.offset (some bytes)) id handles) :
    m.Fresh id (h :: handles) := by
  have hne : ∀ x ∈ handles, x.offset ≠ h.offset := by
    intro x hx he
    have hx := hf.vacant x hx
    rw [he, Function.update_self] at hx
    exact nomatch hx
  refine ⟨List.forall_mem_cons.2 ⟨ha, hf.arena⟩, List.forall_mem_cons.2 ⟨hnone, ?_⟩, ?_⟩
  · intro x hx
    rw [← Function.update_of_ne (hne x hx) (some bytes) m]
    exact hf.vacant x hx
  · refine List.nodup_cons.2 ⟨fun hmem => ?_, hf.distinct⟩
    obtain ⟨x, hx, he⟩ := List.mem_map.1 hmem
    exact hne x hx he

end Fresh

namespace Shared

theorem refl (m : Contents) (size : Nat) (mark : UInt8) (clients : Nat) :
    m.Shared m size mark clients :=
  ⟨fun _ _ h => h, fun _ _ h => .inl h⟩

theorem withMarks (hf : m.Fresh id handles) :
    m.Shared (m.withMarks (List.replicate size mark) handles) size mark 1 where
  kept o bytes ho := by
    have hout : o ∉ handles.map Handle.offset := by
      intro hmem
      obtain ⟨x, hx, rfl⟩ := List.mem_map.1 hmem
      exact nomatch ho.symm.trans (hf.vacant x hx)
    exact (if_neg hout).trans ho
  marked o bytes ho := by
    by_cases hmem : o ∈ handles.map Handle.offset
    · have hbytes : some (List.replicate size mark) = some bytes := (if_pos hmem).symm.trans ho
      refine .inr ⟨0, Nat.one_pos, ?_⟩
      rw [← Option.some.inj hbytes]
      simp
    · exact .inl ((if_neg hmem).symm.trans ho)

/-- The first client and then the others. -/
theorem trans (hfirst : m.Shared m₁ size mark 1) (hrest : m₁.Shared m' size (mark + 1) clients) :
    m.Shared m' size mark (clients + 1) where
  kept o bytes ho := hrest.kept o bytes (hfirst.kept o bytes ho)
  marked o bytes ho := by
    rcases hrest.marked o bytes ho with ho | ⟨k, hk, rfl⟩
    · rcases hfirst.marked o bytes ho with ho | ⟨k, hk, rfl⟩
      · exact .inl ho
      · exact .inr ⟨k, Nat.lt_of_lt_of_le hk (Nat.le_add_left 1 clients), rfl⟩
    · refine .inr ⟨k + 1, Nat.add_lt_add_right hk 1, ?_⟩
      rw [UInt8.ofNat_add, UInt8.add_comm (UInt8.ofNat k), ← UInt8.add_assoc]
      rfl

end Shared
end Contents

open Contents (Fresh Shared withMarks)

/-- A block that was just granted takes the mark. -/
theorem mark_carries
    (hs : s.Carries id (Function.update m h.offset (some (List.replicate size 0))))
    (ha : h.arena = id) (mark : UInt8) :
    ∃ s', s.write h 0 (List.replicate size mark) = .ok (.ok (), s') ∧
      s'.Carries id (Function.update m h.offset (some (List.replicate size mark))) := by
  obtain ⟨⟨answer, s'⟩, hr, hallows, hs'⟩ := hs.write h 0 (List.replicate size mark)
  have hdone : answer.map (fun _ => Answer.done) = .ok .done :=
    hallows.2 ⟨_, ha, Function.update_self .., by simp⟩
  obtain ⟨⟨⟩, rfl, -⟩ := Reply.ok_of_map hdone
  refine ⟨s', hr, ?_⟩
  have hpatched : Contents.patched 0 (List.replicate size mark) (List.replicate size 0) =
      List.replicate size mark := Contents.patched_all (by simp)
  have hafter : s'.Carries id (Function.update
      (Function.update m h.offset (some (List.replicate size 0))) h.offset
      ((Function.update m h.offset (some (List.replicate size 0)) h.offset).map
        (Contents.patched 0 (List.replicate size mark)))) := hs'
  rwa [Function.update_self, Option.map_some, hpatched, Function.update_idem] at hafter

/-- The blocks that a client claims are new ones, and full of its mark. -/
theorem claim_carries (size : Nat) (mark : UInt8) (tries : Nat) (hs : s.Carries id m) :
    ∃ handles s', claim ⟨some s⟩ size mark tries = .ok (handles, ⟨some s'⟩) ∧
      m.Fresh id handles ∧ s'.Carries id (m.withMarks (List.replicate size mark) handles) := by
  induction tries generalizing s m with
  | zero => exact ⟨[], s, rfl, .nil, (m.withMarks_nil _).symm ▸ hs⟩
  | succ tries ih =>
    obtain ⟨⟨answer, s₁⟩, hr, hallows, hs₁⟩ := hs.allocate size
    cases answer with
    | error e =>
      obtain ⟨handles, s', hclaim, hfresh, hs'⟩ := ih hs₁
      refine ⟨handles, s', ?_, hfresh, hs'⟩
      rw [claim, allocate_some hr, Checked.ok_bind]
      exact hclaim
    | ok h =>
      obtain ⟨_, hnew, harena, hnone⟩ := hallows _ rfl
      obtain rfl := Answer.handle.inj hnew
      -- the others are claimed with the mark in place, so none of them lies there
      obtain ⟨s₂, hw, hs₂⟩ := mark_carries hs₁ harena mark
      obtain ⟨handles, s', hclaim, hfresh, hs'⟩ := ih hs₂
      refine ⟨h :: handles, s', ?_, hfresh.cons harena hnone, ?_⟩
      · rw [claim, allocate_some hr, Checked.ok_bind]
        simp only [write, hw, hclaim, Checked.ok_bind, pure_bind]
        rfl
      · rwa [Contents.withMarks_update] at hs'

/-- A client that looks at blocks with its mark finds it. -/
theorem allMarked_of_carries (hs : s.Carries id m) : ∀ {handles : List Handle},
    (∀ h ∈ handles, h.arena = id ∧ m h.offset = some (List.replicate size mark)) →
      allMarked ⟨some s⟩ size mark handles = .ok true
  | [], _ => rfl
  | h :: handles, hmarked => by
    have hrest := allMarked_of_carries hs fun x hx => hmarked x (List.mem_cons_of_mem _ hx)
    obtain ⟨harena, hbytes⟩ := hmarked h List.mem_cons_self
    rw [allMarked, hrest, Checked.ok_bind, hs.shows.read h _ harena hbytes, Checked.ok_bind]
    simp only [BEq.rfl, Bool.and_self]
    rfl

/-- A client that gives back its blocks leaves the map that it found. -/
theorem freeAll_carries : ∀ {handles : List Handle} {s : Space}, m.Fresh id handles →
    s.Carries id (m.withMarks bytes handles) →
      ∃ s', freeAll ⟨some s⟩ handles = .ok ⟨some s'⟩ ∧ s'.Carries id m
  | [], s, _, hs => ⟨s, rfl, m.withMarks_nil bytes ▸ hs⟩
  | h :: handles, s, hf, hs => by
    obtain ⟨⟨answer, s₁⟩, hr, hallows, hs₁⟩ := hs.free h
    have hkey : m.withMarks bytes (h :: handles) h.offset = some bytes :=
      Contents.withMarks_of_mem List.mem_cons_self
    have hdone : answer.map (fun _ => Answer.done) = .ok .done :=
      hallows.2 ⟨hf.arena h List.mem_cons_self, Option.isSome_of_eq_some hkey⟩
    obtain ⟨b, rfl, -⟩ := Reply.ok_of_map hdone
    have hafter : s₁.Carries id
        (Function.update (m.withMarks bytes (h :: handles)) h.offset none) := hs₁
    rw [Contents.update_withMarks hf] at hafter
    obtain ⟨s', hrest, hs'⟩ := freeAll_carries hf.tail hafter
    refine ⟨s', ?_, hs'⟩
    rw [freeAll, free_some hr, Checked.ok_bind]
    exact hrest

/-- One client finds its marks, and what it keeps is full of them. -/
theorem markBlocks_carries (hs : s.Carries id m) (size tries : Nat) (keep : Bool)
    (mark : UInt8) :
    ∃ s' m', markBlocks ⟨some s⟩ size tries keep mark = .ok (true, ⟨some s'⟩) ∧
      s'.Carries id m' ∧ m.Shared m' size mark 1 ∧ (keep = false → m' = m) := by
  obtain ⟨handles, s₁, hclaim, hfresh, hs₁⟩ := claim_carries size mark tries hs
  have hmarked : allMarked ⟨some s₁⟩ size mark handles = .ok true :=
    allMarked_of_carries hs₁ fun h hh => ⟨hfresh.arena h hh, Contents.withMarks_of_mem hh⟩
  cases keep with
  | true =>
    refine ⟨s₁, _, ?_, hs₁, .withMarks hfresh, fun h => (nomatch h)⟩
    simp only [markBlocks, hclaim, hmarked, Checked.ok_bind]
    rfl
  | false =>
    obtain ⟨s', hfree, hs'⟩ := freeAll_carries hfresh hs₁
    refine ⟨s', m, ?_, hs', .refl m size mark 1, fun _ => rfl⟩
    simp only [markBlocks, hclaim, hmarked, hfree, Checked.ok_bind]
    rfl

/-- All clients find their marks, one after another. -/
theorem shareOut_carries (size tries : Nat) (keep : Bool) (clients : Nat) (mark : UInt8)
    (hs : s.Carries id m) :
    ∃ s' m', shareOut ⟨some s⟩ size tries keep mark clients =
        .ok (List.replicate clients true, ⟨some s'⟩) ∧
      s'.Carries id m' ∧ m.Shared m' size mark clients ∧ (keep = false → m' = m) := by
  induction clients generalizing mark s m with
  | zero => exact ⟨s, m, rfl, hs, .refl m size mark 0, fun _ => rfl⟩
  | succ clients ih =>
    obtain ⟨s₁, m₁, hfirst, hs₁, hshared₁, hkeep₁⟩ :=
      markBlocks_carries hs size tries keep mark
    obtain ⟨s', m', hrest, hs', hshared, hkeep⟩ := ih (mark + 1) hs₁
    refine ⟨s', m', ?_, hs', hshared₁.trans hshared, fun h => (hkeep h).trans (hkeep₁ h)⟩
    simp only [shareOut, hfirst, hrest, Checked.ok_bind]
    rfl

/-- Any number of clients share a pool that zeroes its blocks: each finds its
marks, the pool holds nothing but marks in the end, and no block at all if
every client gives back what it got. -/
theorem marks_of_shareOut {supply : Supply} {capacity : Nat}
    (h : (initialise {} supply ⟨capacity, true⟩).answer = .ok ()) (size tries : Nat)
    (keep : Bool) (mark : UInt8) (clients : Nat) :
    ∃ p m, (initialise {} supply ⟨capacity, true⟩).state.1.shareOut size tries keep mark
        clients = .ok (List.replicate clients true, p) ∧
      p.Shows supply.next m ∧ (keep = false → p.blocks = []) ∧
      ∀ o bytes, m o = some bytes →
        ∃ k < clients, bytes = List.replicate size (mark + UInt8.ofNat k) := by
  obtain ⟨s, hstate, hs⟩ := initialise_carries h
  obtain ⟨s', m, hshare, hs', hshared, hkeep⟩ := shareOut_carries size tries keep clients mark hs
  refine ⟨_, m, by rw [hstate]; exact hshare, hs'.shows, fun hk => ?_, fun o bytes ho => ?_⟩
  · refine List.eq_nil_iff_forall_not_mem.2 fun b hb => ?_
    obtain ⟨bytes, hkey, -⟩ := (hs'.shows.blocks b).1 hb
    rw [hkeep hk] at hkey
    exact nomatch hkey
  · exact (hshared.marked o bytes ho).resolve_left fun h => nomatch h

end Pool

/-! ### Values in a chain -/

namespace Chain

variable {c : Chain} {s : Sequence}

/-- The number of nodes that a chain with the nodes of `s` can still get. -/
def spare (c : Chain) (s : Sequence) : Nat :=
  if c.table.isLive then c.table.slots - s.length else 0

/-- The answer that a chain without a pool gives to who needs a node. -/
abbrev afterEnd : Error := .allocationFailed .uninitialised

/-- The refusal is one for want of storage. -/
def IsFull (refusal : Option Error) : Prop := ∃ e, refusal = some (.allocationFailed e)

/-- An append is refused, and then no slot was left, or takes one that was. -/
theorem insert_cases (h : c.Holds s) (data : UInt16) :
    ∃ reply, c.insert data = .ok reply ∧
      ((∃ e, reply.answer = .error (.allocationFailed e) ∧ reply.state.Holds s ∧
          c.spare s = 0 ∧ reply.state.spare s = 0) ∨
        ∃ node, reply.answer = .ok node ∧ reply.state.Holds (s ++ [(node, data)]) ∧
          c.spare s = reply.state.spare (s ++ [(node, data)]) + 1) := by
  obtain ⟨offer, ⟨answer, c', log⟩, hreply, hs⟩ := insert_simulates h data
  have hlive : c'.table.isLive = c.table.isLive := hs.live.trans (Bool.and_true _)
  have hslots : c'.table.slots = c.table.slots := congrArg (· / Node.size) hs.capacity
  have hanswer : answer.map Answer.node = (s.step offer (.insert data)).1 :=
    hs.answer_eq (by simp)
  refine ⟨_, hreply, ?_⟩
  cases offer with
  | error e =>
    obtain rfl : answer = .error (.allocationFailed e) := Reply.error_of_map hanswer
    have hspare : c.spare s = 0 := by
      unfold spare
      split
      · next hl => exact Nat.sub_eq_zero_of_le (hs.offers rfl hl)
      · rfl
    refine .inl ⟨e, rfl, hs.holds, hspare, ?_⟩
    rwa [spare, hlive, hslots]
  | ok node =>
    obtain ⟨n, rfl, hn⟩ := Reply.ok_of_map hanswer
    obtain rfl := Answer.node.inj hn
    obtain ⟨hl, hroom, -⟩ := hs.offers rfl
    refine .inr ⟨n, rfl, hs.holds, ?_⟩
    simp only [spare, hlive, hslots, hl, if_true, List.length_append, List.length_singleton]
    omega

/-- A client that appends takes as many slots as it tries to, or all that are
left and then one refusal. -/
theorem appendAll_holds (data : UInt16) (tries : Nat) (h : c.Holds s) :
    ∃ refusal c' new, c.appendAll data tries = .ok (refusal, c') ∧ c'.Holds (s ++ new) ∧
      new.map Prod.snd = List.replicate (min tries (c.spare s)) data ∧
      c'.spare (s ++ new) = c.spare s - tries ∧ (c.spare s < tries → IsFull refusal) ∧
      (tries ≤ c.spare s → refusal = none) := by
  induction tries generalizing c s with
  | zero => exact ⟨none, c, [], rfl, by rwa [List.append_nil], by simp, by simp, by simp, by simp⟩
  | succ tries ih =>
    obtain ⟨⟨answer, c₁, log⟩, hreply, hcases⟩ := insert_cases h data
    rcases hcases with ⟨e, rfl, hholds, hspare, hspare₁⟩ | ⟨node, rfl, hholds, hspare⟩
    · refine ⟨some (.allocationFailed e), c₁, [], ?_, ?_, ?_, ?_, fun _ => ⟨e, rfl⟩, ?_⟩
      · rw [appendAll, hreply]
        rfl
      · rwa [List.append_nil]
      · simp [hspare]
      · simp [hspare, hspare₁]
      · omega
    · obtain ⟨refusal, c', new, happend, hholds', hvalues, hspare', hfull, hnone⟩ := ih hholds
      rw [List.append_assoc, List.singleton_append] at hholds' hspare'
      refine ⟨refusal, c', (node, data) :: new, ?_, hholds', ?_, by omega,
        fun hlt => hfull (by omega), fun hle => hnone (by omega)⟩
      · rw [appendAll, hreply]
        exact happend
      · rw [List.map_cons, hvalues, hspare, Nat.add_min_add_right, List.replicate_succ]

theorem spare_le (c : Chain) (s : Sequence) : c.spare s ≤ c.table.slots := by
  unfold spare
  split
  · apply Nat.sub_le
  · apply Nat.zero_le

/-- Clients append until they are refused. The first of them takes all slots
that are left, and the others are refused at once. -/
theorem appendClients_holds (clients : Nat) (h : c.Holds s) :
    ∃ refusals c' new, c.appendClients clients = .ok (refusals, c') ∧
      refusals.length = clients ∧ (∀ r ∈ refusals, IsFull r) ∧ c'.Holds (s ++ new) ∧
      new.map Prod.snd = if clients = 0 then [] else List.replicate (c.spare s) 0 := by
  induction clients generalizing c s with
  | zero => exact ⟨[], c, [], rfl, rfl, by simp, by rwa [List.append_nil], rfl⟩
  | succ clients ih =>
    have hspare : c.spare s < c.table.slots + 1 := Nat.lt_succ_of_le (c.spare_le s)
    obtain ⟨refusal, c₁, new₁, happend, hholds₁, hvalues₁, hspare₁, hfull, -⟩ :=
      appendAll_holds 0 (c.table.slots + 1) h
    obtain ⟨refusals, c', new, hrest, hlength, hrefused, hholds, hvalues⟩ := ih hholds₁
    have hnew : new.map Prod.snd = [] := by
      rw [hvalues, hspare₁, Nat.sub_eq_zero_of_le (Nat.le_of_lt hspare)]
      exact ite_self []
    refine ⟨refusal :: refusals, c', new₁ ++ new, ?_, congrArg (· + 1) hlength,
      List.forall_mem_cons.2 ⟨hfull hspare, hrefused⟩, ?_, ?_⟩
    · simp only [appendClients, happend, hrest, Checked.ok_bind]
      rfl
    · rwa [← List.append_assoc]
    · calc (new₁ ++ new).map Prod.snd = new₁.map Prod.snd := by simp [hnew]
        _ = List.replicate (min (c.table.slots + 1) (c.spare s)) 0 := hvalues₁
        _ = List.replicate (c.spare s) 0 := by rw [Nat.min_eq_right (Nat.le_of_lt hspare)]
        _ = _ := (if_neg (Nat.succ_ne_zero clients)).symm

/-- On a chain that was cleaned up every client is refused at once. -/
theorem appendClients_ended (h : c.Holds s) (hlive : c.table.isLive = false) :
    ∀ clients : Nat,
      c.appendClients clients = .ok (List.replicate clients (some afterEnd), c)
  | 0 => rfl
  | clients + 1 => by
    have hinsert : c.insert 0 = .ok ⟨.error afterEnd, c, []⟩ := by
      rw [insert, NodeTable.create_ended h.stored.tidy hlive]
      rfl
    rw [appendClients, appendAll, hinsert, Checked.ok_bind]
    simp only [pure_bind, appendClients_ended h hlive clients, Checked.ok_bind]
    rfl

/-- Any number of clients append to a chain until each of them is refused. After
a run of whatever requests they take all the slots that are left; after one in
which the chain was cleaned up they change nothing. -/
theorem refusals_of_run (supply : Supply) {config : Pool.Config} (hpos : 1 ≤ config.capacity)
    (hmax : config.capacity ≤ NodeTable.maxCapacity) :
    ∃ start, (initialise supply config).answer = .ok start ∧
      ∀ past c, start.Run past c → made past < UInt32.size → ∀ clients,
        (ended past = true →
          c.appendClients clients = .ok (List.replicate clients (some afterEnd), c)) ∧
        (ended past = false → ∃ before refusals c', c.values = .ok before ∧
          c.appendClients (clients + 1) = .ok (refusals, c') ∧
          refusals.length = clients + 1 ∧ (∀ r ∈ refusals, IsFull r) ∧
          c'.values = .ok (before ++
            List.replicate (config.capacity / Node.size - before.length) 0)) := by
  refine ⟨_, initialise_eq supply hpos hmax, ?_⟩
  intro past c h hmade clients
  obtain ⟨s, -, hledger⟩ := h.ledger (ledger_empty supply.next hmax) hmade
  have hholds := hledger.holds
  refine ⟨fun hended => ?_, fun hended => ?_⟩
  · exact appendClients_ended hholds (by rw [hledger.live, hended]; rfl) clients
  · obtain ⟨refusals, c', new, happend, hlength, hrefused, hholds', hnew⟩ :=
      appendClients_holds (clients + 1) hholds
    have hslots : c.table.slots = config.capacity / Node.size :=
      congrArg (· / Node.size) hledger.capacity
    refine ⟨_, refusals, c', values_eq hholds, happend, hlength, hrefused, ?_⟩
    rw [values_eq hholds', List.map_append, hnew, if_neg (Nat.succ_ne_zero clients), spare,
      hledger.live, hended, hslots, List.length_map]
    rfl

end Chain

/-! ### Operations of several clients -/

namespace Tally

variable {ε : Type}

/-- What operations and the answers to them make a tally of. -/
def of : List Op → List (Except ε Unit) → Tally
  | op :: ops, answer :: answers => (record {} op answer).merge (of ops answers)
  | _, _ => {}

theorem counts_of : ∀ {ops : List Op} {answers : List (Except ε Unit)},
    answers.length = ops.length → (of ops answers).Counts ops
  | [], [], _ => .empty
  | op :: ops, answer :: answers, h => by
    rw [of, merge_comm, ← record_eq_merge]
    exact (counts_of (Nat.succ.inj h)).record op answer

end Tally

namespace Chain

variable {c : Chain} {s : Sequence} {ops : List Op}

theorem applyAll_cons {op : Op} {reply : Reply Error Chain Event Unit}
    {answers : List (Except Error Unit)} {c' : Chain} {log : List Event}
    (hop : op.apply c = .ok reply) (hrest : reply.state.applyAll ops = .ok (answers, c', log)) :
    c.applyAll (op :: ops) = .ok (reply.answer :: answers, c', reply.log ++ log) := by
  rw [applyAll, hop, Checked.ok_bind, hrest]
  rfl

/-- Every operation is answered, and the answers account for the nodes. -/
theorem applyAll_holds : ∀ (ops : List Op) {c : Chain} {s : Sequence}, c.Holds s →
    ∃ answers c' log s', c.applyAll ops = .ok (answers, c', log) ∧
      answers.length = ops.length ∧ c'.Holds s' ∧
      s'.length + (Tally.of ops answers).deleted = s.length + (Tally.of ops answers).inserted
  | [], c, s, h => ⟨[], c, [], s, rfl, rfl, h, rfl⟩
  | op :: ops, c, s, h => by
    obtain ⟨reply, s₁, hop, heffect⟩ := op.effect h
    obtain ⟨answers, c', log, s', hrest, hlength, hholds, hbalance⟩ :=
      applyAll_holds ops heffect.holds
    refine ⟨_, c', _, s', applyAll_cons hop hrest, congrArg (· + 1) hlength, hholds, ?_⟩
    have hfirst := heffect.balance
    simp only [Tally.of, Tally.merge]
    omega

theorem applyAll_append {ops' : List Op} {answers answers' : List (Except Error Unit)}
    {c₁ c' : Chain} {log log' : List Event} (hfirst : c.applyAll ops = .ok (answers, c₁, log))
    (hrest : c₁.applyAll ops' = .ok (answers', c', log')) :
    c.applyAll (ops ++ ops') = .ok (answers ++ answers', c', log ++ log') := by
  induction ops generalizing c answers log with
  | nil =>
    cases hfirst
    exact hrest
  | cons op ops ih =>
    obtain ⟨reply, hop, h⟩ := Checked.bind_eq_ok.1 hfirst
    obtain ⟨⟨answers₂, c₂, log₂⟩, happly, h⟩ := Checked.bind_eq_ok.1 h
    cases h
    rw [List.append_assoc]
    exact applyAll_cons hop (ih happly)

/-- The answers to clients, each to its own operations, are those to one run of
all the operations. -/
theorem serveClients_eq : ∀ (clients : List (List Op)) {c : Chain} {s : Sequence}, c.Holds s →
    ∃ answers c' log, c.serveClients clients = .ok (answers, c') ∧
      answers.map List.length = clients.map List.length ∧
      c.applyAll clients.flatten = .ok (answers.flatten, c', log)
  | [], c, s, h => ⟨[], c, [], rfl, rfl, rfl⟩
  | ops :: rest, c, s, h => by
    obtain ⟨answers, c₁, log₁, s₁, hfirst, hlength, hholds, -⟩ := applyAll_holds ops h
    obtain ⟨others, c', log, hrest, hlengths, hall⟩ := serveClients_eq rest hholds
    refine ⟨answers :: others, c', log₁ ++ log, ?_, congrArg₂ List.cons hlength hlengths,
      applyAll_append hfirst hall⟩
    rw [serveClients, hfirst, Checked.ok_bind]
    simp only [hrest, Checked.ok_bind]
    rfl

/-- After a run of whatever requests clients come with operations of their own.
All are answered, as in one run of all the operations, and what the answers
count is what became of the values that were there. -/
theorem balance_of_serveClients (supply : Supply) {config : Pool.Config}
    (hpos : 1 ≤ config.capacity) (hmax : config.capacity ≤ NodeTable.maxCapacity) :
    ∃ start, (initialise supply config).answer = .ok start ∧
      ∀ past c, start.Run past c → made past < UInt32.size → ∀ clients,
        ∃ answers c' log before after, c.serveClients clients = .ok (answers, c') ∧
          answers.map List.length = clients.map List.length ∧
          c.applyAll clients.flatten = .ok (answers.flatten, c', log) ∧
          c.values = .ok before ∧ c'.values = .ok after ∧
          (Tally.of clients.flatten answers.flatten).Counts clients.flatten ∧
          (Tally.of clients.flatten answers.flatten).balances before.length after.length := by
  refine ⟨_, initialise_eq supply hpos hmax, ?_⟩
  intro past c h hmade clients
  obtain ⟨s, -, hledger⟩ := h.ledger (ledger_empty supply.next hmax) hmade
  obtain ⟨answers, c', log, hserve, hlengths, happly⟩ := serveClients_eq clients hledger.holds
  obtain ⟨_, _, _, s', happly', hlength, hholds, hbalance⟩ :=
    applyAll_holds clients.flatten hledger.holds
  cases happly.symm.trans happly'
  refine ⟨answers, c', log, _, _, hserve, hlengths, happly, values_eq hledger.holds,
    values_eq hholds, Tally.counts_of hlength, ?_⟩
  simpa only [Tally.balances, List.length_map, beq_iff_eq] using hbalance

end Chain
end FirstFit
