/-
# A chain does not depend on zeroing

Two chains are asked the same, one over a pool that zeroes the blocks it hands
out and one over a pool that leaves them as they are. A node is written in full
before anybody reads it, so no answer and no byte ever tells the chains apart:
they differ in the identity of their arenas alone.

Key definitions: `Chain.Matched`, `Chain.Lockstep`, `Chain.Twins`.
Key theorems: `Lockstep.mirrors`, `Lockstep.twins`, `Run.lockstep`,
`twins_of_lockstep`.
-/
import Mathlib.Logic.Equiv.Basic
import FirstFit.Proofs.Chain.Mirrored
import FirstFit.Proofs.Chain.Refusal

namespace FirstFit

/-- The guise in which one of two arenas has the name of the other. -/
def Guise.swap (own₁ own₂ : ArenaId) (zeroing : Bool) : Guise where
  name := Equiv.swap own₁ own₂
  injective := (Equiv.swap own₁ own₂).injective
  zeroing := zeroing

namespace Chain

variable {g : Guise} {past past₁ past₂ : List Exchange} {start₁ start₂ c₁ c₂ : Chain} {r : Request}
  {f f' : NodeRef → NodeRef} {n n₁ n₂ : NodeRef} {own₁ own₂ : ArenaId}

/-! ### References that stand for one another -/

/-- Two references stand for one another: the same step of each run named them
in its answer, or they are one reference to a node of neither chain. -/
inductive Matched (own₁ own₂ : ArenaId) (past₁ past₂ : List Exchange) : NodeRef → NodeRef → Prop
  | named {i : Nat} {x₁ x₂ : Exchange} {n₁ n₂ : NodeRef} (h₁ : past₁[i]? = some x₁)
      (h₂ : past₂[i]? = some x₂) (hn₁ : n₁ ∈ answered x₁.answer) (hn₂ : n₂ ∈ answered x₂.answer) :
      Matched own₁ own₂ past₁ past₂ n₁ n₂
  | elsewhere {n : NodeRef} (h₁ : n.arena ≠ own₁) (h₂ : n.arena ≠ own₂) :
      Matched own₁ own₂ past₁ past₂ n n

/-- Two runs in which the requests are the same, but that each reference in the
second stands for the one in the first. -/
inductive Lockstep (start₁ start₂ : Chain) :
    List Exchange → Chain → List Exchange → Chain → Prop
  | nil : Lockstep start₁ start₂ [] start₁ [] start₂
  | snoc {past₁ past₂ : List Exchange} {c₁ c₂ : Chain} {r : Request} {f : NodeRef → NodeRef}
      {reply₁ reply₂ : Reply Error Chain Event Answer}
      (h : Lockstep start₁ start₂ past₁ c₁ past₂ c₂)
      (hmatch : ∀ n ∈ r.nodes,
        Matched c₁.table.arena.id c₂.table.arena.id past₁ past₂ n (f n))
      (hserve₁ : c₁.serve r = .ok reply₁) (hserve₂ : c₂.serve (r.rename f) = .ok reply₂) :
      Lockstep start₁ start₂ (past₁ ++ [⟨r, reply₁.answer, reply₁.log⟩]) reply₁.state
        (past₂ ++ [⟨r.rename f, reply₂.answer, reply₂.log⟩]) reply₂.state

theorem Request.rename_congr (h : ∀ n ∈ r.nodes, f n = f' n) : r.rename f = r.rename f' := by
  have hanchor : ∀ {anchor : Option NodeRef}, (∀ n ∈ anchor.toList, f n = f' n) →
      anchor.map f = anchor.map f' := by
    intro anchor hn
    cases anchor with
    | none => rfl
    | some n => exact congrArg some (hn n (List.mem_singleton_self n))
  cases r with
  | insertAfter anchor v => exact congrArg (Request.insertAfter · v) (hanchor h)
  | insertBefore anchor v => exact congrArg (Request.insertBefore · v) (hanchor h)
  | get n => exact congrArg Request.get (h n (List.mem_singleton_self n))
  | segment first last =>
    exact congrArg₂ Request.segment (hanchor fun n hn => h n (List.mem_append_left _ hn))
      (hanchor fun n hn => h n (List.mem_append_right _ hn))
  | _ => rfl

theorem answered_rename (f : NodeRef → NodeRef) (a : Except Error Answer) :
    answered (a.map (Answer.rename f)) = (answered a).map f := by
  cases a with
  | error e => rfl
  | ok a =>
    cases a with
    | head n => cases n <;> rfl
    | _ => rfl

/-- An answer names one reference at most. -/
theorem answered_eq {a : Except Error Answer} (h : n ∈ answered a) : answered a = [n] := by
  cases a with
  | error e => exact nomatch h
  | ok a =>
    cases a with
    | node m => exact congrArg List.singleton (List.mem_singleton.1 h).symm
    | head m =>
      cases m with
      | none => exact nomatch h
      | some m => exact congrArg List.singleton (List.mem_singleton.1 h).symm
    | _ => exact nomatch h

theorem Matched.eq (hother : ∀ a, a ≠ own₁ → a ≠ own₂ → g.name a = a)
    (h : Matched own₁ own₂ past (past.map g.exchange) n₁ n₂) : n₂ = g.node n₁ := by
  cases h with
  | @named i x₁ x₂ _ _ h₁ h₂ hn₁ hn₂ =>
    rw [List.getElem?_map, h₁] at h₂
    obtain rfl := Option.some.inj h₂
    have hanswered : answered (g.exchange x₁).answer = [g.node n₁] :=
      (answered_rename g.node x₁.answer).trans (congrArg (List.map g.node) (answered_eq hn₁))
    rw [hanswered] at hn₂
    exact List.mem_singleton.1 hn₂
  | elsewhere h₁ h₂ =>
    unfold Guise.node
    rw [hother _ h₁ h₂]

/-- What the second of two runs is, if it begins with the first chain in another guise. -/
theorem Lockstep.mirrors (hover : start₁.table.Over own₁) (hown : g.name own₁ = own₂)
    (hother : ∀ a, a ≠ own₁ → a ≠ own₂ → g.name a = a)
    (h : Lockstep start₁ (g.chain start₁) past₁ c₁ past₂ c₂) :
    past₂ = past₁.map g.exchange ∧ c₂ = g.chain c₁ ∧ c₁.table.Over own₁ := by
  induction h with
  | nil => exact ⟨rfl, rfl, hover⟩
  | @snoc past₁ past₂ c₁ c₂ r f reply₁ reply₂ h hmatch hserve₁ hserve₂ ih =>
    obtain ⟨rfl, rfl, hover₁⟩ := ih
    -- the second answers so far are the first in the guise, so a matched reference can only be
    -- the same one under the other name
    have hsecond : (g.chain c₁).table.arena.id = own₂ :=
      (congrArg g.name hover₁.arena).trans hown
    rw [hover₁.arena, hsecond] at hmatch
    have hrename : r.rename f = g.request r :=
      Request.rename_congr fun n hn => (hmatch n hn).eq hother
    have hserved := serve_mirrors (g := g) hover₁ r
    have hreply : reply₂ = g.reply (Answer.rename g.node) reply₁ := by
      have heq := hserved.eq
      rw [← hrename, hserve₂, hserve₁] at heq
      exact Except.ok.inj heq
    subst hreply
    refine ⟨?_, rfl, hserved.post _ hserve₁⟩
    rw [List.map_append, hrename]
    rfl

/-- A reference to a node of the first chain that stands for another was named by an answer. -/
theorem Matched.mem_issued (h : Matched own₁ own₂ past₁ past₂ n₁ n₂) (ha : n₁.arena = own₁) :
    n₁ ∈ issued past₁ := by
  cases h with
  | named h₁ _ hn₁ _ => exact List.mem_flatMap.2 ⟨_, List.mem_of_getElem? h₁, hn₁⟩
  | elsewhere h₁ _ => exact absurd ha h₁

theorem Lockstep.run (h : Lockstep start₁ start₂ past₁ c₁ past₂ c₂) : start₁.Run past₁ c₁ := by
  induction h with
  | nil => exact .nil
  | snoc h hmatch hserve₁ _ ih => exact ih.snoc (fun n hn ha => (hmatch n hn).mem_issued ha) hserve₁

/-- The reference with two arenas exchanged. -/
def exchanged (own₁ own₂ : ArenaId) (n : NodeRef) : NodeRef :=
  { n with arena := Equiv.swap own₁ own₂ n.arena }

/-- What the chains are asked cannot tell them apart, and no byte can. -/
structure Twins (own₁ own₂ : ArenaId) (past₁ : List Exchange) (c₁ : Chain)
    (past₂ : List Exchange) (c₂ : Chain) : Prop where
  answers : past₂.map Exchange.answer =
    past₁.map fun x => x.answer.map (Answer.rename (exchanged own₁ own₂))
  values : c₂.values = c₁.values
  blocks : c₂.blocks = c₁.blocks
  stats : c₂.stats = c₁.stats
  bytes : c₂.table.arena.bytes = c₁.table.arena.bytes
  first : c₁.table.arena.id = own₁
  second : c₂.table.arena.id = own₂
  /-- The next request is answered alike, too, or faults in both. -/
  next : ∀ (r : Request) (f : NodeRef → NodeRef),
    (∀ n ∈ r.nodes, Matched own₁ own₂ past₁ past₂ n (f n)) →
    (c₂.serve (r.rename f)).map Reply.answer =
      (c₁.serve r).map fun reply => reply.answer.map (Answer.rename (exchanged own₁ own₂))
  /-- While every request so far returned, the next one has an answer. -/
  served : (∀ x ∈ past₁, x.selfAnchored = false) → ∀ r : Request,
    (∀ n ∈ r.nodes, n.arena = own₁ → n ∈ issued past₁) → ∃ reply, c₁.serve r = .ok reply

variable {zeroing₁ zeroing₂ : Bool} {capacity : Nat}

theorem chain_swap (own₁ own₂ : ArenaId) (capacity : Nat) (zeroing₁ zeroing₂ : Bool) :
    (Guise.swap own₁ own₂ zeroing₂).chain (empty own₁ ⟨capacity, zeroing₁⟩) =
      empty own₂ ⟨capacity, zeroing₂⟩ := by
  have hname : (Guise.swap own₁ own₂ zeroing₂).name own₁ = own₂ := Equiv.swap_apply_left own₁ own₂
  unfold Guise.chain Guise.table Guise.space Guise.arena empty
  rw [hname]
  rfl

theorem Lockstep.twins (hmax : capacity ≤ NodeTable.maxCapacity)
    (h : Lockstep (empty own₁ ⟨capacity, zeroing₁⟩) (empty own₂ ⟨capacity, zeroing₂⟩)
      past₁ c₁ past₂ c₂) :
    Twins own₁ own₂ past₁ c₁ past₂ c₂ := by
  have hempty : Ledger own₁ capacity [] (empty own₁ ⟨capacity, zeroing₁⟩) [] :=
    @ledger_empty ⟨capacity, zeroing₁⟩ own₁ hmax
  have hover : (empty own₁ ⟨capacity, zeroing₁⟩).table.Over own₁ :=
    ⟨hempty.holds.stored.tidy.sound, rfl⟩
  rw [← chain_swap own₁ own₂ capacity zeroing₁ zeroing₂] at h
  have hrun := h.run
  have hown : (Guise.swap own₁ own₂ zeroing₂).name own₁ = own₂ := Equiv.swap_apply_left own₁ own₂
  have hother : ∀ a, a ≠ own₁ → a ≠ own₂ → (Guise.swap own₁ own₂ zeroing₂).name a = a :=
    fun a => Equiv.swap_apply_of_ne_of_ne
  obtain ⟨rfl, rfl, hover₁⟩ := h.mirrors hover hown hother
  refine ⟨?_, values_guise c₁, blocks_guise c₁, stats_guise c₁, rfl, hover₁.arena, ?_, ?_, ?_⟩
  · rw [List.map_map]
    rfl
  · exact (congrArg (Guise.swap own₁ own₂ zeroing₂).name hover₁.arena).trans hown
  · intro r f hmatch
    have hrename : r.rename f = (Guise.swap own₁ own₂ zeroing₂).request r :=
      Request.rename_congr fun n hn => (hmatch n hn).eq hother
    have hserved := serve_mirrors (g := Guise.swap own₁ own₂ zeroing₂) hover₁ r
    rw [hrename, hserved.eq]
    cases c₁.serve r <;> rfl
  · intro hreturn r hknown
    obtain ⟨s, hsteady⟩ := hrun.steady ⟨hempty.holds, rfl, fun n hn => nomatch hn⟩ hreturn
    obtain ⟨reply, hserve, -⟩ := hsteady.serve hknown
    exact ⟨reply, hserve⟩

/-- What an answer of the first run named stands for what the answer of the
same step named in the second. -/
theorem Twins.matched (h : Twins own₁ own₂ past₁ c₁ past₂ c₂) (hn : n ∈ issued past₁) :
    Matched own₁ own₂ past₁ past₂ n (exchanged own₁ own₂ n) := by
  obtain ⟨x₁, hx₁, hn₁⟩ := List.mem_flatMap.1 hn
  obtain ⟨i, hi⟩ := List.mem_iff_getElem?.1 hx₁
  have hanswer := congrArg (·[i]?) h.answers
  simp only [List.getElem?_map, hi, Option.map_some] at hanswer
  obtain ⟨x₂, hx₂, ha⟩ := Option.map_eq_some_iff.1 hanswer
  refine .named hi hx₂ hn₁ ?_
  rw [ha, answered_rename]
  exact List.mem_map.2 ⟨n, hn₁, rfl⟩

/-- A run of one chain has its counterpart with the other, if no reference in it
is to a node of the other. -/
theorem Run.lockstep (hmax : capacity ≤ NodeTable.maxCapacity)
    (h : (empty own₁ ⟨capacity, zeroing₁⟩).Run past₁ c₁)
    (hother : ∀ x ∈ past₁, ∀ n ∈ x.request.nodes, n.arena ≠ own₁ → n.arena ≠ own₂) :
    ∃ past₂ c₂, Lockstep (empty own₁ ⟨capacity, zeroing₁⟩) (empty own₂ ⟨capacity, zeroing₂⟩)
      past₁ c₁ past₂ c₂ := by
  induction h with
  | nil => exact ⟨[], _, .nil⟩
  | @snoc past₁ c₁ r reply h hknown hserve ih =>
    -- each step asks the second chain for the names that its own answers had
    obtain ⟨past₂, c₂, hlock⟩ := ih fun x hx => hother x (List.mem_append_left _ hx)
    have htwins := hlock.twins hmax
    have hmatch : ∀ n ∈ r.nodes, Matched own₁ own₂ past₁ past₂ n (exchanged own₁ own₂ n) := by
      intro n hn
      by_cases ha : n.arena = own₁
      · exact htwins.matched (hknown n hn (ha.trans htwins.first.symm))
      · have ha₂ : n.arena ≠ own₂ :=
          hother _ (List.mem_append_right _ (List.mem_singleton_self _)) n hn ha
        have hsame : exchanged own₁ own₂ n = n := by
          unfold exchanged
          rw [Equiv.swap_apply_of_ne_of_ne ha ha₂]
        rw [hsame]
        exact .elsewhere ha ha₂
    have hnext := htwins.next r (exchanged own₁ own₂) hmatch
    rw [hserve] at hnext
    cases hserve₂ : c₂.serve (r.rename (exchanged own₁ own₂)) with
    | error e =>
      rw [hserve₂] at hnext
      exact nomatch hnext
    | ok reply₂ =>
      refine ⟨_, _, hlock.snoc (f := exchanged own₁ own₂) ?_ hserve hserve₂⟩
      rw [htwins.first, htwins.second]
      exact hmatch

/-- It makes no difference whether the pool of a chain zeroes blocks. Two chains
that are asked the same give the same answers, and after every step their
values, their blocks, the figures of their pools and all their bytes are the
same, also once they were cleaned up. -/
theorem twins_of_lockstep (supply₁ supply₂ : Supply) (capacity : Nat) (zeroing₁ zeroing₂ : Bool) :
    (∃ e, (initialise supply₁ ⟨capacity, zeroing₁⟩).answer = .error e ∧
      (initialise supply₂ ⟨capacity, zeroing₂⟩).answer = .error e) ∨
    ∃ start₁ start₂, (initialise supply₁ ⟨capacity, zeroing₁⟩).answer = .ok start₁ ∧
      (initialise supply₂ ⟨capacity, zeroing₂⟩).answer = .ok start₂ ∧
      (∀ past₁ c₁, start₁.Run past₁ c₁ →
        (∀ x ∈ past₁, ∀ n ∈ x.request.nodes,
          n.arena ≠ supply₁.next → n.arena ≠ supply₂.next) →
        ∃ past₂ c₂, Lockstep start₁ start₂ past₁ c₁ past₂ c₂) ∧
      ∀ past₁ c₁ past₂ c₂, Lockstep start₁ start₂ past₁ c₁ past₂ c₂ →
        Twins supply₁.next supply₂.next past₁ c₁ past₂ c₂ := by
  by_cases hcapacity : 1 ≤ capacity ∧ capacity ≤ NodeTable.maxCapacity
  · obtain ⟨hpos, hmax⟩ := hcapacity
    refine .inr ⟨_, _, initialise_eq supply₁ hpos hmax, initialise_eq supply₂ hpos hmax, ?_, ?_⟩
    · exact fun past₁ c₁ h hother => h.lockstep hmax hother
    · exact fun past₁ c₁ past₂ c₂ h => h.twins hmax
  · have hrefused₁ := @initialise_refused ⟨capacity, zeroing₁⟩ hcapacity supply₁ true
    have hrefused₂ := @initialise_refused ⟨capacity, zeroing₂⟩ hcapacity supply₂ true
    exact .inl ⟨_, hrefused₁.1, hrefused₂.1⟩

/-- The only slot is used again, and neither chain takes the node in it for the
one that was there before. -/
theorem twins_of_lockstep_reused :
    let rs : List Request := [.insert 7, .delete 7, .insert 8, .get ⟨⟨1⟩, 0, 1⟩]
    ∃ start₁ start₂ past₁ c₁ past₂ c₂,
      (initialise {} ⟨16, true⟩).answer = .ok start₁ ∧
      (initialise ⟨⟨2⟩⟩ ⟨16, false⟩).answer = .ok start₂ ∧
      start₁.replay [] rs = some (past₁, c₁) ∧ Lockstep start₁ start₂ past₁ c₁ past₂ c₂ ∧
      past₂.map Exchange.answer = [.ok (.node ⟨⟨2⟩, 0, 1⟩), .ok .done, .ok (.node ⟨⟨2⟩, 0, 2⟩),
        .error .nullReference] ∧
      c₂.table.arena.bytes = c₁.table.arena.bytes := by
  intro rs
  rcases twins_of_lockstep {} ⟨⟨2⟩⟩ 16 true false with
    ⟨e, he, -⟩ | ⟨start₁, start₂, h₁, h₂, hcounterpart, htwins⟩
  · exact nomatch he
  · obtain rfl : empty ⟨1⟩ ⟨16, true⟩ = start₁ := Except.ok.inj h₁
    have hany : ((empty ⟨1⟩ ⟨16, true⟩).replay [] rs).any (fun last =>
        decide (last.1.map Exchange.answer = [.ok (.node ⟨⟨1⟩, 0, 1⟩), .ok .done,
            .ok (.node ⟨⟨1⟩, 0, 2⟩), .error .nullReference] ∧
          ∀ x ∈ last.1, ∀ n ∈ x.request.nodes, n.arena ≠ ⟨2⟩)) = true := by decide
    obtain ⟨⟨past₁, c₁⟩, hreplay, hlast⟩ := (Option.any_eq_true _ _).1 hany
    obtain ⟨hanswers, hother⟩ := of_decide_eq_true hlast
    obtain ⟨past₂, c₂, hlock⟩ := hcounterpart past₁ c₁ (Run.nil.replay hreplay)
      fun x hx n hn _ => hother x hx n hn
    have htwin := htwins past₁ c₁ past₂ c₂ hlock
    refine ⟨_, start₂, past₁, c₁, past₂, c₂, h₁, h₂, hreplay, hlock, ?_, htwin.bytes⟩
    have hrenamed := congrArg
      (List.map fun a : Except Error Answer => a.map (Answer.rename (exchanged ⟨1⟩ ⟨2⟩))) hanswers
    rw [List.map_map] at hrenamed
    exact htwin.answers.trans (hrenamed.trans (by decide))

end Chain
end FirstFit
