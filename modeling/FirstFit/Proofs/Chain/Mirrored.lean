/-
# Requests in another guise

Two chains of which one is the other in another guise stay so: every request,
with its references renamed, has the same answer, the same log and the same
effect, step by step, and if one faults the other one does.

Key definitions: `Request.rename`, `Answer.rename`, `Guise.chain`,
`Guise.Replies`.
Key theorems: `segment_guise`, `insertAfter_mirrors`, `insertBefore_mirrors`,
`delete_mirrors`, `cleanUp_mirrors`, `serve_mirrors`.
-/
import FirstFit.Proofs.Chain.Guise
import FirstFit.Proofs.Chain.Run

namespace FirstFit

open Checked (Mirrors)

namespace Chain

/-- The request with its references replaced. -/
def Request.rename (f : NodeRef → NodeRef) : Request → Request
  | .insertAfter anchor data => .insertAfter (anchor.map f) data
  | .insertBefore anchor data => .insertBefore (anchor.map f) data
  | .get node => .get (f node)
  | .segment first last => .segment (first.map f) (last.map f)
  | r => r

/-- The answer with its references replaced. -/
def Answer.rename (f : NodeRef → NodeRef) : Answer → Answer
  | .node n => .node (f n)
  | .head n => .head (n.map f)
  | a => a

end Chain

namespace Guise

open Chain (Error Event Answer Request Exchange)

variable (g : Guise)

def chain (c : Chain) : Chain := ⟨g.table c.table, g.link c.head⟩

def range (r : Range) : Range := ⟨g.link r.next, g.link r.last⟩

def request (r : Request) : Request := r.rename g.node

def answer (a : Except Error Answer) : Except Error Answer := a.map (Answer.rename g.node)

def exchange (x : Exchange) : Exchange :=
  ⟨g.request x.request, g.answer x.answer, x.log.map g.event⟩

/-- The reply of a chain, if its answer becomes another by `f`. -/
def reply {α β : Type} (f : α → β) : Reply Error Chain Event α → Reply Error Chain Event β :=
  Reply.through g.chain g.event f

/-- The second chain replies as the first one does in the other guise, and the
table of the first is over the same arena as before. -/
abbrev Replies (g : Guise) (home : ArenaId) {α β : Type} (f : α → β)
    (x : Checked (Reply Error Chain Event α)) (y : Checked (Reply Error Chain Event β)) : Prop :=
  Mirrors (g.reply f) (fun r => r.state.table.Over home) x y

variable {g} {α β : Type}

theorem reply_append (f : α → β) (a : Except Error α) (c : Chain) (log log' : List Event) :
    ⟨a.map f, g.chain c, log.map g.event ++ log'.map g.event⟩ = g.reply f ⟨a, c, log ++ log'⟩ := by
  simp [reply, Reply.through]

end Guise

namespace Chain

variable {g : Guise} {c : Chain} {home : ArenaId} {v : UInt16} {node : NodeRef}

/-! ### Requests that read -/

theorem get_mirrors (h : c.table.Over home) (node : NodeRef) :
    g.Replies home id (c.get node) ((g.chain c).get (g.node node)) := by
  refine (Mirrors.of_eq (NodeTable.checkLive_guise c.table node)).bind ?_
  rintro ⟨standing, log⟩ -
  cases standing with
  | error e => exact .ok rfl h
  | ok u => exact (Mirrors.same (c.table.data node)).bind fun data _ => .ok rfl h

theorem search_mirrors (h : c.table.Over home) (v : UInt16) :
    g.Replies home g.node (c.search v) ((g.chain c).search v) := by
  obtain ⟨table, head⟩ := c
  cases head with
  | none => exact .ok rfl h
  | some first =>
    refine (Mirrors.of_eq (NodeTable.findValue_guise table v first)).bind ?_
    intro stop _
    cases stop with
    | none => exact .ok rfl h
    | some stop => exact .ok rfl h

theorem pull_guise (t : NodeTable) (r : Range) :
    (g.range r).pull (g.table t) = (r.pull t).map fun p => (p.1, g.range p.2) := by
  obtain ⟨next, last⟩ := r
  cases next with
  | none => rfl
  | some node =>
    have hiff : g.link last = some (g.node node) ↔ last = some node :=
      (Option.map_injective Guise.node_injective).eq_iff (b := some node)
    unfold Range.pull
    show ((g.table t).record (g.node node) >>= _) = Except.map _ (t.record node >>= _)
    rw [NodeTable.record_guise]
    rcases t.record node with e | ⟨data, next⟩
    · rfl
    · simp only [Except.map, Checked.ok_bind, Guise.range, hiff]
      by_cases hlast : last = some node
      · rw [if_pos hlast, if_pos hlast]
        rfl
      · rw [if_neg hlast, if_neg hlast]
        cases next with
        | none => rfl
        | some m =>
          show ((some m).mapM t.slotOf >>= _) = Except.map _ ((some m).mapM t.slotOf >>= _)
          cases (some m).mapM t.slotOf <;> rfl

theorem drain_guise (t : NodeTable) : ∀ (steps : Nat) (r : Range),
    (g.range r).drain (g.table t) steps = r.drain t steps
  | 0, ⟨next, _⟩ => by cases next <;> rfl
  | steps + 1, r => by
    unfold Range.drain
    rw [pull_guise]
    rcases r.pull t with e | ⟨value, rest⟩
    · rfl
    · cases value with
      | none => rfl
      | some v =>
        simp only [Except.map, Checked.ok_bind]
        rw [drain_guise t steps rest]

theorem range_guise (c : Chain) (first last : Option NodeRef) :
    (g.chain c).range (g.link first) (g.link last) =
      (c.range first last).map fun p => (g.range p.1, p.2.map g.event) := by
  obtain ⟨table, head⟩ := c
  cases first with
  | none =>
    have hlocked : (g.link head).mapM (g.table table).slotOf = head.mapM table.slotOf := by
      cases head <;> rfl
    show ((g.link head).mapM (g.table table).slotOf >>= _) = Except.map _ (head.mapM _ >>= _)
    rw [hlocked]
    cases head.mapM table.slotOf <;> rfl
  | some node =>
    show ((g.table table).checkLive (g.node node) >>= _) = Except.map _ (table.checkLive node >>= _)
    rw [NodeTable.checkLive_guise]
    rcases table.checkLive node with e | ⟨standing, log⟩
    · rfl
    · cases standing <;> rfl

theorem segment_guise (c : Chain) (first last : Option NodeRef) :
    (g.chain c).segment (g.link first) (g.link last) =
      (c.segment first last).map fun p => (p.1, p.2.map g.event) := by
  unfold segment
  rw [range_guise]
  rcases c.range first last with e | ⟨r, log⟩
  · rfl
  · show ((g.range r).drain (g.table c.table) c.table.slots >>= _) =
      Except.map _ (r.drain c.table c.table.slots >>= _)
    rw [drain_guise]
    cases r.drain c.table c.table.slots <;> rfl

theorem values_guise (c : Chain) : (g.chain c).values = c.values := by
  have hsegment : (g.chain c).segment none none = _ := segment_guise (g := g) c none none
  unfold values
  rw [hsegment]
  rcases c.segment none none with e | ⟨values, log⟩ <;> rfl

theorem count_guise (c : Chain) : (g.chain c).count = c.count := by
  unfold count
  rw [values_guise]

theorem stats_guise (c : Chain) : (g.chain c).stats = c.stats := by
  unfold stats
  show ((g.table c.table).pool.stats >>= _) = (c.table.pool.stats >>= _)
  rw [NodeTable.pool_guise]
  obtain ⟨space?⟩ := c.table.pool
  cases space? <;> rfl

theorem blocks_guise (c : Chain) : (g.chain c).blocks = c.blocks := by
  show (g.table c.table).pool.blocks = c.table.pool.blocks
  rw [NodeTable.pool_guise]
  obtain ⟨space?⟩ := c.table.pool
  cases space? <;> rfl

/-! ### Requests that change the chain -/

theorem insert_mirrors (h : c.table.Over home) (v : UInt16) :
    g.Replies home g.node (c.insert v) ((g.chain c).insert v) := by
  rw [insert_eq, insert_eq]
  refine (NodeTable.create_mirrors h v none).bind ?_
  rintro ⟨answer, t, log⟩ ht
  cases answer with
  | error e => exact .ok rfl ht
  | ok node =>
    have hreply := fun c => Guise.reply_append (g := g) g.node (.ok node) c log [.appended v node]
    show Mirrors _ _ (c.linkLast t node v log)
      ((g.chain c).linkLast (g.table t) (g.node node) v (log.map g.event))
    unfold linkLast
    obtain ⟨table, head⟩ := c
    cases head with
    | none => exact .ok (hreply ⟨t, some node⟩) ht
    | some first =>
      refine (Mirrors.of_eq (NodeTable.lastFrom_guise t t.slots first)).bind fun last _ => ?_
      refine (NodeTable.setNext_mirrors ht last (some node)).bind fun t' ht' => ?_
      exact .ok (hreply ⟨t', some first⟩) ht'

theorem discard_mirrors (c : Chain) {t : NodeTable} (ht : t.Over home) (node : NodeRef)
    (before after : List Event) (e : Error) :
    g.Replies home g.node (c.discard t node before after e)
      ((g.chain c).discard (g.table t) (g.node node) (before.map g.event) (after.map g.event)
        e) := by
  refine (NodeTable.release_mirrors ht node).bind ?_
  rintro ⟨t', log⟩ ht'
  refine .ok ?_ ht'
  simp [Guise.reply, Reply.through, Guise.chain, Except.map]

theorem insertAfter_mirrors (h : c.table.Over home) (anchor : Option NodeRef) (v : UInt16) :
    g.Replies home g.node (c.insertAfter anchor v) ((g.chain c).insertAfter (g.link anchor) v) := by
  cases anchor with
  | none => exact .ok rfl h
  | some anchor =>
    refine (NodeTable.create_mirrors h v none).bind ?_
    rintro ⟨answer, t, log⟩ ht
    cases answer with
    | error e => exact .ok rfl ht
    | ok node =>
      refine (Mirrors.of_eq (NodeTable.checkLive_guise t anchor)).bind ?_
      rintro ⟨standing, log'⟩ -
      cases standing with
      | error e =>
        have hdiscard := discard_mirrors (g := g) c ht node (log ++ log') [] e
        rw [List.map_append] at hdiscard
        exact hdiscard
      | ok u =>
        refine (Mirrors.of_eq (NodeTable.next_guise t anchor)).bind fun next _ => ?_
        refine (NodeTable.setNext_mirrors ht node next).bind fun t₁ ht₁ => ?_
        refine (NodeTable.setNext_mirrors ht₁ anchor (some node)).bind fun t₂ ht₂ => ?_
        have hreply := Guise.reply_append (g := g) g.node (.ok node) ⟨t₂, c.head⟩ log
          [.insertedAfter v anchor node]
        exact .ok hreply ht₂

theorem insertBefore_mirrors (h : c.table.Over home) (anchor : Option NodeRef) (v : UInt16) :
    g.Replies home g.node (c.insertBefore anchor v)
      ((g.chain c).insertBefore (g.link anchor) v) := by
  cases anchor with
  | none => exact .ok rfl h
  | some anchor =>
    show Mirrors _ _ (c.insertBefore (some anchor) v)
      ((g.chain c).insertBefore (some (g.node anchor)) v)
    rw [insertBefore_eq, insertBefore_eq]
    refine (NodeTable.create_mirrors h v (some anchor)).bind ?_
    rintro ⟨answer, t, log⟩ ht
    cases answer with
    | error e => exact .ok rfl ht
    | ok node =>
      have hdiscard := fun e' e => discard_mirrors (g := g) c ht node log [e'] e
      show Mirrors _ _ (c.linkBefore t anchor node v log)
        ((g.chain c).linkBefore (g.table t) (g.node anchor) (g.node node) v (log.map g.event))
      unfold linkBefore
      obtain ⟨table, head⟩ := c
      cases head with
      | none => exact hdiscard (.nothingBefore anchor) .notFound
      | some first =>
        have hreply := fun c e => Guise.reply_append (g := g) g.node (.ok node) c log [e]
        show Mirrors _ _ (if first = anchor then _ else _)
          (if g.node first = g.node anchor then _ else _)
        by_cases hfirst : first = anchor
        · rw [if_pos hfirst, if_pos (congrArg g.node hfirst)]
          exact .ok (hreply ⟨t, some node⟩ (.insertedAtHead v anchor node)) ht
        · rw [if_neg hfirst, if_neg fun he => hfirst (Guise.node_injective he)]
          refine (Mirrors.of_eq (NodeTable.findBefore_guise t anchor first)).bind fun stop _ => ?_
          cases stop with
          | none => exact hdiscard (.missingBefore anchor) .notFound
          | some stop =>
            refine (NodeTable.setNext_mirrors ht stop.node (some node)).bind fun t' ht' => ?_
            exact .ok (hreply ⟨t', some first⟩ (.insertedBefore v anchor node)) ht'

theorem delete_mirrors (h : c.table.Over home) (v : UInt16) :
    g.Replies home id (c.delete v) ((g.chain c).delete v) := by
  obtain ⟨table, head⟩ := c
  cases head with
  | none => exact .ok rfl h
  | some first =>
    refine (Mirrors.of_eq (NodeTable.findValue_guise table v first)).bind fun stop _ => ?_
    cases stop with
    | none => exact .ok rfl h
    | some stop =>
      -- what is left to do once the links lead past the node
      have hrelease : ∀ (t : NodeTable) (head : Option NodeRef), t.Over home →
          g.Replies home id
            (do
              let released ← t.release stop.node
              return ⟨.ok (), ⟨released.1, head⟩, released.2 ++ [.deleted v stop.node]⟩)
            (do
              let released ← (g.table t).release (g.node stop.node)
              return ⟨.ok (), ⟨released.1, g.link head⟩,
                released.2 ++ [.deleted v (g.node stop.node)]⟩) := by
        intro t head ht
        refine (NodeTable.release_mirrors ht stop.node).bind ?_
        rintro ⟨t', log⟩ ht'
        exact .ok (Guise.reply_append id (.ok ()) ⟨t', head⟩ log [.deleted v stop.node]) ht'
      obtain ⟨previous, node, record⟩ := stop
      cases previous with
      | none => exact hrelease table record.next h
      | some previous =>
        refine (NodeTable.setNext_mirrors h previous record.next).bind fun t ht => ?_
        exact hrelease t (some first) ht

theorem releaseAll_mirrors : ∀ (steps : Nat) {t : NodeTable} (head : Option NodeRef),
    t.Over home →
      Mirrors (fun r => (g.table r.1, r.2.1.map g.event, r.2.2)) (fun r => r.1.Over home)
        (releaseAll steps t head) (releaseAll steps (g.table t) (g.link head))
  | 0, t, none, h => .ok rfl h
  | 0, t, some node, h => .error .endless
  | steps + 1, t, none, h => .ok rfl h
  | steps + 1, t, some node, h => by
    refine (Mirrors.of_eq (NodeTable.next_guise t node)).bind fun next _ => ?_
    refine (NodeTable.release_mirrors h node).bind ?_
    rintro ⟨t₁, log⟩ h₁
    refine (releaseAll_mirrors steps next h₁).bind ?_
    rintro ⟨t₂, rest, count⟩ h₂
    exact .ok (by simp) h₂

theorem cleanUp_mirrors (h : c.table.Over home) :
    g.Replies home id c.cleanUp (g.chain c).cleanUp := by
  refine (releaseAll_mirrors c.table.slots c.head h).bind ?_
  rintro ⟨t, released, count⟩ ht
  dsimp only
  rw [NodeTable.tearDown_guise]
  refine .ok ?_ ht.tearDown
  simp [Guise.reply, Reply.through, Guise.event, Guise.chain, Except.map, Guise.link]

/-! ### Any request -/

/-- A reply whose answer is put among the answers to requests of all kinds. -/
theorem answer_mirrors {α β : Type} {f : α → β} {k : α → Answer} {k' : β → Answer}
    {x : Checked (Reply Error Chain Event α)} {y : Checked (Reply Error Chain Event β)}
    (h : g.Replies home f x y) (hk : ∀ a, k' (f a) = (k a).rename g.node) :
    g.Replies home (Answer.rename g.node) (do return (← x).map k) (do return (← y).map k') := by
  refine h.bind ?_
  rintro ⟨answer, c, log⟩ hover
  cases answer with
  | error e => exact .ok rfl hover
  | ok a =>
    refine .ok ?_ hover
    simp [Guise.reply, Reply.through, Reply.map, Except.map, hk]

/-- Every request is carried out alike in both guises, and faults in one if it
faults in the other. -/
theorem serve_mirrors (h : c.table.Over home) (r : Request) :
    g.Replies home (Answer.rename g.node) (c.serve r) ((g.chain c).serve (g.request r)) := by
  cases r with
  | insert v => exact answer_mirrors (insert_mirrors h v) fun _ => rfl
  | insertAfter anchor v => exact answer_mirrors (insertAfter_mirrors h anchor v) fun _ => rfl
  | insertBefore anchor v => exact answer_mirrors (insertBefore_mirrors h anchor v) fun _ => rfl
  | delete v => exact answer_mirrors (delete_mirrors h v) fun _ => rfl
  | search v => exact answer_mirrors (search_mirrors h v) fun _ => rfl
  | get node => exact answer_mirrors (get_mirrors h node) fun _ => rfl
  | head => exact .ok rfl h
  | isEmpty =>
    refine .ok ?_ h
    obtain ⟨table, head⟩ := c
    cases head <;> rfl
  | count =>
    show Mirrors _ _ (c.count >>= _) ((g.chain c).count >>= _)
    rw [count_guise]
    exact (Mirrors.same c.count).bind fun n _ => .ok rfl h
  | segment first last =>
    refine (Mirrors.of_eq (segment_guise c first last)).bind ?_
    rintro ⟨values, log⟩ -
    exact .ok rfl h
  | stats =>
    show Mirrors _ _ (c.stats >>= _) ((g.chain c).stats >>= _)
    rw [stats_guise]
    refine (Mirrors.same c.stats).bind fun stats _ => ?_
    cases stats <;> exact .ok rfl h
  | cleanUp => exact answer_mirrors (cleanUp_mirrors h) fun _ => rfl

end Chain
end FirstFit
