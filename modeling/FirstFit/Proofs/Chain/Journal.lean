/-
# The log of a chain as a journal

Whoever reads the log of a chain from the beginning, and sees nothing else of
it, knows its nodes and values in order. An entry is written from references
that the request kept, and for nodes that are removed only after they are gone;
it says where the node was put, or which one it was, and that is where the
links have it. A request that is refused says nothing of the sequence, although
it may have created a node and given it back.

Key definitions: `Event.follow`, `Chain.retrace`, `Chain.Quiet`, `Chain.Logs`.
Key theorems: `insert_logs`, `insertAfter_logs`, `insertBefore_logs`,
`quiet_of_error`, `Simulates.retrace`, `Run.retrace`, `journal_of_run`.
-/
import FirstFit.Proofs.Chain.References

namespace FirstFit
namespace Chain

variable {c start : Chain} {s : Sequence} {r : Request} {v : UInt16} {node anchor : NodeRef}
  {past : List Exchange} {log : List Event} {event : Event} {e : Error} {id : ArenaId}
  {capacity : Nat} {supply : Supply} {config : Pool.Config} {t t' : NodeTable}

/-! ### Reading the log -/

/-- The sequence after an event, to one who knew it before. There is no telling
if the event names a node that is not there. -/
def Event.follow (s : Sequence) : Event → Option Sequence
  | .appended v node => some (s ++ [(node, v)])
  | .insertedAfter v anchor node =>
    if anchor ∈ s.nodes then some (s.behind anchor (node, v)) else none
  | .insertedBefore v anchor node =>
    if anchor ∈ s.nodes then some (s.inFront anchor (node, v)) else none
  | .insertedAtHead v anchor node =>
    if s.nodes.head? = some anchor then some (s.inFront anchor (node, v)) else none
  | .deleted v node => if (node, v) ∈ s then some (s.erase (node, v)) else none
  | .cleanedUp released => if s.length = released then some [] else none
  | _ => some s

/-- The sequence after all events of a log. -/
def retrace (s : Sequence) (log : List Event) : Option Sequence := log.foldlM Event.follow s

/-- The event says that the sequence changed. -/
def Event.isChange : Event → Bool
  | .appended _ _ | .insertedAfter _ _ _ | .insertedBefore _ _ _ | .insertedAtHead _ _ _
  | .deleted _ _ | .cleanedUp _ => true
  | _ => false

/-- No event of the log says that the sequence changed. -/
def Quiet (log : List Event) : Prop := ∀ event ∈ log, event.isChange = false

theorem retrace_append (s : Sequence) (log log' : List Event) :
    retrace s (log ++ log') = (retrace s log).bind (retrace · log') :=
  List.foldlM_append

theorem Event.follow_of_not_isChange (h : event.isChange = false) : event.follow s = some s := by
  cases event <;> first | rfl | exact nomatch h

theorem Quiet.retrace (h : Quiet log) : retrace s log = some s := by
  induction log with
  | nil => rfl
  | cons event log ih =>
    have hfollow := Event.follow_of_not_isChange (s := s) (h event List.mem_cons_self)
    have hrest := ih fun event hm => h event (List.mem_cons_of_mem _ hm)
    show (event.follow s).bind (Chain.retrace · log) = _
    rw [hfollow]
    exact hrest

/-- Only the last event of the log may say something of the sequence. -/
theorem Quiet.retrace_concat (h : Quiet log) :
    Chain.retrace s (log ++ [event]) = event.follow s := by
  rw [retrace_append, h.retrace]
  exact bind_pure (event.follow s)

theorem Quiet.nil : Quiet [] := fun _ h => nomatch h

theorem Quiet.append {log' : List Event} (h : Quiet log) (h' : Quiet log') : Quiet (log ++ log') :=
  fun event hm => (List.mem_append.1 hm).elim (h event) (h' event)

theorem quiet_singleton (h : event.isChange = false) : Quiet [event] := fun _ hm =>
  List.mem_singleton.1 hm ▸ h

theorem quiet_pool (log : List Pool.Event) : Quiet (log.map .pool) := by
  intro event hm
  obtain ⟨_, -, rfl⟩ := List.mem_map.1 hm
  rfl

theorem Quiet.deletions (h : Quiet log) : log.filterMap Event.deletion = [] := by
  refine List.filterMap_eq_nil_iff.2 fun event hm => ?_
  have hquiet := h event hm
  cases event <;> first | rfl | exact nomatch hquiet

/-! ### What the table logs -/

theorem create_quiet {next : Option NodeRef} {made : Reply Error NodeTable Event NodeRef}
    (h : t.create v next = .ok made) : Quiet made.log := by
  obtain ⟨⟨poolLog, hlog⟩, -⟩ := NodeTable.create_reply h
  exact hlog ▸ quiet_pool poolLog

theorem release_quiet (h : t.release node = .ok (t', log)) : Quiet log := by
  unfold NodeTable.release at h
  obtain ⟨base, -, h⟩ := Checked.bind_eq_ok.1 h
  obtain ⟨t₁, -, h⟩ := Checked.bind_eq_ok.1 h
  obtain ⟨⟨answer, p, poolLog⟩, -, h⟩ := Checked.bind_eq_ok.1 h
  have hpool := quiet_pool poolLog
  cases answer with
  | ok u =>
    obtain ⟨-, rfl⟩ := Prod.mk.inj (Except.ok.inj h)
    exact hpool
  | error e =>
    cases e with
    | uninitialised =>
      obtain ⟨-, rfl⟩ := Prod.mk.inj (Except.ok.inj h)
      exact hpool.append (quiet_singleton rfl)
    | _ =>
      obtain ⟨-, rfl⟩ := Prod.mk.inj (Except.ok.inj h)
      exact hpool.append (quiet_singleton rfl)

theorem releases_quiet (s : Sequence) : Quiet (releases s) := by
  intro event hm
  obtain ⟨_, -, rfl⟩ := List.mem_map.1 hm
  rfl

theorem checkLive_quiet {standing : Except Error Unit}
    (h : t.checkLive node = .ok (standing, log)) : Quiet log := by
  unfold NodeTable.checkLive at h
  obtain ⟨standing, -, h⟩ := Checked.bind_eq_ok.1 h
  cases standing with
  | live =>
    obtain ⟨-, rfl⟩ := Prod.mk.inj (Except.ok.inj h)
    exact .nil
  | stale =>
    obtain ⟨-, rfl⟩ := Prod.mk.inj (Except.ok.inj h)
    exact quiet_singleton rfl
  | foreign =>
    obtain ⟨-, rfl⟩ := Prod.mk.inj (Except.ok.inj h)
    exact .nil

/-! ### What a request logs -/

/-- A request that puts in a node says so at the end of its log, in the words of
`entry`; one that is refused says nothing. -/
def Logs (entry : NodeRef → Event) (reply : Reply Error Chain Event NodeRef) : Prop :=
  match reply.answer with
  | .error _ => Quiet reply.log
  | .ok node => ∃ before, Quiet before ∧ reply.log = before ++ [entry node]

section

variable {reply : Reply Error Chain Event NodeRef} {before after : List Event}

theorem discard_logs {entry : NodeRef → Event} (h : c.discard t node before after e = .ok reply)
    (hbefore : Quiet before) (hafter : Quiet after) : Logs entry reply := by
  unfold discard at h
  obtain ⟨⟨table, released⟩, hrelease, h⟩ := Checked.bind_eq_ok.1 h
  obtain rfl := Except.ok.inj h
  exact (hbefore.append (release_quiet hrelease)).append hafter

theorem insert_logs (h : c.insert v = .ok reply) : Logs (.appended v) reply := by
  rw [insert_eq] at h
  obtain ⟨⟨answer, t, log⟩, hcreate, h⟩ := Checked.bind_eq_ok.1 h
  have hquiet := create_quiet hcreate
  cases answer with
  | error e =>
    obtain rfl := Except.ok.inj h
    exact hquiet
  | ok node =>
    dsimp only [linkLast] at h
    cases hhead : c.head with
    | none =>
      rw [hhead] at h
      obtain rfl := Except.ok.inj h
      exact ⟨log, hquiet, rfl⟩
    | some first =>
      rw [hhead] at h
      obtain ⟨last, -, h⟩ := Checked.bind_eq_ok.1 h
      obtain ⟨table, -, h⟩ := Checked.bind_eq_ok.1 h
      obtain rfl := Except.ok.inj h
      exact ⟨log, hquiet, rfl⟩

theorem insertAfter_logs (h : c.insertAfter (some anchor) v = .ok reply) :
    Logs (.insertedAfter v anchor) reply := by
  unfold insertAfter at h
  obtain ⟨⟨answer, t, log⟩, hcreate, h⟩ := Checked.bind_eq_ok.1 h
  have hquiet := create_quiet hcreate
  cases answer with
  | error e =>
    obtain rfl := Except.ok.inj h
    exact hquiet
  | ok node =>
    obtain ⟨⟨standing, log'⟩, hlive, h⟩ := Checked.bind_eq_ok.1 h
    cases standing with
    | error e => exact discard_logs h (hquiet.append (checkLive_quiet hlive)) .nil
    | ok u =>
      obtain ⟨next, -, h⟩ := Checked.bind_eq_ok.1 h
      obtain ⟨t₁, -, h⟩ := Checked.bind_eq_ok.1 h
      obtain ⟨t₂, -, h⟩ := Checked.bind_eq_ok.1 h
      obtain rfl := Except.ok.inj h
      exact ⟨log, hquiet, rfl⟩

/-- The entry for a node that was put in front of another one. -/
def frontEntry (c : Chain) (anchor : NodeRef) (v : UInt16) : NodeRef → Event :=
  if c.head = some anchor then .insertedAtHead v anchor else .insertedBefore v anchor

theorem insertBefore_logs (h : c.insertBefore (some anchor) v = .ok reply) :
    Logs (c.frontEntry anchor v) reply := by
  rw [insertBefore_eq] at h
  obtain ⟨⟨answer, t, log⟩, hcreate, h⟩ := Checked.bind_eq_ok.1 h
  have hquiet := create_quiet hcreate
  unfold frontEntry
  cases answer with
  | error e =>
    obtain rfl := Except.ok.inj h
    exact hquiet
  | ok node =>
    dsimp only [linkBefore] at h
    cases hhead : c.head with
    | none =>
      rw [hhead] at h
      exact discard_logs h hquiet (quiet_singleton rfl)
    | some first =>
      simp only [hhead] at h
      by_cases hfirst : first = anchor
      · rw [if_pos hfirst] at h
        obtain rfl := Except.ok.inj h
        rw [if_pos (congrArg some hfirst)]
        exact ⟨log, hquiet, rfl⟩
      · rw [if_neg hfirst] at h
        rw [if_neg fun he => hfirst (Option.some.inj he)]
        obtain ⟨found, -, h⟩ := Checked.bind_eq_ok.1 h
        cases found with
        | none => exact discard_logs h hquiet (quiet_singleton rfl)
        | some stop =>
          obtain ⟨table, -, h⟩ := Checked.bind_eq_ok.1 h
          obtain rfl := Except.ok.inj h
          exact ⟨log, hquiet, rfl⟩

end

theorem delete_logs {reply : Reply Error Chain Event Unit} (h : c.delete v = .ok reply) :
    Quiet reply.log ∨ reply.answer = .ok () ∧
      ∃ before node, Quiet before ∧ reply.log = before ++ [.deleted v node] := by
  unfold delete at h
  cases hhead : c.head with
  | none =>
    rw [hhead] at h
    obtain rfl := Except.ok.inj h
    exact .inl (quiet_singleton rfl)
  | some first =>
    rw [hhead] at h
    obtain ⟨found, -, h⟩ := Checked.bind_eq_ok.1 h
    cases found with
    | none =>
      obtain rfl := Except.ok.inj h
      exact .inl (quiet_singleton rfl)
    | some stop =>
      obtain ⟨previous, node, record⟩ := stop
      have hdone : ∀ (table : NodeTable) (head : Option NodeRef), (do
          let released ← table.release node
          return ⟨.ok (), ⟨released.1, head⟩, released.2 ++ [.deleted v node]⟩) =
            Except.ok reply → Quiet reply.log ∨ reply.answer = .ok () ∧
              ∃ before node, Quiet before ∧ reply.log = before ++ [.deleted v node] := by
        intro table head h
        obtain ⟨⟨table', released⟩, hrelease, h⟩ := Checked.bind_eq_ok.1 h
        obtain rfl := Except.ok.inj h
        exact .inr ⟨rfl, released, node, release_quiet hrelease, rfl⟩
      cases previous with
      | none => exact hdone _ _ h
      | some previous =>
        obtain ⟨table, -, h⟩ := Checked.bind_eq_ok.1 h
        exact hdone _ _ h

theorem search_quiet {reply : Reply Error Chain Event NodeRef} (h : c.search v = .ok reply) :
    Quiet reply.log := by
  unfold search at h
  cases hhead : c.head with
  | none =>
    rw [hhead] at h
    obtain rfl := Except.ok.inj h
    exact .nil
  | some first =>
    rw [hhead] at h
    obtain ⟨found, -, h⟩ := Checked.bind_eq_ok.1 h
    cases found with
    | none =>
      obtain rfl := Except.ok.inj h
      exact quiet_singleton rfl
    | some stop =>
      obtain rfl := Except.ok.inj h
      exact .nil

theorem get_quiet {reply : Reply Error Chain Event UInt16} (h : c.get node = .ok reply) :
    Quiet reply.log := by
  unfold get at h
  obtain ⟨⟨standing, log⟩, hlive, h⟩ := Checked.bind_eq_ok.1 h
  have hquiet := checkLive_quiet hlive
  cases standing with
  | error e =>
    obtain rfl := Except.ok.inj h
    exact hquiet
  | ok u =>
    obtain ⟨data, -, h⟩ := Checked.bind_eq_ok.1 h
    obtain rfl := Except.ok.inj h
    exact hquiet

theorem range_quiet {first last : Option NodeRef} {range : Range}
    (h : c.range first last = .ok (range, log)) : Quiet log := by
  unfold Chain.range at h
  cases first with
  | none =>
    obtain ⟨base, -, h⟩ := Checked.bind_eq_ok.1 h
    obtain ⟨-, rfl⟩ := Prod.mk.inj (Except.ok.inj h)
    exact .nil
  | some node =>
    obtain ⟨⟨standing, log'⟩, hlive, h⟩ := Checked.bind_eq_ok.1 h
    have hquiet := checkLive_quiet hlive
    cases standing with
    | error e =>
      obtain ⟨-, rfl⟩ := Prod.mk.inj (Except.ok.inj h)
      exact hquiet
    | ok u =>
      obtain ⟨-, rfl⟩ := Prod.mk.inj (Except.ok.inj h)
      exact hquiet

theorem segment_quiet {first last : Option NodeRef} {values : List UInt16}
    (h : c.segment first last = .ok (values, log)) : Quiet log := by
  unfold segment at h
  obtain ⟨⟨range, log'⟩, hrange, h⟩ := Checked.bind_eq_ok.1 h
  obtain ⟨drained, -, h⟩ := Checked.bind_eq_ok.1 h
  obtain ⟨-, rfl⟩ := Prod.mk.inj (Except.ok.inj h)
  exact range_quiet hrange

variable {offer : Except Pool.Error NodeRef} {reply : Reply Error Chain Event Answer}

theorem Logs.quiet {inner : Reply Error Chain Event NodeRef} {entry : NodeRef → Event}
    (h : Logs entry inner) (he : inner.answer = .error e) : Quiet inner.log := by
  unfold Logs at h
  rw [he] at h
  exact h

/-- A request that is refused says nothing of the sequence, whatever chain it was made to. -/
theorem quiet_of_error (hserve : c.serve r = .ok reply) (he : reply.answer = .error e) :
    Quiet reply.log := by
  cases r with
  | insert v =>
    obtain ⟨inner, hinner, rfl⟩ := Checked.map_eq_ok.1 hserve
    exact (insert_logs hinner).quiet (Reply.error_of_map he)
  | insertAfter anchor v =>
    cases anchor with
    | none => exact Except.ok.inj hserve ▸ .nil
    | some anchor =>
      obtain ⟨inner, hinner, rfl⟩ := Checked.map_eq_ok.1 hserve
      exact (insertAfter_logs hinner).quiet (Reply.error_of_map he)
  | insertBefore anchor v =>
    cases anchor with
    | none => exact Except.ok.inj hserve ▸ .nil
    | some anchor =>
      obtain ⟨inner, hinner, rfl⟩ := Checked.map_eq_ok.1 hserve
      exact (insertBefore_logs hinner).quiet (Reply.error_of_map he)
  | delete v =>
    obtain ⟨inner, hinner, rfl⟩ := Checked.map_eq_ok.1 hserve
    rcases delete_logs hinner with hquiet | ⟨hdone, -⟩
    · exact hquiet
    · exact nomatch hdone.symm.trans (Reply.error_of_map he)
  | search v =>
    obtain ⟨inner, hinner, rfl⟩ := Checked.map_eq_ok.1 hserve
    exact search_quiet hinner
  | get node =>
    obtain ⟨inner, hinner, rfl⟩ := Checked.map_eq_ok.1 hserve
    exact get_quiet hinner
  | segment first last =>
    obtain ⟨⟨values, log⟩, hsegment, rfl⟩ := Checked.map_eq_ok.1 hserve
    exact segment_quiet hsegment
  | cleanUp =>
    obtain ⟨inner, hinner, rfl⟩ := Checked.map_eq_ok.1 hserve
    exact nomatch (cleanUp_ok hinner).symm.trans (Reply.error_of_map he)
  | head => exact Except.ok.inj hserve ▸ .nil
  | isEmpty => exact Except.ok.inj hserve ▸ .nil
  | count =>
    obtain ⟨n, -, rfl⟩ := Checked.map_eq_ok.1 hserve
    exact .nil
  | stats =>
    obtain ⟨stats, -, rfl⟩ := Checked.map_eq_ok.1 hserve
    exact .nil

/-! ### What the log says of the sequence -/

/-- The entry for a node that was put in leads to the sequence with it. -/
theorem Logs.retrace {inner : Reply Error Chain Event NodeRef} {entry : NodeRef → Event}
    {put : NodeRef × UInt16 → Except Error Sequence} (h : Logs entry inner)
    (hanswer : inner.answer.map Answer.node = (s.add offer v put).1)
    (hput : ∀ node s', put (node, v) = .ok s' → (entry node).follow s = some s') :
    Chain.retrace s inner.log = some (s.add offer v put).2 := by
  obtain ⟨answer, c', log⟩ := inner
  cases offer with
  | error e =>
    obtain rfl : answer = .error (.allocationFailed e) := Reply.error_of_map hanswer
    exact Quiet.retrace h
  | ok node =>
    simp only [Sequence.add] at hanswer ⊢
    cases hp : put (node, v) with
    | error e =>
      rw [hp] at hanswer
      obtain rfl : answer = .error e := Reply.error_of_map hanswer
      exact Quiet.retrace h
    | ok s' =>
      rw [hp] at hanswer
      obtain ⟨n, rfl, hn⟩ := Reply.ok_of_map hanswer
      obtain rfl := Answer.node.inj hn
      obtain ⟨before, hbefore, rfl⟩ := h
      exact hbefore.retrace_concat.trans (hput n s' hp)

/-- The node that is removed is the one that the entry names. -/
theorem delete_retrace {inner : Reply Error Chain Event Unit} (h : c.Holds s)
    (hdelete : c.delete v = .ok inner) (offer : Except Pool.Error NodeRef) :
    Chain.retrace s inner.log = some (s.step offer (.delete v)).2 := by
  obtain ⟨inner', hdelete', hs, hdeletion⟩ := delete_simulates h offer v
  obtain rfl := Except.ok.inj (hdelete.symm.trans hdelete')
  have hanswer : inner.answer.map (fun _ => Answer.done) = (s.step offer (.delete v)).1 :=
    hs.answer_eq (by simp)
  rcases Sequence.stopAt_value v s none with ⟨hne, -⟩ | ⟨pre, q, post, rfl, hne, -⟩
  · rw [Sequence.step_delete_missed offer hne] at hanswer ⊢
    rcases delete_logs hdelete with hquiet | ⟨hdone, -⟩
    · exact hquiet.retrace
    · exact nomatch hdone.symm.trans (Reply.error_of_map hanswer)
  · rw [Sequence.step_delete_append offer hne] at hanswer ⊢
    rw [Sequence.find_append hne] at hdeletion
    rcases delete_logs hdelete with hquiet | ⟨-, before, node, hbefore, hlog⟩
    · exact nomatch hquiet.deletions.symm.trans hdeletion
    · rw [hlog, List.filterMap_append, hbefore.deletions] at hdeletion
      obtain rfl : node = q := (List.cons.inj hdeletion).1
      have hm : (node, v) ∈ pre ++ (node, v) :: post := List.mem_append_right _ List.mem_cons_self
      have hpre : (node, v) ∉ pre := fun hmem => hne _ hmem rfl
      rw [hlog, hbefore.retrace_concat, Event.follow, if_pos hm, List.erase_append_right _ hpre,
        List.erase_cons_head]

/-- An entry for the first node names what the head leads to. -/
theorem frontEntry_follow (h : c.Holds s) (hm : anchor ∈ s.nodes) :
    (c.frontEntry anchor v node).follow s = some (s.inFront anchor (node, v)) := by
  unfold frontEntry
  by_cases hhead : c.head = some anchor
  · have hfirst : s.nodes.head? = some anchor := by
      rw [← hhead, h.head]
      cases s <;> rfl
    rw [if_pos hhead]
    exact if_pos hfirst
  · rw [if_neg hhead]
    exact if_pos hm

/-- The events of one request lead from the sequence before it to the one after it. -/
theorem Simulates.retrace (hs : Simulates c s r offer reply) (h : c.Holds s)
    (hserve : c.serve r = .ok reply) : Chain.retrace s reply.log = some (s.step offer r).2 := by
  cases r with
  | insert v =>
    obtain ⟨inner, hinner, rfl⟩ := Checked.map_eq_ok.1 hserve
    refine (insert_logs hinner).retrace (hs.answer_eq (by simp)) fun node s' hput => ?_
    obtain rfl := Except.ok.inj hput
    rfl
  | insertAfter anchor v =>
    cases anchor with
    | none => exact Except.ok.inj hserve ▸ rfl
    | some anchor =>
      obtain ⟨inner, hinner, rfl⟩ := Checked.map_eq_ok.1 hserve
      refine (insertAfter_logs hinner).retrace (hs.answer_eq (by simp)) fun node s' hput => ?_
      split at hput
      · rename_i hm
        obtain rfl := Except.ok.inj hput
        exact if_pos hm
      · exact nomatch hput
  | insertBefore anchor v =>
    cases anchor with
    | none => exact Except.ok.inj hserve ▸ rfl
    | some anchor =>
      obtain ⟨inner, hinner, rfl⟩ := Checked.map_eq_ok.1 hserve
      refine (insertBefore_logs hinner).retrace (hs.answer_eq (by simp)) fun node s' hput => ?_
      split at hput
      · rename_i hm
        obtain rfl := Except.ok.inj hput
        exact frontEntry_follow h hm
      · exact nomatch hput
  | delete v =>
    obtain ⟨inner, hinner, rfl⟩ := Checked.map_eq_ok.1 hserve
    exact delete_retrace h hinner offer
  | cleanUp =>
    obtain ⟨inner, hinner, rfl⟩ := Checked.map_eq_ok.1 hserve
    obtain ⟨t', hcleanUp, -⟩ := cleanUp_eq h
    obtain rfl := Except.ok.inj (hinner.symm.trans hcleanUp)
    have hquiet : Quiet (releases s ++ [c.torn]) := (releases_quiet s).append (quiet_singleton rfl)
    exact hquiet.retrace_concat.trans (if_pos rfl)
  | search v =>
    obtain ⟨inner, hinner, rfl⟩ := Checked.map_eq_ok.1 hserve
    refine (search_quiet hinner).retrace.trans ?_
    rw [Sequence.step]
    split <;> rfl
  | get node =>
    obtain ⟨inner, hinner, rfl⟩ := Checked.map_eq_ok.1 hserve
    refine (get_quiet hinner).retrace.trans ?_
    rw [Sequence.step]
    split <;> rfl
  | segment first last =>
    obtain ⟨⟨values, log⟩, hsegment, rfl⟩ := Checked.map_eq_ok.1 hserve
    exact (segment_quiet hsegment).retrace
  | head => exact Except.ok.inj hserve ▸ rfl
  | isEmpty => exact Except.ok.inj hserve ▸ rfl
  | count =>
    obtain ⟨n, -, rfl⟩ := Checked.map_eq_ok.1 hserve
    rfl
  | stats =>
    obtain ⟨stats, -, rfl⟩ := Checked.map_eq_ok.1 hserve
    rfl

/-- The log of a run leads to the sequence that the chain holds. -/
theorem Run.retrace (hstart : Ledger id capacity [] start []) (h : start.Run past c)
    (hmade : made past < UInt32.size) :
    ∃ s, Ledger id capacity past c s ∧ Chain.retrace [] (past.flatMap Exchange.log) = some s := by
  induction h with
  | nil => exact ⟨[], hstart, rfl⟩
  | @snoc past c r reply h hknown hserve ih =>
    have hbefore : made past < UInt32.size := by
      rw [made_concat] at hmade
      omega
    obtain ⟨s, hledger, hretrace⟩ := ih hbefore
    obtain ⟨reply', hserve', hstep⟩ := hledger.serve fun n hn ha =>
      hknown n hn (ha.trans hledger.arena.symm)
    obtain rfl : reply = reply' := Except.ok.inj (hserve.symm.trans hserve')
    obtain ⟨offer, hs, -, hafter⟩ := hstep hmade
    refine ⟨_, hafter, ?_⟩
    rw [List.flatMap_append, retrace_append, hretrace, List.flatMap_singleton]
    exact hs.retrace hledger.holds hserve

theorem initialise_quiet (supply : Supply) (config : Pool.Config) :
    Quiet (initialise supply config).log := by
  have htable : Quiet (NodeTable.initialise supply config).log := by
    unfold NodeTable.initialise
    split
    · exact .nil
    · dsimp only
      split <;> exact quiet_pool _
  unfold initialise
  dsimp only
  split
  · exact htable
  · exact htable.append (quiet_singleton rfl)

/-- The log of a chain is a journal of its sequence, in any run in which fewer
than `2 ^ 32` nodes are created: read from the beginning it never names a node
that is not there, and it leads to the nodes and values that the links of the
chain say. A request that is refused leaves no entry of this kind. -/
theorem journal_of_run (hinit : (initialise supply config).answer = .ok start)
    (h : start.Run past c) (hmade : made past < UInt32.size) :
    (∃ s, retrace [] ((initialise supply config).log ++ past.flatMap Exchange.log) = some s ∧
      c.sequence = .ok s) ∧
    ∀ r : Request, (∀ n ∈ r.nodes, n.arena = c.table.arena.id → n ∈ issued past) →
      ∃ reply, c.serve r = .ok reply ∧ ∀ e, reply.answer = .error e → Quiet reply.log := by
  obtain ⟨rfl, hmax, -⟩ := initialise_ok hinit
  obtain ⟨s, hledger, hretrace⟩ := h.retrace (ledger_empty supply.next hmax) hmade
  refine ⟨⟨s, ?_, hledger.holds.sequence_eq⟩, fun r hknown => ?_⟩
  · rw [retrace_append, (initialise_quiet supply config).retrace]
    exact hretrace
  · obtain ⟨reply, hserve, -⟩ := hledger.serve fun n hn ha =>
      hknown n hn (ha.trans hledger.arena.symm)
    exact ⟨reply, hserve, fun e he => quiet_of_error hserve he⟩

/-- A value that is there twice, in a slot that was used before: each entry names
one of the two nodes. The node that was created to come behind one that is gone
has no entry. -/
theorem journal_of_run_reused :
    let first : NodeRef := ⟨⟨1⟩, 0, 1⟩
    let second : NodeRef := ⟨⟨1⟩, 16, 2⟩
    let third : NodeRef := ⟨⟨1⟩, 0, 3⟩
    let rs : List Request := [.insert 7, .insert 7, .delete 7, .insertBefore (some second) 7,
      .insertAfter (some first) 9, .delete 7]
    ∃ start past c, (initialise {} ⟨56, true⟩).answer = .ok start ∧
      start.replay [] rs = some (past, c) ∧ made past < UInt32.size ∧
      (past.flatMap Exchange.log).filter Event.isChange =
        [.appended 7 first, .appended 7 second, .deleted 7 first,
          .insertedAtHead 7 second third, .deleted 7 third] ∧
      ∃ s, retrace [] ((initialise {} ⟨56, true⟩).log ++ past.flatMap Exchange.log) = some s ∧
        s = [(second, 7)] ∧ c.sequence = .ok s := by
  intro first second third rs
  have hany : ((empty ⟨1⟩ ⟨56, true⟩).replay [] rs).any (fun reached =>
      decide (made reached.1 = 4 ∧ reached.2.sequence = .ok [(second, 7)] ∧
        (reached.1.flatMap Exchange.log).filter Event.isChange =
          [.appended 7 first, .appended 7 second, .deleted 7 first,
            .insertedAtHead 7 second third, .deleted 7 third])) = true := by decide
  obtain ⟨⟨past, c⟩, hreplay, hlast⟩ := (Option.any_eq_true _ _).1 hany
  obtain ⟨hcount, hsequence, hlog⟩ := of_decide_eq_true hlast
  have hmade : made past < UInt32.size := by rw [hcount]; decide
  obtain ⟨⟨s, hretrace, hs⟩, -⟩ :=
    @journal_of_run c (empty ⟨1⟩ ⟨56, true⟩) past {} ⟨56, true⟩ rfl (Run.nil.replay hreplay) hmade
  exact ⟨_, past, c, rfl, hreplay, hmade, hlog, s, hretrace,
    Except.ok.inj (hs.symm.trans hsequence), hs⟩

end Chain
end FirstFit
