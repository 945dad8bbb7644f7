/-
# What a range yields

A range holds the node that comes next and the last one that is wanted, and
does not look for the latter before it gets there. What it yields, one value
each time it is asked, is the part of the sequence from the one node to the
other. If the last one does not come, because it is gone, of another chain, or
in front of where the range began, that is everything up to the end.

Key definitions: `Sequence.endingAt`, `Sequence.part`, `Sequence.Delimited`,
`Range.advance`, `Range.Ahead`, `Range.Yields`.
Key theorems: `Sequence.delimited`, `Ahead.pull`, `Ahead.yields`,
`Holds.range_ahead`, `ranges_of_run`.
-/
import FirstFit.Proofs.Chain.CleanUp

namespace FirstFit

/-! ### Parts of a sequence -/

namespace Chain.Sequence

variable {node : NodeRef} {v : UInt16} {post : Sequence}

/-- The nodes up to and including `last`, or all if it is not among them. -/
def endingAt (last : Option NodeRef) : Sequence → Sequence
  | [] => []
  | p :: rest => if last = some p.1 then [p] else p :: endingAt last rest

/-- The nodes from `first`, or from the beginning, up to and including `last`. -/
def part (first last : Option NodeRef) (s : Sequence) : Sequence :=
  endingAt last (s.startingAt first)

theorem upTo_eq (last : Option NodeRef) : ∀ s : Sequence,
    upTo last s = (endingAt last s).map Prod.snd
  | [] => rfl
  | p :: rest => by
    unfold upTo endingAt
    by_cases hlast : last = some p.1
    · rw [if_pos hlast, if_pos hlast]
      rfl
    · rw [if_neg hlast, if_neg hlast, List.map_cons, upTo_eq last rest]

theorem first_endingAt (last : Option NodeRef) (s : Sequence) :
    first none (endingAt last s) = first none s := by
  cases s with
  | nil => rfl
  | cons p rest =>
    unfold endingAt
    split <;> rfl

theorem endingAt_append : ∀ {pre : Sequence}, node ∉ nodes pre →
    endingAt (some node) (pre ++ (node, v) :: post) = pre ++ [(node, v)]
  | [], _ => if_pos rfl
  | p :: pre, h => by
    have hp : node ≠ p.1 := fun he => h (List.mem_cons.2 (.inl he))
    rw [List.cons_append, endingAt, if_neg fun he => hp (Option.some.inj he),
      endingAt_append fun hm => h (List.mem_cons_of_mem _ hm)]
    rfl

theorem endingAt_missed {last : Option NodeRef} : ∀ {s : Sequence},
    (∀ n ∈ last, n ∉ s.nodes) → endingAt last s = s
  | [], _ => rfl
  | p :: rest, h => by
    have hp : last ≠ some p.1 := fun he => h p.1 he List.mem_cons_self
    rw [endingAt, if_neg hp, endingAt_missed fun n hn hm => h n hn (List.mem_cons_of_mem _ hm)]

/-- What the two ends mean. -/
structure Delimited (first last : Option NodeRef) (s : Sequence) : Prop where
  absent : (∃ n ∈ first, n ∉ s.nodes) → s.part first last = []
  /-- The nodes from `first` on begin with it, or are all nodes. -/
  begun : (∀ n ∈ first, n ∈ s.nodes) → ∃ before, s = before ++ s.startingAt first ∧
    (first = none → before = []) ∧
    ∀ n ∈ first, n ∉ nodes before ∧ (s.startingAt first).first none = some n
  /-- The last one is the first of its name. -/
  closed : ∀ n ∈ last, n ∈ nodes (s.startingAt first) → ∃ front v back,
    s.startingAt first = front ++ (n, v) :: back ∧ n ∉ nodes front ∧
      s.part first last = front ++ [(n, v)]
  /-- Up to the end if the last one does not come. -/
  unending : (∀ n ∈ last, n ∉ nodes (s.startingAt first)) →
    s.part first last = s.startingAt first

theorem delimited (first last : Option NodeRef) (s : Sequence) : Delimited first last s where
  absent := by
    rintro ⟨n, rfl, hn⟩
    rw [part, startingAt_missed hn]
    rfl
  begun hpresent := by
    cases first with
    | none => exact ⟨[], rfl, fun _ => rfl, fun n hn => nomatch hn⟩
    | some node =>
      obtain ⟨pre, v, post, rfl, hpre⟩ := exists_split (hpresent node rfl)
      have hstart : startingAt (some node) (pre ++ (node, v) :: post) = (node, v) :: post :=
        startingAt_append hpre
      refine ⟨pre, by rw [hstart], fun h => (nomatch h), ?_⟩
      rintro n ⟨⟩
      exact ⟨hpre, by rw [hstart]; rfl⟩
  closed := by
    rintro n rfl hn
    obtain ⟨front, v, back, hsplit, hfront⟩ := exists_split hn
    exact ⟨front, v, back, hsplit, hfront, by rw [part, hsplit, endingAt_append hfront]⟩
  unending := endingAt_missed

end Chain.Sequence

/-! ### Asking a range -/

namespace Range

open Chain (Sequence)
open Chain.Sequence (Linked Owned endingAt first_endingAt)

variable {t : NodeTable} {r r' : Range} {part : Sequence}

/-- The range once it was asked `n` times. -/
def advance (r : Range) (t : NodeTable) : (n : Nat) → Checked Range
  | 0 => return r
  | n + 1 => do
    let (_, r) ← r.pull t
    r.advance t n

/-- The range is at the beginning of `part`, which ends where the range does. -/
structure Ahead (t : NodeTable) (part : Sequence) (r : Range) : Prop where
  linked : ∃ s, Linked t.arena none s ∧ Owned t.arena.id s ∧ part = endingAt r.last s
  next : r.next = part.first none

/-- To ask a range is to take the first pair of its part: the range that is left
either has the part of what the links lead to, or was at its last node. -/
theorem Ahead.pull (h : Ahead t part r) :
    ∃ r', r.pull t = .ok (part.head?.map Prod.snd, r') ∧ r'.last = r.last ∧
      Ahead t part.tail r' := by
  obtain ⟨next, last⟩ := r
  obtain ⟨⟨s, hl, ho, rfl⟩, hnext⟩ := h
  obtain rfl : next = s.first none := hnext.trans (first_endingAt last s)
  cases s with
  | nil => exact ⟨_, rfl, rfl, ⟨[], hl, ho, rfl⟩, rfl⟩
  | cons p rest =>
    have hpull := NodeTable.pull_eq last hl ho
    unfold endingAt
    by_cases hlast : last = some p.1
    · rw [if_pos hlast] at hpull ⊢
      exact ⟨_, hpull, rfl, ⟨[], trivial, fun _ hq => (nomatch hq), rfl⟩, rfl⟩
    · rw [if_neg hlast] at hpull ⊢
      exact ⟨_, hpull, rfl, ⟨rest, hl.2, ho.tail, rfl⟩, (first_endingAt last rest).symm⟩

/-- After `n` times, what is ahead is the part without its first `n` pairs. -/
theorem Ahead.advance : ∀ (n : Nat) {part : Sequence} {r : Range}, Ahead t part r →
    ∃ r', r.advance t n = .ok r' ∧ r'.last = r.last ∧ Ahead t (part.drop n) r'
  | 0, _, r, h => ⟨r, rfl, rfl, h⟩
  | n + 1, part, r, h => by
    obtain ⟨r₁, hpull, hlast₁, h₁⟩ := h.pull
    obtain ⟨r', hadvance, hlast, h'⟩ := h₁.advance n
    refine ⟨r', ?_, hlast.trans hlast₁, by rwa [List.drop_tail] at h'⟩
    rw [Range.advance, hpull]
    exact hadvance

/-- A range that has ended stays as it is. -/
theorem pull_ended (hnext : r.next = none) : r.pull t = .ok (none, r) := by
  unfold Range.pull
  rw [hnext]
  rfl

theorem advance_ended (hnext : r.next = none) : ∀ n, r.advance t n = .ok r
  | 0 => rfl
  | n + 1 => by
    rw [Range.advance, pull_ended hnext]
    exact advance_ended hnext n

/-- The pairs of `part` are what the range yields. -/
structure Yields (t : NodeTable) (r : Range) (part : Sequence) : Prop where
  /-- Before each time it is asked the range is at the node whose value comes. -/
  asked : ∀ n, ∃ r' r'', r.advance t n = .ok r' ∧ r'.pull t = .ok (part[n]?.map Prod.snd, r'') ∧
    r'.next = part[n]?.map Prod.fst ∧ r'.last = r.last
  shown : ∀ n r', r.advance t n = .ok r' → r'.debug = Text.record "Range"
    [("next", Text.option (part[n]?.map fun p => p.1.debug)),
      ("end", Text.option (r.last.map NodeRef.debug))]
  /-- Once there was no value there is none any more. -/
  ended : ∀ n r' r'', r.advance t n = .ok r' → r'.pull t = .ok (none, r'') →
    ∀ m, ∃ r''', r''.advance t m = .ok r''' ∧ r'''.pull t = .ok (none, r''')

theorem Ahead.yields (h : Ahead t part r) : r.Yields t part := by
  have hasked : ∀ n, ∃ r' r'', r.advance t n = .ok r' ∧
      r'.pull t = .ok (part[n]?.map Prod.snd, r'') ∧
      r'.next = part[n]?.map Prod.fst ∧ r'.last = r.last := by
    intro n
    obtain ⟨r', hadvance, hlast, h'⟩ := h.advance n
    obtain ⟨r'', hpull, -, -⟩ := h'.pull
    rw [List.head?_drop] at hpull
    refine ⟨r', r'', hadvance, hpull, h'.next.trans ?_, hlast⟩
    rw [← List.head?_drop]
    cases part.drop n <;> rfl
  refine ⟨hasked, fun n r' hadvance => ?_, fun n r' r'' hadvance hpull m => ?_⟩
  · obtain ⟨r₁, -, hadvance₁, -, hnext, hlast⟩ := hasked n
    obtain rfl := Except.ok.inj (hadvance.symm.trans hadvance₁)
    rw [Range.debug, hnext, hlast, Option.map_map]
    rfl
  · obtain ⟨r₁, r₂, hadvance₁, hpull₁, hnext, -⟩ := hasked n
    obtain rfl := Except.ok.inj (hadvance.symm.trans hadvance₁)
    -- there was no value, so there was no pair and the range was at no node
    have hnone : part[n]?.map Prod.snd = none :=
      congrArg Prod.fst (Except.ok.inj (hpull₁.symm.trans hpull))
    rw [Option.map_eq_none_iff.1 hnone] at hnext
    have hsame : r'.pull t = .ok (none, r') := pull_ended hnext
    obtain rfl : r' = r'' := congrArg Prod.snd (Except.ok.inj (hsame.symm.trans hpull))
    exact ⟨r', advance_ended hnext m, hsame⟩

end Range

/-! ### Ranges of a chain -/

namespace Chain

variable {c start : Chain} {s : Sequence} {past : List Exchange} {supply : Supply}
  {config : Pool.Config}

/-- A range of a chain begins with the part of its sequence ahead. -/
theorem Holds.range_ahead (h : c.Holds s) (first last : Option NodeRef)
    (hstamp : ∀ node ∈ first, node.arena = c.table.arena.id → node.stamp ≠ 0) :
    ∃ r log, c.range first last = .ok (r, log) ∧ r.last = last ∧
      Range.Ahead c.table (s.part first last) r ∧
      c.segment first last = .ok ((s.part first last).map Prod.snd, log) := by
  obtain ⟨log, hrange, -⟩ := h.range_eq first last hstamp
  obtain ⟨pre, hsplit⟩ := s.startingAt_suffix first
  have hlinked := (Sequence.linked_append.1 (hsplit ▸ h.linked)).2
  have howned : Sequence.Owned c.table.arena.id (s.startingAt first) := fun p hp =>
    h.stored.owned p (hsplit ▸ List.mem_append_right _ hp)
  have hdrain := h.drain pre (s.startingAt first) hsplit.symm last
  refine ⟨_, log, hrange, rfl, ⟨⟨_, hlinked, howned, rfl⟩,
    (Sequence.first_endingAt last _).symm⟩, ?_⟩
  simp only [Chain.segment, hrange, hdrain, Sequence.upTo_eq, Checked.ok_bind]
  rfl

/-- Whatever was asked of a chain before, a range of it yields one after another
the values from `first` to `last`, shows the node whose value is next, and has
none once it had none. -/
theorem ranges_of_run (hinit : (initialise supply config).answer = .ok start)
    (h : start.Run past c) (hreturn : ∀ x ∈ past, x.selfAnchored = false) :
    ∃ s, c.sequence = .ok s ∧ s.part none none = s ∧
      c.values = .ok ((s.part none none).map Prod.snd) ∧
      c.count = .ok (s.part none none).length ∧
      (∀ n, Genuine start n → ∃ answer log, c.table.checkLive n = .ok (answer, log) ∧
        (answer = .ok () ↔ n ∈ s.nodes)) ∧
      ∀ first last, (∀ n ∈ first, Genuine start n) → s.Delimited first last ∧
        ∃ r log, c.range first last = .ok (r, log) ∧ r.last = last ∧
          r.Yields c.table (s.part first last) ∧
          c.segment first last = .ok ((s.part first last).map Prod.snd, log) := by
  obtain ⟨rfl, hmax, -⟩ := initialise_ok hinit
  have hempty := ledger_empty supply.next hmax
  obtain ⟨s, hsteady, hlasting⟩ :=
    h.lasting ⟨hempty.holds, hempty.arena, fun n hn => nomatch hn⟩ hreturn
  have hholds := hsteady.holds
  have hwhole : s.part none none = s := Sequence.endingAt_missed fun _ hn => nomatch hn
  refine ⟨s, hholds.sequence_eq, hwhole, by rw [hwhole]; exact values_eq hholds,
    by rw [hwhole]; exact count_eq hholds, fun n hn => ?_, fun first last hgenuine => ?_⟩
  · rcases hholds.checkLive_cases n fun ha => hn.stamp_ne_zero (ha.trans hlasting.id) with
      ⟨hm, hlive⟩ | ⟨hm, log, hrefused, -⟩
    · exact ⟨_, _, hlive, iff_of_true rfl hm⟩
    · exact ⟨_, log, hrefused, iff_of_false (fun he => nomatch he) hm⟩
  · obtain ⟨r, log, hrange, hlast, hahead, hsegment⟩ := hholds.range_ahead first last fun n hn ha =>
      (hgenuine n hn).stamp_ne_zero (ha.trans hlasting.id)
    exact ⟨s.delimited first last, r, log, hrange, hlast, hahead.yields, hsegment⟩

/-- The last of three nodes is in the slot of one that is gone. A range to a
node in front of where it begins goes on to the end; one from the node that is
gone has no values, though there is a node in its slot. -/
theorem ranges_of_run_reused :
    let gone : NodeRef := ⟨⟨1⟩, 0, 1⟩
    let second : NodeRef := ⟨⟨1⟩, 16, 2⟩
    let third : NodeRef := ⟨⟨1⟩, 32, 3⟩
    let reused : NodeRef := ⟨⟨1⟩, 0, 4⟩
    let rs : List Request := [.insert 7, .insert 8, .insert 9, .delete 7, .insert 5]
    ∃ start past c, (initialise {} ⟨56, false⟩).answer = .ok start ∧
      start.replay [] rs = some (past, c) ∧ (∀ x ∈ past, x.selfAnchored = false) ∧
      c.sequence = .ok [(second, 8), (third, 9), (reused, 5)] ∧
      Genuine start third ∧ Genuine start gone ∧
      (∃ r log, c.range (some third) (some second) = .ok (r, log) ∧
        r.Yields c.table [(third, 9), (reused, 5)]) ∧
      ∃ r log, c.range (some gone) none = .ok (r, log) ∧ r.Yields c.table [] := by
  intro gone second third reused rs
  let start := empty ⟨1⟩ ⟨56, false⟩
  have hmade : (start.replay [] [.insert 7, .insert 8]).any (fun reached =>
      decide (reached.2.creation (.insert 9) = some third)) = true := by decide
  have hlast : (start.replay [] rs).any (fun reached =>
      reached.1.all (fun x => !x.selfAnchored) && decide (reached.2.sequence =
        .ok [(second, 8), (third, 9), (reused, 5)])) = true := by decide
  obtain ⟨⟨past₁, c₁⟩, hreplay₁, hcreation⟩ := (Option.any_eq_true _ _).1 hmade
  obtain ⟨⟨past, c⟩, hreplay, hreached⟩ := (Option.any_eq_true _ _).1 hlast
  obtain ⟨hall, hdecided⟩ := Bool.and_eq_true_iff.1 hreached
  have hreturn := Exchange.returned_of_all hall
  have hsequence := of_decide_eq_true hdecided
  have hthird : Genuine start third := fun _ =>
    ⟨past₁, c₁, .insert 9, Run.nil.replay hreplay₁, of_decide_eq_true hcreation⟩
  have hgone : Genuine start gone := fun _ => ⟨[], start, .insert 7, .nil, by decide⟩
  obtain ⟨s, hs, -, -, -, -, hranges⟩ :=
    @ranges_of_run c start past {} ⟨56, false⟩ rfl (Run.nil.replay hreplay) hreturn
  obtain rfl := Except.ok.inj (hsequence.symm.trans hs)
  obtain ⟨-, r, log, hrange, -, hyields, -⟩ := hranges (some third) (some second) fun n hn =>
    Option.some.inj hn ▸ hthird
  obtain ⟨-, r', log', hrange', -, hyields', -⟩ := hranges (some gone) none fun n hn =>
    Option.some.inj hn ▸ hgone
  exact ⟨start, past, c, rfl, hreplay, hreturn, hsequence, hthird, hgone,
    ⟨r, log, hrange, hyields⟩, r', log', hrange', hyields'⟩

end Chain
end FirstFit
