/-
# What a request does to a sequence of nodes

The answer to a request and the sequence afterwards depend on the sequence
before and, if the request needs a new node, on what the storage offers: a
node that is not in use, or a refusal. Nothing is said here of bytes, links or
blocks.

Key definitions: `Sequence.step`, `Sequence.behind`, `Sequence.inFront`,
`Sequence.startingAt`, `Sequence.segment`.
-/
import FirstFit.Chain.Request
import FirstFit.Proofs.Chain.Linked

namespace FirstFit
namespace Chain

/-- The request asks the storage for a node. -/
def Request.creates : Request → Bool
  | .insert _ | .insertAfter (some _) _ | .insertBefore (some _) _ => true
  | _ => false

/-- The request ends the pool of the chain. -/
def Request.ends : Request → Bool
  | .cleanUp => true
  | _ => false

theorem Request.ends_of_creates {r : Request} (h : r.creates = true) : r.ends = false := by
  cases r <;> first | rfl | exact nomatch h

/-- The node that a request takes from the storage, used or given back in the end. -/
def Request.taken (r : Request) (offer : Except Pool.Error NodeRef) : Option NodeRef :=
  if r.creates then offer.toOption else none

/-- The nodes that an answer names. -/
def Answer.nodes : Answer → List NodeRef
  | .node n => [n]
  | .head n => n.toList
  | _ => []

/-- The nodes that an answer names, unless it is an error. -/
def answered : Except Error Answer → List NodeRef
  | .ok a => a.nodes
  | .error _ => []

namespace Sequence

/-- The nodes of a sequence. -/
def nodes (s : Sequence) : List NodeRef := s.map Prod.fst

/-- The sequence with `new` directly behind `anchor`. -/
def behind (anchor : NodeRef) (new : NodeRef × UInt16) : Sequence → Sequence
  | [] => []
  | p :: rest => if p.1 = anchor then p :: new :: rest else p :: behind anchor new rest

/-- The sequence with `new` directly in front of `anchor`. -/
def inFront (anchor : NodeRef) (new : NodeRef × UInt16) : Sequence → Sequence
  | [] => []
  | p :: rest => if p.1 = anchor then new :: p :: rest else p :: inFront anchor new rest

/-- What is left of a sequence from `first`, or from the beginning, on. -/
def startingAt (first : Option NodeRef) (s : Sequence) : Sequence :=
  match first with
  | none => s
  | some node => s.dropWhile fun p => p.1 != node

/-- The values from `first`, or from the beginning, up to and including `last`. -/
def segment (first last : Option NodeRef) (s : Sequence) : List UInt16 :=
  match first with
  | none => upTo last s
  | some node => upTo last (s.dropWhile fun p => p.1 != node)

/-- Put a value at the node that is offered where `put` says, unless there is no
node or `put` refuses. -/
def add (offer : Except Pool.Error NodeRef) (v : UInt16)
    (put : NodeRef × UInt16 → Except Error Sequence) (s : Sequence) :
    Except Error Answer × Sequence :=
  match offer with
  | .error e => (.error (.allocationFailed e), s)
  | .ok node =>
    match put (node, v) with
    | .error e => (.error e, s)
    | .ok s' => (.ok (.node node), s')

/-- The answer to a request and the sequence after it. How full the pool is,
and so the answer to a request for it, is no matter of the sequence. -/
def step (offer : Except Pool.Error NodeRef) (s : Sequence) :
    Request → Except Error Answer × Sequence
  | .insert v => s.add offer v fun new => .ok (s ++ [new])
  | .insertAfter none _ => (.error .nullReference, s)
  | .insertAfter (some anchor) v => s.add offer v fun new =>
    if anchor ∈ s.nodes then .ok (s.behind anchor new) else .error .nullReference
  | .insertBefore none _ => (.error .nullReference, s)
  | .insertBefore (some anchor) v => s.add offer v fun new =>
    if anchor ∈ s.nodes then .ok (s.inFront anchor new) else .error .notFound
  | .delete v =>
    if v ∈ s.map Prod.snd then (.ok .done, s.eraseP fun p => p.2 == v) else (.error .notFound, s)
  | .search v =>
    match s.find? fun p => p.2 == v with
    | some p => (.ok (.node p.1), s)
    | none => (.error (if s.isEmpty then .empty else .notFound), s)
  | .get node =>
    match s.lookup node with
    | some v => (.ok (.value v), s)
    | none => (.error .nullReference, s)
  | .head => (.ok (.head s.nodes.head?), s)
  | .isEmpty => (.ok (.flag s.isEmpty), s)
  | .count => (.ok (.number s.length), s)
  | .segment first last => (.ok (.values (s.segment first last)), s)
  | .cleanUp => (.ok .done, [])
  | .stats => (.ok .done, s)

/-! ### At a split of the sequence -/

variable {pre post : Sequence} {node anchor : NodeRef} {v w : UInt16} {new : NodeRef × UInt16}
  {s : Sequence}

/-- A node of a sequence splits it where it occurs first. -/
theorem exists_split : ∀ {s : Sequence}, node ∈ s.nodes →
    ∃ pre v post, s = pre ++ (node, v) :: post ∧ node ∉ nodes pre
  | p :: rest, h => by
    by_cases hp : p.1 = node
    · exact ⟨[], p.2, rest, by rw [← hp]; rfl, by simp [nodes]⟩
    · have hrest : node ∈ nodes rest := by
        rcases List.mem_cons.1 h with h | h
        · exact absurd h.symm hp
        · exact h
      obtain ⟨pre, v, post, rfl, hpre⟩ := exists_split hrest
      refine ⟨p :: pre, v, post, rfl, ?_⟩
      intro h
      rcases List.mem_cons.1 h with h | h
      · exact hp h.symm
      · exact hpre h

theorem behind_append : ∀ {pre : Sequence}, anchor ∉ nodes pre →
    behind anchor new (pre ++ (anchor, w) :: post) = pre ++ (anchor, w) :: new :: post
  | [], _ => if_pos rfl
  | p :: pre, h => by
    have hp : p.1 ≠ anchor := fun he => h (List.mem_cons.2 (.inl he.symm))
    rw [List.cons_append, behind, if_neg hp, behind_append fun hm => h (List.mem_cons_of_mem _ hm)]
    rfl

theorem inFront_append : ∀ {pre : Sequence}, anchor ∉ nodes pre →
    inFront anchor new (pre ++ (anchor, w) :: post) = pre ++ new :: (anchor, w) :: post
  | [], _ => if_pos rfl
  | p :: pre, h => by
    have hp : p.1 ≠ anchor := fun he => h (List.mem_cons.2 (.inl he.symm))
    rw [List.cons_append, inFront, if_neg hp,
      inFront_append fun hm => h (List.mem_cons_of_mem _ hm)]
    rfl

theorem mem_nodes_append : node ∈ nodes (pre ++ (node, v) :: post) := by
  simp [nodes]

theorem find_append (h : ∀ p ∈ pre, p.2 ≠ v) :
    (pre ++ (node, v) :: post).find? (fun p => p.2 == v) = some (node, v) :=
  List.find?_eq_some_iff_append.2 ⟨by simp, pre, post, rfl, fun p hp => by simpa using h p hp⟩

theorem find_missed (h : ∀ p ∈ s, p.2 ≠ v) : s.find? (fun p => p.2 == v) = none :=
  List.find?_eq_none.2 fun p hp => by simpa using h p hp

theorem step_delete_append (offer : Except Pool.Error NodeRef) (h : ∀ p ∈ pre, p.2 ≠ v) :
    step offer (pre ++ (node, v) :: post) (.delete v) = (.ok .done, pre ++ post) := by
  rw [step, if_pos (by simp), List.eraseP_append_right _ fun p hp => by simpa using h p hp,
    List.eraseP_cons_of_pos (by simp)]

theorem step_delete_missed (offer : Except Pool.Error NodeRef) (h : ∀ p ∈ s, p.2 ≠ v) :
    step offer s (.delete v) = (.error .notFound, s) :=
  if_neg fun hm => by
    obtain ⟨p, hp, he⟩ := List.mem_map.1 hm
    exact h p hp he

theorem step_search_append (offer : Except Pool.Error NodeRef) (h : ∀ p ∈ pre, p.2 ≠ v) :
    step offer (pre ++ (node, v) :: post) (.search v) =
      (.ok (.node node), pre ++ (node, v) :: post) := by
  rw [step, find_append h]

theorem step_search_missed (offer : Except Pool.Error NodeRef) (h : ∀ p ∈ s, p.2 ≠ v)
    (hne : s ≠ []) : step offer s (.search v) = (.error .notFound, s) := by
  rw [step, find_missed h]
  cases s with
  | nil => exact absurd rfl hne
  | cons p rest => rfl

theorem step_get_append (offer : Except Pool.Error NodeRef) (h : node ∉ nodes pre) :
    step offer (pre ++ (node, v) :: post) (.get node) =
      (.ok (.value v), pre ++ (node, v) :: post) := by
  have hlookup : (pre ++ (node, v) :: post).lookup node = some v :=
    List.lookup_eq_some_iff.2 ⟨pre, post, rfl, fun p hp => bne_iff_ne.2 fun he =>
      h (List.mem_map.2 ⟨p, hp, he.symm⟩)⟩
  rw [step, hlookup]

theorem step_get_missed (offer : Except Pool.Error NodeRef) (h : node ∉ s.nodes) :
    step offer s (.get node) = (.error .nullReference, s) := by
  have hlookup : s.lookup node = none :=
    List.lookup_eq_none_iff.2 fun p hp => bne_iff_ne.2 fun he =>
      h (List.mem_map.2 ⟨p, hp, he.symm⟩)
  rw [step, hlookup]

theorem startingAt_append (h : node ∉ nodes pre) :
    startingAt (some node) (pre ++ (node, v) :: post) = (node, v) :: post := by
  rw [startingAt, List.dropWhile_append_of_pos fun p hp => bne_iff_ne.2 fun he =>
    h (List.mem_map.2 ⟨p, hp, he⟩), List.dropWhile_cons_of_neg (by simp)]

theorem startingAt_missed (h : node ∉ s.nodes) : startingAt (some node) s = [] := by
  have hdrop : List.dropWhile (fun p : NodeRef × UInt16 => p.1 != node) (s ++ []) = [] :=
    List.dropWhile_append_of_pos fun p hp => bne_iff_ne.2 fun he => h (List.mem_map.2 ⟨p, hp, he⟩)
  rw [List.append_nil] at hdrop
  exact hdrop

theorem startingAt_suffix (first : Option NodeRef) (s : Sequence) : s.startingAt first <:+ s := by
  cases first with
  | none => exact List.suffix_refl s
  | some node => exact List.dropWhile_suffix _

theorem segment_eq_upTo (first last : Option NodeRef) (s : Sequence) :
    s.segment first last = upTo last (s.startingAt first) := by
  cases first <;> rfl

theorem segment_missed (last : Option NodeRef) (h : node ∉ s.nodes) :
    segment (some node) last s = [] := by
  rw [segment_eq_upTo, startingAt_missed h]
  rfl

/-! ### The nodes that come up -/

theorem mem_nodes_behind : ∀ {s : Sequence}, node ∈ nodes (behind anchor new s) →
    node ∈ nodes s ∨ node = new.1
  | p :: rest, h => by
    rw [behind] at h
    split at h
    · simp only [nodes, List.map_cons, List.mem_cons] at h ⊢
      rcases h with h | h | h
      · exact .inl (.inl h)
      · exact .inr h
      · exact .inl (.inr h)
    · rcases List.mem_cons.1 h with h | h
      · exact .inl (List.mem_cons.2 (.inl h))
      · exact (mem_nodes_behind h).imp_left (List.mem_cons_of_mem _)

theorem mem_nodes_inFront : ∀ {s : Sequence}, node ∈ nodes (inFront anchor new s) →
    node ∈ nodes s ∨ node = new.1
  | p :: rest, h => by
    rw [inFront] at h
    split at h
    · rcases List.mem_cons.1 h with h | h
      · exact .inr h
      · exact .inl h
    · rcases List.mem_cons.1 h with h | h
      · exact .inl (List.mem_cons.2 (.inl h))
      · exact (mem_nodes_inFront h).imp_left (List.mem_cons_of_mem _)

theorem mem_nodes_add {offer : Except Pool.Error NodeRef}
    {put : NodeRef × UInt16 → Except Error Sequence}
    (hput : ∀ new s', put new = .ok s' → node ∈ nodes s' → node ∈ s.nodes ∨ node = new.1)
    (h : node ∈ nodes (s.add offer v put).2) :
    node ∈ s.nodes ∨ offer.toOption = some node ∧ (s.add offer v put).1 = .ok (.node node) := by
  cases offer with
  | error e => exact .inl h
  | ok n =>
    simp only [add] at h ⊢
    cases hp : put (n, v) with
    | error e =>
      rw [hp] at h
      exact .inl h
    | ok s' =>
      rw [hp] at h
      exact (hput _ s' hp h).imp_right fun he => ⟨congrArg some he.symm, by rw [he]⟩

/-- A node of the sequence afterwards was in it before, or is the one that was
offered, and then the answer names it. -/
theorem mem_nodes_step (offer : Except Pool.Error NodeRef) (s : Sequence) (r : Request)
    (h : node ∈ nodes (s.step offer r).2) :
    node ∈ s.nodes ∨ r.taken offer = some node ∧ (s.step offer r).1 = .ok (.node node) := by
  cases r with
  | insert v =>
    refine mem_nodes_add ?_ h
    intro new s' hs hm
    obtain rfl := Except.ok.inj hs
    simpa [nodes] using hm
  | insertAfter anchor v =>
    cases anchor with
    | none => exact .inl h
    | some anchor =>
      refine mem_nodes_add ?_ h
      intro new s' hs hm
      split at hs
      · obtain rfl := Except.ok.inj hs
        exact mem_nodes_behind hm
      · exact nomatch hs
  | insertBefore anchor v =>
    cases anchor with
    | none => exact .inl h
    | some anchor =>
      refine mem_nodes_add ?_ h
      intro new s' hs hm
      split at hs
      · obtain rfl := Except.ok.inj hs
        exact mem_nodes_inFront hm
      · exact nomatch hs
  | delete v =>
    rw [step] at h
    split at h
    · exact .inl (((List.eraseP_sublist).map Prod.fst).subset h)
    · exact .inl h
  | search v => rw [step] at h; split at h <;> exact .inl h
  | get n => rw [step] at h; split at h <;> exact .inl h
  | cleanUp => exact nomatch h
  | _ => exact .inl h

theorem mem_answered_add {offer : Except Pool.Error NodeRef}
    {put : NodeRef × UInt16 → Except Error Sequence}
    (h : node ∈ answered (s.add offer v put).1) : offer.toOption = some node := by
  cases offer with
  | error e => exact nomatch h
  | ok n =>
    simp only [add] at h
    cases hp : put (n, v) with
    | error e => rw [hp] at h; exact nomatch h
    | ok s' => rw [hp] at h; exact congrArg some (List.mem_singleton.1 h).symm

/-- A node that an answer names is of the sequence, or is the one that was offered. -/
theorem mem_answered_step (offer : Except Pool.Error NodeRef) (s : Sequence) (r : Request)
    (h : node ∈ answered (s.step offer r).1) :
    node ∈ s.nodes ∨ r.taken offer = some node := by
  cases r with
  | insert v => exact .inr (mem_answered_add h)
  | insertAfter anchor v =>
    cases anchor with
    | none => exact nomatch h
    | some anchor => exact .inr (mem_answered_add h)
  | insertBefore anchor v =>
    cases anchor with
    | none => exact nomatch h
    | some anchor => exact .inr (mem_answered_add h)
  | delete v => rw [step] at h; split at h <;> exact nomatch h
  | search v =>
    rw [step] at h
    split at h
    · rename_i p hfind
      obtain rfl := List.mem_singleton.1 h
      exact .inl (List.mem_map.2 ⟨p, List.mem_of_find?_eq_some hfind, rfl⟩)
    · exact nomatch h
  | get n => rw [step] at h; split at h <;> exact nomatch h
  | head => exact .inl (List.mem_of_mem_head? (Option.mem_toList.1 h))
  | _ => exact nomatch h

end Sequence
end Chain
end FirstFit
