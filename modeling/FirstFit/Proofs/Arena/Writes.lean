/-
# Accesses to an arena

An access lies in range or faults, and a write that faults leaves every byte as
it was: it ends at the claim, before the first byte. A write in range changes
the places it covers and no others. So what a row of writes leaves at a place is
what the last of them that covers it has for it, and writes without a common
place can be made in either order.

Key definitions: `Arena.Write`, `Write.ending`, `Write.after`, `Write.at?`,
`Arena.Laws`.
Key theorems: `Write.ending_of_lt`, `Write.ending_of_le`, `byte_after`,
`byte_afterAll`, `Write.perform_comm`, `load32_halves`, `laws_of_accesses`.
-/
import Mathlib.Tactic.Ring
import FirstFit.Proofs.Arena
import FirstFit.Proofs.Layout.WellFormed

namespace FirstFit

theorem Checked.map_faults_iff {α β : Type} (x : Checked α) (f : α → β) :
    (∃ e, x.map f = .error e) ↔ ∃ e, x = .error e := by
  cases x with
  | error e => exact ⟨fun _ => ⟨e, rfl⟩, fun _ => ⟨e, rfl⟩⟩
  | ok v => exact ⟨fun ⟨_, h⟩ => (nomatch h), fun ⟨_, h⟩ => (nomatch h)⟩

/-- Of a number in two pieces the first gives the lower bytes. -/
theorem LittleEndian.decode_append : ∀ bs cs : List UInt8,
    decode (bs ++ cs) = decode bs + 256 ^ bs.length * decode cs
  | [], cs => by simp [decode]
  | b :: bs, cs => by
    rw [List.cons_append, decode, decode_append bs cs, decode, List.length_cons, Nat.pow_succ']
    ring

namespace Arena

variable {a a' : Arena} {offset len : Nat}

/-- A write to an arena, as a value. -/
inductive Write where
  | store (offset : Nat) (new : List UInt8)
  | fill (offset len : Nat) (value : UInt8)
  | store16 (offset : Nat) (v : UInt16)
  | store32 (offset : Nat) (v : UInt32)
  deriving DecidableEq, Repr

namespace Write

/-- The first place that is written. -/
def start : Write → Nat
  | store offset _ | fill offset _ _ | store16 offset _ | store32 offset _ => offset

/-- The bytes that are written there and behind it. -/
def bytes : Write → List UInt8
  | store _ new => new
  | fill _ len value => List.replicate len value
  | store16 _ v => LittleEndian.encode 2 v.toNat
  | store32 _ v => LittleEndian.encode 4 v.toNat

/-- One past the last place that is written. -/
def stop (w : Write) : Nat := w.start + w.bytes.length

def perform (a : Arena) : Write → Checked Arena
  | store offset new => a.store offset new
  | fill offset len value => a.fill offset len value
  | store16 offset v => a.store16 offset v
  | store32 offset v => a.store32 offset v

/-- How a write ends. -/
def ending (a : Arena) : Write → Ending
  | store offset new => a.storing offset new
  | fill offset len value => a.filling offset len value
  | store16 offset v => a.storing offset (LittleEndian.encode 2 v.toNat)
  | store32 offset v => a.storing offset (LittleEndian.encode 4 v.toNat)

/-- The arena as a write leaves it, also one that faults. -/
def after (w : Write) (a : Arena) : Arena := (w.ending a).arena

/-- What a write has for the place `i`, if it covers that place. -/
def at? (w : Write) (i : Nat) : Option UInt8 :=
  if w.start ≤ i then w.bytes[i - w.start]? else none

/-- What a write leaves at the place `i` of an arena of `capacity` bytes. -/
def left? (capacity : Nat) (w : Write) (i : Nat) : Option UInt8 :=
  if w.stop ≤ capacity then w.at? i else none

/-- No place is covered by both writes. -/
def Apart (w w' : Write) : Prop := ∀ i, w.at? i = none ∨ w'.at? i = none

variable {w w' : Write}

/-! ### One write -/

/-- Every write is a store of its bytes. -/
theorem ending_eq (w : Write) (a : Arena) : w.ending a = a.storing w.start w.bytes := by
  cases w with
  | fill offset len value => exact filling_eq a offset len value
  | _ => rfl

/-- What a write answers is told by how it ends. -/
theorem perform_eq (w : Write) (a : Arena) : w.perform a = (w.ending a).outcome := by
  cases w <;> rfl

theorem ending_of_lt (h : a.capacity < w.stop) : w.ending a = .faulted .range a := by
  rw [ending_eq]
  exact storing_of_not (Nat.not_le_of_lt h)

theorem ending_of_le (h : w.stop ≤ a.capacity) :
    w.ending a = .done (a.written w.start w.bytes) := by
  rw [ending_eq]
  exact storing_eq h

theorem perform_of_lt (h : a.capacity < w.stop) : w.perform a = .error .range := by
  rw [perform_eq, ending_of_lt h, Ending.outcome]

theorem after_of_lt (h : a.capacity < w.stop) : w.after a = a := by
  rw [after, ending_of_lt h, Ending.arena]

theorem after_of_le (h : w.stop ≤ a.capacity) : w.after a = a.written w.start w.bytes := by
  rw [after, ending_of_le h, Ending.arena]

theorem perform_of_le (h : w.stop ≤ a.capacity) : w.perform a = .ok (w.after a) := by
  rw [after_of_le h, perform_eq, ending_of_le h, Ending.outcome]

/-- A write that faults has changed nothing. -/
theorem eq_of_faulted {f : Fault} (h : w.ending a = .faulted f a') : a' = a := by
  by_cases hin : w.stop ≤ a.capacity
  · rw [ending_of_le hin] at h
    cases h
  · rw [ending_of_lt (Nat.lt_of_not_le hin)] at h
    cases h
    rfl

/-- A write faults if it ends past the last byte, and never else. -/
theorem faults_iff (w : Write) (a : Arena) :
    (∃ f, w.perform a = .error f) ↔ a.capacity < w.stop := by
  constructor
  · rintro ⟨f, h⟩
    by_contra hin
    exact nomatch h.symm.trans (perform_of_le (Nat.le_of_not_lt hin))
  · intro hout
    exact ⟨_, perform_of_lt hout⟩

theorem stop_le_of_ok (h : w.perform a = .ok a') : w.stop ≤ a.capacity ∧ w.after a = a' := by
  by_cases hin : w.stop ≤ a.capacity
  · exact ⟨hin, Except.ok.inj ((perform_of_le hin).symm.trans h)⟩
  · exact nomatch (perform_of_lt (Nat.lt_of_not_le hin)).symm.trans h

@[simp] theorem id_after (w : Write) (a : Arena) : (w.after a).id = a.id := by
  by_cases hin : w.stop ≤ a.capacity
  · rw [after_of_le hin, id_written]
  · rw [after_of_lt (Nat.lt_of_not_le hin)]

@[simp] theorem capacity_after (w : Write) (a : Arena) : (w.after a).capacity = a.capacity := by
  by_cases hin : w.stop ≤ a.capacity
  · rw [after_of_le hin, capacity_written]
  · rw [after_of_lt (Nat.lt_of_not_le hin)]

/-- The places that a write reaches show its bytes, the others those from before. -/
theorem byte_after (w : Write) (a : Arena) (i : Nat) :
    (w.after a).byte i = (w.left? a.capacity i).getD (a.byte i) := by
  unfold left?
  by_cases hin : w.stop ≤ a.capacity
  · rw [after_of_le hin, byte_written hin, if_pos hin, at?]
    by_cases hstart : w.start ≤ i
    · rw [if_pos hstart]
      by_cases hstop : i < w.start + w.bytes.length
      · have hlt : i - w.start < w.bytes.length := by omega
        rw [if_pos ⟨hstart, hstop⟩, List.getD_eq_getElem?_getD, List.getElem?_eq_getElem hlt]
        rfl
      · rw [if_neg fun h => hstop h.2, List.getElem?_eq_none (by omega)]
        rfl
    · rw [if_neg hstart, if_neg fun h => hstart h.1]
      rfl
  · rw [after_of_lt (Nat.lt_of_not_le hin), if_neg hin]
    rfl

/-! ### Several writes -/

/-- What one of two writes leaves at a place hides what the other leaves nowhere. -/
theorem Apart.left_or (h : w.Apart w') (capacity i : Nat) :
    (w'.left? capacity i).or (w.left? capacity i) =
      (w.left? capacity i).or (w'.left? capacity i) := by
  have hnone : ∀ {w : Write}, w.at? i = none → w.left? capacity i = none := by
    intro w hw
    unfold left?
    rw [hw, ite_self]
  rcases h i with hw | hw
  · rw [hnone hw, Option.none_or, Option.or_none]
  · rw [hnone hw, Option.none_or, Option.or_none]

/-- The second of two writes shows where it reaches, and elsewhere the first does. -/
theorem byte_after_after (w w' : Write) (a : Arena) (i : Nat) :
    (w'.after (w.after a)).byte i =
      ((w'.left? a.capacity i).or (w.left? a.capacity i)).getD (a.byte i) := by
  rw [byte_after, byte_after, capacity_after]
  cases w'.left? a.capacity i <;> rfl

theorem after_comm (h : w.Apart w') (a : Arena) :
    w'.after (w.after a) = w.after (w'.after a) := by
  apply ext_byte
  · rw [id_after, id_after, id_after, id_after]
  · rw [capacity_after, capacity_after, capacity_after, capacity_after]
  · intro i
    rw [byte_after_after, byte_after_after, h.left_or]

/-- Two writes, one after the other: both are in range, or one of them faults. -/
theorem perform_then (w w' : Write) (a : Arena) :
    (w.perform a >>= fun b => w'.perform b) =
      if w.stop ≤ a.capacity ∧ w'.stop ≤ a.capacity then .ok (w'.after (w.after a))
      else .error .range := by
  by_cases hw : w.stop ≤ a.capacity
  · rw [perform_of_le hw, Checked.ok_bind]
    by_cases hw' : w'.stop ≤ a.capacity
    · rw [if_pos ⟨hw, hw'⟩, perform_of_le (by rwa [capacity_after])]
    · rw [if_neg fun h => hw' h.2]
      apply perform_of_lt
      rw [capacity_after]
      exact Nat.lt_of_not_le hw'
  · rw [if_neg fun h => hw h.1, perform_of_lt (Nat.lt_of_not_le hw)]
    rfl

/-- Writes without a common place have the same result in either order, also if
one of them faults. -/
theorem perform_comm (h : w.Apart w') (a : Arena) :
    (w.perform a >>= fun b => w'.perform b) = (w'.perform a >>= fun b => w.perform b) := by
  rw [perform_then, perform_then, after_comm h]
  simp only [and_comm]

/-- What is written is read back. -/
theorem slice_of_ok (h : w.perform a = .ok a') :
    a'.Holds w.start w.bytes.length ∧ a'.slice w.start w.bytes.length = w.bytes := by
  obtain ⟨hin, rfl⟩ := stop_le_of_ok h
  refine ⟨?_, ?_⟩
  · show w.stop ≤ (w.after a).capacity
    rwa [capacity_after]
  · rw [after_of_le hin]
    exact slice_overwrite a.id a.bytes w.start w.bytes hin

end Write

/-- The arena after writes one behind another, each of which may fault. -/
def afterAll (a : Arena) (ws : List Write) : Arena := ws.foldl (fun a w => w.after a) a

/-- What the last of the writes that reach the place `i` leaves there. -/
def lastLeft? (capacity i : Nat) : List Write → Option UInt8
  | [] => none
  | w :: ws => (lastLeft? capacity i ws).or (w.left? capacity i)

/-- After any row of writes a place shows what the last that reached it left. -/
theorem byte_afterAll (i : Nat) : ∀ (ws : List Write) (a : Arena),
    (a.afterAll ws).byte i = (lastLeft? a.capacity i ws).getD (a.byte i)
  | [], _ => rfl
  | w :: ws, a => by
    show ((w.after a).afterAll ws).byte i = _
    rw [byte_afterAll i ws, Write.capacity_after, Write.byte_after, lastLeft?]
    cases lastLeft? a.capacity i ws <;> rfl

/-! ### Reading -/

theorem load_faults_iff (a : Arena) (offset len : Nat) :
    (∃ f, a.load offset len = .error f) ↔ a.capacity < offset + len := by
  by_cases h : a.Holds offset len
  · rw [load_eq h]
    exact ⟨fun ⟨_, h⟩ => (nomatch h), fun hlt => absurd h (Nat.not_le_of_lt hlt)⟩
  · rw [load, if_neg h]
    exact ⟨fun _ => Nat.lt_of_not_le h, fun _ => ⟨_, rfl⟩⟩

/-- Two bytes are a number below `65536`. -/
theorem toNat_word16 (a : Arena) (offset : Nat) :
    (UInt16.ofNat (LittleEndian.decode (a.slice offset 2))).toNat =
      LittleEndian.decode (a.slice offset 2) := by
  have hlt := LittleEndian.decode_lt (a.slice offset 2)
  rw [length_slice] at hlt
  exact UInt16.toNat_ofNat_of_lt' hlt

/-- A word of four bytes is made of the two words of two bytes in it, the lower
one first. -/
theorem load32_halves (h : a.Holds offset 4) :
    ∃ word low high, a.load32 offset = .ok word ∧ a.load16 offset = .ok low ∧
      a.load16 (offset + 2) = .ok high ∧ word.toNat = low.toNat + 65536 * high.toNat := by
  have hlow : a.Holds offset 2 := Nat.le_trans (by omega) h
  have hhigh : a.Holds (offset + 2) 2 := Nat.le_trans (by omega) h
  refine ⟨_, _, _, by rw [load32_eq, load_eq h]; rfl, by rw [load16_eq, load_eq hlow]; rfl,
    by rw [load16_eq, load_eq hhigh]; rfl, ?_⟩
  have hlt := LittleEndian.decode_lt (a.slice offset 4)
  rw [length_slice] at hlt
  rw [UInt32.toNat_ofNat_of_lt' hlt, toNat_word16, toNat_word16, slice_append a offset 2 2,
    LittleEndian.decode_append, length_slice]
  rfl

theorem load16_store16 {v : UInt16} (h : a.store16 offset v = .ok a') :
    a'.load16 offset = .ok v := by
  obtain ⟨hin, hslice⟩ := @Write.slice_of_ok a a' (.store16 offset v) h
  exact load16_of_slice hin hslice

theorem load32_store32 {v : UInt32} (h : a.store32 offset v = .ok a') :
    a'.load32 offset = .ok v := by
  obtain ⟨hin, hslice⟩ := @Write.slice_of_ok a a' (.store32 offset v) h
  exact load32_of_slice hin hslice

/-! ### All accesses -/

/-- On a machine whose sums wrap around at `2 ^ 64`, a range that would end
behind the last address ends before it begins. -/
theorem holds_iff_wrapped (hcapacity : a.capacity < Size.bound) (hoffset : offset < Size.bound)
    (hlen : len < Size.bound) :
    a.Holds offset len ↔ offset ≤ (offset + len) % Size.bound ∧
      (offset + len) % Size.bound ≤ a.capacity := by
  unfold Holds
  by_cases hsum : offset + len < Size.bound
  · rw [Nat.mod_eq_of_lt hsum]
    exact ⟨fun h => ⟨Nat.le_add_right _ _, h⟩, And.right⟩
  · have hwrapped : (offset + len) % Size.bound = offset + len - Size.bound := by
      rw [Nat.mod_eq_sub_mod (Nat.le_of_not_lt hsum), Nat.mod_eq_of_lt (by omega)]
    rw [hwrapped]
    omega

/-- What the accesses to an arena answer and leave. -/
structure Laws (a : Arena) : Prop where
  load_faults : ∀ offset len, (∃ f, a.load offset len = .error f) ↔ a.capacity < offset + len
  load16_faults : ∀ offset, (∃ f, a.load16 offset = .error f) ↔ a.capacity < offset + 2
  load32_faults : ∀ offset, (∃ f, a.load32 offset = .error f) ↔ a.capacity < offset + 4
  store_faults : ∀ offset new,
    (∃ f, a.store offset new = .error f) ↔ a.capacity < offset + new.length
  fill_faults : ∀ offset len value,
    (∃ f, a.fill offset len value = .error f) ↔ a.capacity < offset + len
  /-- The range may be checked with a sum that wraps around. -/
  wrapped : a.capacity < Size.bound → ∀ offset len, offset < Size.bound → len < Size.bound →
    (a.Holds offset len ↔ offset ≤ (offset + len) % Size.bound ∧
      (offset + len) % Size.bound ≤ a.capacity)
  loaded : ∀ offset len bs, a.load offset len = .ok bs →
    bs.length = len ∧ ∀ i < len, bs.getD i 0 = a.byte (offset + i)
  /-- What a write answers is told by how it ends. -/
  answered : ∀ w : Write, w.perform a = (w.ending a).outcome
  /-- A write that faults ends with nothing written. -/
  unwritten : ∀ (w : Write) f b, w.ending a = .faulted f b → b = a
  /-- A write that does not has written its bytes, and nothing else. -/
  exactly : ∀ (w : Write) a', w.perform a = .ok a' →
    a'.id = a.id ∧ a'.capacity = a.capacity ∧ ∀ i, a'.byte i = (w.at? i).getD (a.byte i)
  word16 : ∀ offset v a', a.store16 offset v = .ok a' → a'.load16 offset = .ok v
  word32 : ∀ offset v a', a.store32 offset v = .ok a' → a'.load32 offset = .ok v
  halves : ∀ offset, offset + 4 ≤ a.capacity → ∃ word low high, a.load32 offset = .ok word ∧
    a.load16 offset = .ok low ∧ a.load16 (offset + 2) = .ok high ∧
    word.toNat = low.toNat + 65536 * high.toNat
  /-- Writes without a common place commute, whether or not they fault. -/
  commute : ∀ w w' : Write, w.Apart w' →
    (w.perform a >>= fun b => w'.perform b) = (w'.perform a >>= fun b => w.perform b) ∧
    w'.after (w.after a) = w.after (w'.after a)
  /-- Of two writes the later one shows wherever it covers the earlier one, and only there. -/
  later : ∀ (w w' : Write) b c, w.perform a = .ok b → w'.perform b = .ok c → ∀ i,
    c.byte i = ((w'.at? i).or (w.at? i)).getD (a.byte i)
  /-- So it is with any row of writes, those that fault left out. -/
  last : ∀ ws i, (a.afterAll ws).byte i = (lastLeft? a.capacity i ws).getD (a.byte i)

/-- The laws hold of every arena, whatever it is that lies in it, at every offset
and for every length. -/
theorem laws_of_accesses (a : Arena) : a.Laws where
  load_faults := a.load_faults_iff
  load16_faults offset := by
    rw [load16_eq]
    exact (Checked.map_faults_iff _ _).trans (a.load_faults_iff offset 2)
  load32_faults offset := by
    rw [load32_eq]
    exact (Checked.map_faults_iff _ _).trans (a.load_faults_iff offset 4)
  store_faults offset new := Write.faults_iff (.store offset new) a
  fill_faults offset len value := by
    have h := Write.faults_iff (.fill offset len value) a
    rwa [Write.stop, Write.bytes, List.length_replicate] at h
  wrapped hcapacity _ _ := holds_iff_wrapped hcapacity
  loaded offset len bs h := by
    by_cases hin : a.Holds offset len
    · obtain rfl := Except.ok.inj ((load_eq hin).symm.trans h)
      exact ⟨length_slice a offset len, getD_slice a offset len⟩
    · rw [load, if_neg hin] at h
      cases h
  answered w := w.perform_eq a
  unwritten _ _ _ h := Write.eq_of_faulted h
  exactly w a' h := by
    obtain ⟨hin, rfl⟩ := Write.stop_le_of_ok h
    refine ⟨w.id_after a, w.capacity_after a, fun i => ?_⟩
    rw [Write.byte_after, Write.left?, if_pos hin]
  word16 _ _ _ := load16_store16
  word32 _ _ _ := load32_store32
  halves _ := load32_halves
  commute _ _ h := ⟨Write.perform_comm h a, Write.after_comm h a⟩
  later w w' b c h h' i := by
    obtain ⟨hin, rfl⟩ := Write.stop_le_of_ok h
    obtain ⟨hin', rfl⟩ := Write.stop_le_of_ok h'
    rw [Write.capacity_after] at hin'
    rw [Write.byte_after_after, Write.left?, Write.left?, if_pos hin, if_pos hin']
  last ws i := byte_afterAll i ws a

/-- At odd offsets a word is covered in part by a shorter one, one at the end is
in range, and one at the highest address would end at the lowest. -/
theorem laws_of_accesses_odd :
    let a : Arena := ⟨⟨1⟩, ⟨Array.replicate 9 0⟩⟩
    let low : Write := .store32 1 0x04030201
    let high : Write := .store16 3 0xBEEF
    a.Laws ∧ low.perform a = .ok (low.after a) ∧
      high.perform (low.after a) = .ok (high.after (low.after a)) ∧
      (high.after (low.after a)).byte 2 = 0x02 ∧ (high.after (low.after a)).byte 3 = 0xEF ∧
      (high.after (low.after a)).load32 1 = .ok 0xBEEF0201 ∧
      (a.fill 5 4 7).isOk = true ∧ ∃ f, a.load (2 ^ 64 - 1) 1 = .error f := by
  intro a low high
  have hlaws := laws_of_accesses a
  have hlow : low.perform a = .ok (low.after a) := by decide
  have hhigh : high.perform (low.after a) = .ok (high.after (low.after a)) := by decide
  have hlater := hlaws.later low high _ _ hlow hhigh
  exact ⟨hlaws, hlow, hhigh, (hlater 2).trans (by decide), (hlater 3).trans (by decide),
    by decide, by decide, (hlaws.load_faults _ _).2 (by decide)⟩

end Arena
end FirstFit
