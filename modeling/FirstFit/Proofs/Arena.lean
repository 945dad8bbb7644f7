/-
# The bytes of an arena after an access

An access inside the arena has a result, and the bytes after it are those that
were written where they were written, and the old ones elsewhere. A write that
goes byte by byte leaves what it has written when it runs past the end; one
that claims its range first leaves nothing then.

Key definitions: `Arena.overwrite`, `Arena.written`, `Arena.Rewritten`.
Key theorems: `writeBytes_eq`, `storing_eq`, `storing_of_not`, `store_eq`,
`fill_eq`, `byte_written`, `slice_written`, `slice_written_of_disjoint`.
-/
import FirstFit.Arena

namespace FirstFit
namespace Arena

variable {a a' : Arena} {offset len i : Nat} {new : List UInt8}

/-! ### Writing over bytes -/

/-- The bytes with `b` written over the one at `offset`, if there is one. -/
def put (bytes : ByteArray) (offset : Nat) (b : UInt8) : ByteArray :=
  if h : offset < bytes.size then bytes.set offset b h else bytes

/-- The bytes with `new` written over those from `offset` on. -/
def overwrite (bytes : ByteArray) : Nat → List UInt8 → ByteArray
  | _, [] => bytes
  | offset, b :: new => overwrite (put bytes offset b) (offset + 1) new

theorem data_put (bytes : ByteArray) (offset : Nat) (b : UInt8) :
    (put bytes offset b).data = bytes.data.setIfInBounds offset b := by
  rw [put, Array.setIfInBounds]
  by_cases h : offset < bytes.size
  · rw [dif_pos h, dif_pos (show offset < bytes.data.size from h), ByteArray.data_set]
  · rw [dif_neg h, dif_neg (show ¬ offset < bytes.data.size from h)]

@[simp] theorem size_put (bytes : ByteArray) (offset : Nat) (b : UInt8) :
    (put bytes offset b).size = bytes.size := by
  rw [← ByteArray.size_data, data_put, Array.size_setIfInBounds, ByteArray.size_data]

/-- Past the end there is nothing to write over. -/
theorem overwrite_of_le (bytes : ByteArray) : ∀ {offset : Nat} {new : List UInt8},
    bytes.size ≤ offset → overwrite bytes offset new = bytes
  | _, [], _ => rfl
  | offset, b :: new, h => by
    rw [overwrite, put, dif_neg (Nat.not_lt_of_le h)]
    exact overwrite_of_le bytes (Nat.le_succ_of_le h)

@[simp] theorem size_overwrite : ∀ (bytes : ByteArray) (offset : Nat) (new : List UInt8),
    (overwrite bytes offset new).size = bytes.size
  | _, _, [] => rfl
  | bytes, offset, b :: new => by rw [overwrite, size_overwrite, size_put]

/-- The new byte shows where it was put, elsewhere the old ones do. -/
theorem byte_put (id : ArenaId) (bytes : ByteArray) (offset : Nat) (b : UInt8) (i : Nat) :
    (Arena.mk id (put bytes offset b)).byte i =
      if i = offset ∧ i < bytes.size then b else (Arena.mk id bytes).byte i := by
  rw [byte_eq_getD, byte_eq_getD, data_put]
  by_cases hi : i < bytes.size
  · by_cases he : i = offset
    · subst he
      simp [Array.getD, hi]
    · simp [Array.getD, hi, he, Ne.symm he]
  · simp [Array.getD, hi]

/-- Inside the range that is written the new bytes show, elsewhere the old ones. -/
theorem byte_overwrite (id : ArenaId) :
    ∀ (bytes : ByteArray) (offset : Nat) (new : List UInt8) (i : Nat),
    (Arena.mk id (overwrite bytes offset new)).byte i =
      if offset ≤ i ∧ i < offset + new.length ∧ i < bytes.size then new.getD (i - offset) 0
      else (Arena.mk id bytes).byte i
  | bytes, offset, [], i => by
    have h : ¬ (offset ≤ i ∧ i < offset + ([] : List UInt8).length ∧ i < bytes.size) := by
      simp only [List.length_nil]; omega
    rw [overwrite, if_neg h]
  | bytes, offset, b :: new, i => by
    rw [overwrite, byte_overwrite id, size_put, byte_put, List.length_cons]
    by_cases hr : offset + 1 ≤ i ∧ i < offset + 1 + new.length ∧ i < bytes.size
    · obtain ⟨k, rfl⟩ : ∃ k, i = offset + 1 + k := ⟨i - offset - 1, by omega⟩
      have h1 : offset + 1 + k - (offset + 1) = k := by omega
      have h2 : offset + 1 + k - offset = k + 1 := by omega
      rw [if_pos hr, if_pos (by omega), h1, h2, List.getD_cons_succ]
    · rw [if_neg hr]
      by_cases he : i = offset ∧ i < bytes.size
      · rw [if_pos he, if_pos (by omega), he.1, Nat.sub_self, List.getD_cons_zero]
      · rw [if_neg he, if_neg (by omega)]

/-- What is written at an offset is read back there. -/
theorem slice_overwrite (id : ArenaId) (bytes : ByteArray) (offset : Nat) (new : List UInt8)
    (h : offset + new.length ≤ bytes.size) :
    (Arena.mk id (overwrite bytes offset new)).slice offset new.length = new := by
  refine List.ext_getElem (length_slice _ _ _) fun i h1 h2 => ?_
  have hs := getD_slice (Arena.mk id (overwrite bytes offset new)) offset new.length i h2
  rw [byte_overwrite, if_pos (by omega), Nat.add_sub_cancel_left] at hs
  simpa [List.getD_eq_getElem?_getD, h1, h2] using hs

/-- The arena with `new` written over the bytes from `offset` on. -/
def written (a : Arena) (offset : Nat) (new : List UInt8) : Arena :=
  { a with bytes := overwrite a.bytes offset new }

@[simp] theorem id_written : (a.written offset new).id = a.id := rfl

@[simp] theorem capacity_written : (a.written offset new).capacity = a.capacity :=
  size_overwrite _ _ _

/-! ### What a write comes to -/

theorem writeBytes_cons {b : UInt8} (h : offset < a.capacity) :
    writeBytes offset (b :: new) a = writeBytes (offset + 1) new ⟨a.id, put a.bytes offset b⟩ := by
  rw [put, dif_pos (show offset < a.bytes.size from h)]
  exact dif_pos h

/-- Byte by byte the whole range is written, if it lies inside the arena. -/
theorem writeBytes_eq : ∀ {new : List UInt8} {offset : Nat} {a : Arena},
    a.Holds offset new.length → writeBytes offset new a = .done (a.written offset new)
  | [], _, _, _ => rfl
  | b :: new, offset, a, h => by
    have hcap : offset + (new.length + 1) ≤ a.bytes.size := h
    have hrest : (Arena.mk a.id (put a.bytes offset b)).Holds (offset + 1) new.length := by
      show offset + 1 + new.length ≤ (put a.bytes offset b).size
      rw [size_put]
      omega
    rw [writeBytes_cons (show offset < a.bytes.size by omega), writeBytes_eq hrest]
    rfl

/-- It is for the claim that nothing is written by a write that faults: byte by
byte, one that runs past the end has written all that lies before the end. -/
theorem writeBytes_of_lt : ∀ {new : List UInt8} {offset : Nat} {a : Arena},
    offset ≤ a.capacity → a.capacity < offset + new.length →
    writeBytes offset new a = .faulted .range (a.written offset new)
  | [], _, _, hin, hout => absurd hout (Nat.not_lt_of_le hin)
  | b :: new, offset, a, hin, hout => by
    rw [List.length_cons] at hout
    rcases Nat.lt_or_eq_of_le hin with hlt | hend
    · have hput : (Arena.mk a.id (put a.bytes offset b)).capacity = a.capacity := size_put _ _ _
      rw [writeBytes_cons hlt, writeBytes_of_lt (hput ▸ hlt) (by omega)]
      rfl
    · have hpast : ¬ offset < a.bytes.size := Nat.not_lt_of_le (Nat.le_of_eq hend.symm)
      rw [written, overwrite_of_le _ (Nat.le_of_eq hend.symm)]
      exact dif_neg hpast

example : writeBytes 1 [7, 8] ⟨⟨1⟩, ⟨#[0, 0]⟩⟩ = .faulted .range ⟨⟨1⟩, ⟨#[0, 7]⟩⟩ := rfl

theorem storing_eq (h : a.Holds offset new.length) :
    a.storing offset new = .done (a.written offset new) :=
  (if_pos h).trans (writeBytes_eq h)

/-- A write whose range cannot be claimed has not begun. -/
theorem storing_of_not (h : ¬ a.Holds offset new.length) :
    a.storing offset new = .faulted .range a :=
  if_neg h

/-- To fill a range is to store the same byte all over it. -/
theorem filling_eq (a : Arena) (offset len : Nat) (value : UInt8) :
    a.filling offset len value = a.storing offset (List.replicate len value) := by
  rw [storing, List.length_replicate, filling]

theorem store_eq (h : a.Holds offset new.length) :
    a.store offset new = .ok (a.written offset new) := by
  rw [store, storing_eq h, Ending.outcome]

theorem store_of_not (h : ¬ a.Holds offset new.length) : a.store offset new = .error .range := by
  rw [store, storing_of_not h, Ending.outcome]

theorem written_of_store (h : a.store offset new = .ok a') : a' = a.written offset new := by
  by_cases hin : a.Holds offset new.length
  · exact Except.ok.inj (h.symm.trans (store_eq hin))
  · exact nomatch h.symm.trans (store_of_not hin)

theorem fill_eq {value : UInt8} (h : a.Holds offset len) :
    a.fill offset len value = .ok (a.written offset (List.replicate len value)) := by
  rw [fill, filling_eq, storing_eq (List.length_replicate.symm ▸ h), Ending.outcome]

/-! ### Reading -/

theorem load_eq (h : a.Holds offset len) : a.load offset len = .ok (a.slice offset len) :=
  if_pos h

theorem byte_written (h : a.Holds offset new.length) (i : Nat) :
    (a.written offset new).byte i =
      if offset ≤ i ∧ i < offset + new.length then new.getD (i - offset) 0 else a.byte i := by
  have hcap : offset + new.length ≤ a.bytes.size := h
  unfold written
  rw [byte_overwrite]
  by_cases hi : offset ≤ i ∧ i < offset + new.length
  · rw [if_pos hi, if_pos ⟨hi.1, hi.2, by omega⟩]
  · rw [if_neg hi, if_neg fun hc => hi ⟨hc.1, hc.2.1⟩]

theorem byte_written_of_not (h : a.Holds offset new.length)
    (hi : ¬ (offset ≤ i ∧ i < offset + new.length)) :
    (a.written offset new).byte i = a.byte i := by
  rw [byte_written h, if_neg hi]

/-- An arena is its identity, its length and its bytes. -/
theorem ext_byte (hid : a.id = a'.id) (hcapacity : a.capacity = a'.capacity)
    (hbyte : ∀ i, a.byte i = a'.byte i) : a = a' := by
  refine ext_data hid (Array.ext hcapacity ?_)
  intro i h h'
  have hb := hbyte i
  rwa [byte_of_lt h, byte_of_lt h', ByteArray.getElem_eq_getElem_data,
    ByteArray.getElem_eq_getElem_data] at hb

theorem reserve?_eq_some {id : ArenaId} {capacity : Nat} {available : Bool} :
    reserve? id capacity available = some a ↔ available = true ∧ capacity ≤ maxCapacity ∧
      a = ⟨id, ⟨Array.replicate capacity 0⟩⟩ := by
  unfold reserve?
  split
  · rename_i h
    rw [Option.some.injEq, eq_comm]
    exact ⟨fun ha => ⟨h.1, h.2, ha⟩, fun ha => ha.2.2⟩
  · rename_i h
    exact ⟨fun ha => (nomatch ha), fun ha => absurd ⟨ha.1, ha.2.1⟩ h⟩

/-- An arena that is reserved has only zero bytes. -/
theorem byte_reserved {id : ArenaId} {capacity : Nat} {available : Bool}
    (h : reserve? id capacity available = some a) (i : Nat) : a.byte i = 0 := by
  obtain ⟨-, -, rfl⟩ := reserve?_eq_some.1 h
  unfold byte
  split
  · exact Array.getElem_replicate _
  · rfl

/-! ### Slices -/

/-- A slice is the list whose bytes it has. -/
theorem slice_eq_of_byte (a : Arena) (offset : Nat) (new : List UInt8)
    (h : ∀ i < new.length, a.byte (offset + i) = new.getD i 0) :
    a.slice offset new.length = new := by
  apply List.ext_getElem (length_slice _ _ _)
  intro i h1 h2
  have hb := h i h2
  rw [← getD_slice a offset new.length i h2] at hb
  simpa [List.getD_eq_getElem?_getD, h1, h2] using hb

theorem slice_congr {offset' : Nat} (h : ∀ i < len, a'.byte (offset' + i) = a.byte (offset + i)) :
    a'.slice offset' len = a.slice offset len := by
  have := slice_eq_of_byte a' offset' (a.slice offset len) fun i hi => by
    rw [length_slice] at hi
    rw [h i hi, getD_slice a offset len i hi]
  rwa [length_slice] at this

theorem slice_append (a : Arena) : ∀ offset m n : Nat,
    a.slice offset (m + n) = a.slice offset m ++ a.slice (offset + m) n
  | offset, 0, n => by rw [Nat.zero_add]; rfl
  | offset, m + 1, n => by
    rw [Nat.succ_add, slice, slice, slice_append a (offset + 1) m n, List.cons_append,
      Nat.add_assoc, Nat.add_comm 1 m]

theorem slice_replicate (h : ∀ i, offset ≤ i → i < offset + len → a.byte i = 0) :
    a.slice offset len = List.replicate len 0 := by
  have := slice_eq_of_byte a offset (List.replicate len 0) fun i hi => by
    rw [List.length_replicate] at hi
    rw [h _ (Nat.le_add_right _ _) (by omega)]
    simp [List.getD_eq_getElem?_getD, hi]
  rwa [List.length_replicate] at this

/-- The first bytes of a slice. -/
theorem take_slice {n : Nat} (h : n ≤ len) : (a.slice offset len).take n = a.slice offset n := by
  obtain ⟨k, rfl⟩ := Nat.exists_eq_add_of_le h
  rw [slice_append, List.take_append_of_le_length (Nat.le_of_eq (length_slice _ _ _).symm),
    List.take_of_length_le (Nat.le_of_eq (length_slice _ _ _))]

/-- The bytes of a slice from one of them on. -/
theorem drop_slice {n : Nat} (h : n ≤ len) :
    (a.slice offset len).drop n = a.slice (offset + n) (len - n) := by
  obtain ⟨k, rfl⟩ := Nat.exists_eq_add_of_le h
  rw [slice_append, List.drop_append_of_le_length (Nat.le_of_eq (length_slice _ _ _).symm),
    List.drop_of_length_le (Nat.le_of_eq (length_slice _ _ _)), List.nil_append,
    Nat.add_sub_cancel_left]

theorem slice_written_of_disjoint (h : a.Holds offset new.length) {start : Nat}
    (hd : start + len ≤ offset ∨ offset + new.length ≤ start) :
    (a.written offset new).slice start len = a.slice start len :=
  slice_congr fun i hi => byte_written_of_not h (by omega)

/-- Writing inside a slice changes the bytes of the slice from there on. -/
theorem slice_written (h : a.Holds offset new.length) {start : Nat} (hs : start ≤ offset)
    (he : offset + new.length ≤ start + len) :
    (a.written offset new).slice start len =
      (a.slice start len).take (offset - start) ++ new ++
        (a.slice start len).drop (offset - start + new.length) := by
  obtain ⟨m, rfl⟩ := Nat.exists_eq_add_of_le hs
  obtain ⟨n, hn⟩ := Nat.exists_eq_add_of_le he
  obtain rfl : len = m + (new.length + n) := by omega
  rw [Nat.add_sub_cancel_left, take_slice (by omega), drop_slice (by omega), slice_append,
    slice_append, slice_written_of_disjoint h (.inl (Nat.le_refl _)),
    slice_written_of_disjoint h (.inr (Nat.le_refl _)), List.append_assoc]
  congr 2
  · exact slice_overwrite _ _ _ _ h
  · congr 1 <;> omega

/-! ### Words -/

theorem load16_of_slice {v : UInt16} (h : a.Holds offset 2)
    (hs : a.slice offset 2 = LittleEndian.encode 2 v.toNat) : a.load16 offset = .ok v := by
  rw [load16_eq, load_eq h, hs]
  have hlt : v.toNat < Nat.pow 256 2 := v.toNat_lt
  show Except.ok (UInt16.ofNat (LittleEndian.decode (LittleEndian.encode 2 v.toNat))) = .ok v
  rw [LittleEndian.decode_encode, Nat.mod_eq_of_lt hlt, UInt16.ofNat_toNat]

theorem load32_of_slice {v : UInt32} (h : a.Holds offset 4)
    (hs : a.slice offset 4 = LittleEndian.encode 4 v.toNat) : a.load32 offset = .ok v := by
  rw [load32_eq, load_eq h, hs]
  have hlt : v.toNat < Nat.pow 256 4 := v.toNat_lt
  show Except.ok (UInt32.ofNat (LittleEndian.decode (LittleEndian.encode 4 v.toNat))) = .ok v
  rw [LittleEndian.decode_encode, Nat.mod_eq_of_lt hlt, UInt32.ofNat_toNat]

/-! ### Arenas with the same identity and length -/

/-- `a'` is `a` with the bytes that `f` says. -/
structure Rewritten (a a' : Arena) (f : Nat → UInt8) : Prop where
  id : a'.id = a.id
  capacity : a'.capacity = a.capacity
  byte : ∀ i, a'.byte i = f i

theorem Rewritten.refl (a : Arena) : a.Rewritten a a.byte := ⟨rfl, rfl, fun _ => rfl⟩

theorem Rewritten.congr {f g : Nat → UInt8} (h : a.Rewritten a' f) (hfg : ∀ i, f i = g i) :
    a.Rewritten a' g :=
  ⟨h.id, h.capacity, fun i => (h.byte i).trans (hfg i)⟩

theorem rewritten_written (h : a.Holds offset new.length) :
    a.Rewritten (a.written offset new) fun i =>
      if offset ≤ i ∧ i < offset + new.length then new.getD (i - offset) 0 else a.byte i :=
  ⟨rfl, capacity_written, byte_written h⟩

/-- `a'` is `a` with other bytes in the `len` places from `base` on, at most. -/
structure SameOutside (a a' : Arena) (base len : Nat) : Prop where
  id : a'.id = a.id
  capacity : a'.capacity = a.capacity
  byte : ∀ i, i < base ∨ base + len ≤ i → a'.byte i = a.byte i

theorem SameOutside.trans {a₁ a₂ a₃ : Arena} {base : Nat} (h : a₁.SameOutside a₂ base len)
    (h' : a₂.SameOutside a₃ base len) : a₁.SameOutside a₃ base len :=
  ⟨h'.id.trans h.id, h'.capacity.trans h.capacity,
    fun i hi => (h'.byte i hi).trans (h.byte i hi)⟩

theorem SameOutside.widen {base base' len' : Nat} (h : a.SameOutside a' base' len')
    (hs : base ≤ base') (he : base' + len' ≤ base + len) : a.SameOutside a' base len :=
  ⟨h.id, h.capacity, fun i hi => h.byte i (by omega)⟩

theorem sameOutside_written {base : Nat} (h : a.Holds offset new.length) (hs : base ≤ offset)
    (he : offset + new.length ≤ base + len) : a.SameOutside (a.written offset new) base len :=
  ⟨rfl, capacity_written, fun _ hi => byte_written_of_not h (by omega)⟩

theorem SameOutside.slice {base n : Nat} (h : a.SameOutside a' base len)
    (hd : offset + n ≤ base ∨ base + len ≤ offset) : a'.slice offset n = a.slice offset n :=
  slice_congr fun i hi => h.byte _ (by omega)

end Arena
end FirstFit
