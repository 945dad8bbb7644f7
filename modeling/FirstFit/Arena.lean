/-
# Arenas

An arena is one stretch of bytes of fixed length with an identity of its own.
Every access names an offset and a length, and faults unless the whole range
lies inside the arena. A write claims its range and then goes over it byte by
byte, and what it has left can be looked at also where it faults.

Key definitions: `ArenaId`, `Supply`, `Arena`, `Arena.load`, `Arena.Ending`,
`Arena.storing`, `Arena.store`, `Arena.fill`.
Key theorems: `load16_eq`, `load32_eq`.
-/
import FirstFit.Checked
import FirstFit.LittleEndian
import FirstFit.Text

namespace FirstFit

/-- The identity of one arena: no two arenas of a run share it. -/
structure ArenaId where
  val : UInt64
  deriving DecidableEq, Repr

namespace ArenaId

def text (id : ArenaId) : String := "arena#" ++ toString id.val.toNat

def debug (id : ArenaId) : String := Text.tuple "ArenaId" (toString id.val.toNat)

end ArenaId

/-- Identities not given out yet, in ascending order from `next`. -/
structure Supply where
  next : ArenaId := ⟨1⟩
  deriving DecidableEq, Repr

/-- The supply after its next identity was given out. -/
def Supply.rest (s : Supply) : Supply := ⟨⟨s.next.val + 1⟩⟩

/-- A stretch of bytes with an identity. -/
structure Arena where
  id : ArenaId
  bytes : ByteArray

namespace Arena

theorem ext_data {a b : Arena} (hi : a.id = b.id) (hb : a.bytes.data = b.bytes.data) : a = b := by
  cases a
  cases b
  cases hi
  cases ByteArray.ext hb
  rfl

instance : DecidableEq Arena := fun a b =>
  if h : a.id = b.id ∧ a.bytes.data = b.bytes.data then isTrue (ext_data h.1 h.2)
  else isFalse fun e => h ⟨e ▸ rfl, e ▸ rfl⟩

/-- No arena is longer than half of the address space. -/
def maxCapacity : Nat := UInt64.size / 2 - 1

/-- An arena of `capacity` zero bytes, if so many bytes are available. More than
any arena can have never are. -/
def reserve? (id : ArenaId) (capacity : Nat) (available : Bool := true) : Option Arena :=
  if available ∧ capacity ≤ maxCapacity then some ⟨id, ⟨Array.replicate capacity 0⟩⟩ else none

@[inline] def capacity (a : Arena) : Nat := a.bytes.size

/-- The byte at offset `i`; zero past the end. -/
@[inline] def byte (a : Arena) (i : Nat) : UInt8 :=
  if h : i < a.bytes.size then a.bytes[i] else 0

/-- The `len` bytes from `offset` on. -/
def slice (a : Arena) : (offset len : Nat) → List UInt8
  | _, 0 => []
  | offset, len + 1 => a.byte offset :: a.slice (offset + 1) len

/-- `len` bytes from `offset` on lie inside the arena. -/
def Holds (a : Arena) (offset len : Nat) : Prop := offset + len ≤ a.capacity

instance (a : Arena) (offset len : Nat) : Decidable (a.Holds offset len) :=
  inferInstanceAs (Decidable (offset + len ≤ a.capacity))

/-- Read `len` bytes at `offset`. -/
def load (a : Arena) (offset len : Nat) : Checked (List UInt8) :=
  if a.Holds offset len then .ok (a.slice offset len) else .error .range

/-- How a write ends: with the arena as it has left it, also where it faults. -/
inductive Ending where
  | done (a : Arena)
  | faulted (f : Fault) (a : Arena)
  deriving DecidableEq

namespace Ending

/-- What a write answers: the new arena, or the fault. -/
def outcome : Ending → Checked Arena
  | done a => .ok a
  | faulted f _ => .error f

/-- What a write leaves behind. -/
def arena : Ending → Arena
  | done a => a
  | faulted _ a => a

end Ending

/-- Write bytes one after another, from `offset` on, up to the first that lies
past the end. -/
def writeBytes : Nat → List UInt8 → Arena → Ending
  | _, [], a => .done a
  | offset, b :: new, ⟨id, bytes⟩ =>
    if h : offset < bytes.size then writeBytes (offset + 1) new ⟨id, bytes.set offset b h⟩
    else .faulted .range ⟨id, bytes⟩

/-- Claim the range for bytes at `offset`, then write them. -/
def storing (a : Arena) (offset : Nat) (new : List UInt8) : Ending :=
  if a.Holds offset new.length then writeBytes offset new a else .faulted .range a

/-- Claim the `len` bytes at `offset`, then write the same byte to all of them. -/
def filling (a : Arena) (offset len : Nat) (value : UInt8) : Ending :=
  if a.Holds offset len then writeBytes offset (List.replicate len value) a
  else .faulted .range a

/-- Write bytes at `offset`. -/
def store (a : Arena) (offset : Nat) (new : List UInt8) : Checked Arena :=
  (a.storing offset new).outcome

/-- Write the same byte `len` times at `offset`. -/
def fill (a : Arena) (offset len : Nat) (value : UInt8) : Checked Arena :=
  (a.filling offset len value).outcome

/-- Read a 16-bit word at `offset`. -/
@[inline] def load16 (a : Arena) (offset : Nat) : Checked UInt16 :=
  if _ : offset + 2 ≤ a.bytes.size then
    .ok (LittleEndian.word16 a.bytes[offset] a.bytes[offset + 1])
  else .error .range

/-- Read a 32-bit word at `offset`. -/
@[inline] def load32 (a : Arena) (offset : Nat) : Checked UInt32 :=
  if _ : offset + 4 ≤ a.bytes.size then
    .ok (LittleEndian.word32 a.bytes[offset] a.bytes[offset + 1] a.bytes[offset + 2]
      a.bytes[offset + 3])
  else .error .range

/-- Write a 16-bit word at `offset`. -/
def store16 (a : Arena) (offset : Nat) (v : UInt16) : Checked Arena :=
  a.store offset (LittleEndian.encode 2 v.toNat)

/-- Write a 32-bit word at `offset`. -/
def store32 (a : Arena) (offset : Nat) (v : UInt32) : Checked Arena :=
  a.store offset (LittleEndian.encode 4 v.toNat)

def debug (a : Arena) : String :=
  Text.record "Arena" [("id", a.id.debug), ("capacity", toString a.capacity)]

/-! ### What a read sees -/

theorem byte_of_lt {a : Arena} {i : Nat} (h : i < a.bytes.size) : a.byte i = a.bytes[i] :=
  dif_pos h

theorem byte_eq_getD (a : Arena) (i : Nat) : a.byte i = a.bytes.data.getD i 0 := by
  rw [byte, Array.getD]
  exact dite_congr rfl (fun _ => ByteArray.getElem_eq_getElem_data) fun _ => rfl

@[simp] theorem length_slice (a : Arena) : ∀ offset len, (a.slice offset len).length = len
  | _, 0 => rfl
  | offset, len + 1 => by rw [slice, List.length_cons, length_slice a]

theorem getD_slice (a : Arena) : ∀ offset len i, i < len →
    (a.slice offset len).getD i 0 = a.byte (offset + i)
  | _, _ + 1, 0, _ => rfl
  | offset, len + 1, i + 1, h => by
    rw [slice, List.getD_cons_succ, getD_slice a (offset + 1) len i (by omega)]
    congr 1
    omega

/-- A 16-bit word is what two bytes say. -/
theorem load16_eq (a : Arena) (offset : Nat) :
    a.load16 offset = (a.load offset 2).map fun bs => UInt16.ofNat (LittleEndian.decode bs) := by
  rw [load16, load]
  by_cases h : offset + 2 ≤ a.bytes.size
  · rw [dif_pos h, if_pos (show a.Holds offset 2 from h), ← byte_of_lt, ← byte_of_lt,
      LittleEndian.word16_eq]
    rfl
  · rw [dif_neg h, if_neg (show ¬ a.Holds offset 2 from h)]
    rfl

/-- A 32-bit word is what four bytes say. -/
theorem load32_eq (a : Arena) (offset : Nat) :
    a.load32 offset = (a.load offset 4).map fun bs => UInt32.ofNat (LittleEndian.decode bs) := by
  rw [load32, load]
  by_cases h : offset + 4 ≤ a.bytes.size
  · rw [dif_pos h, if_pos (show a.Holds offset 4 from h), ← byte_of_lt, ← byte_of_lt,
      ← byte_of_lt, ← byte_of_lt, LittleEndian.word32_eq]
    rfl
  · rw [dif_neg h, if_neg (show ¬ a.Holds offset 4 from h)]
    rfl

end Arena

end FirstFit
