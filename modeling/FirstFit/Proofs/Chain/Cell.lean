/-
# The bytes of a node

Sixteen bytes say what a node holds and where it leads. Reading one of its
fields gives back what was written there, and writing one leaves the others,
and all bytes outside the node, as they were.

Key definitions: `Cell`, `Cell.encode`, `Arena.HasCell`.
Key theorems: `HasCell.slice_eq`, `HasCell.store`, `writeHeader_cell`,
`writeNext_cell`, `erase_cell`.
-/
import FirstFit.Chain.NodeTable
import FirstFit.Proofs.Layout.WellFormed
import FirstFit.Proofs.Arena

namespace FirstFit

open LittleEndian (length_encode)

/-- What the bytes of a node say. -/
structure Cell where
  data : UInt16 := 0
  stamp : UInt32 := 0
  nextStamp : UInt32 := 0
  nextOffset : UInt32 := 0

namespace Cell

/-- The cell of a node that leads to `next`. -/
def leadingTo (data : UInt16) (stamp : UInt32) : (next : Option NodeRef) → Cell
  | some n => ⟨data, stamp, n.stamp, n.offset⟩
  | none => ⟨data, stamp, 0, 0⟩

@[simp] theorem data_leadingTo (data : UInt16) (stamp : UInt32) (next : Option NodeRef) :
    (leadingTo data stamp next).data = data := by
  cases next <;> rfl

@[simp] theorem stamp_leadingTo (data : UInt16) (stamp : UInt32) (next : Option NodeRef) :
    (leadingTo data stamp next).stamp = stamp := by
  cases next <;> rfl

/-- The fields of a cell: where each begins, and its bytes. -/
def fields (c : Cell) : List (Nat × List UInt8) :=
  [(Node.dataField, LittleEndian.encode 2 c.data.toNat),
    (Node.reservedField, LittleEndian.encode 2 (0 : UInt16).toNat),
    (Node.stampField, LittleEndian.encode 4 c.stamp.toNat),
    (Node.nextStampField, LittleEndian.encode 4 c.nextStamp.toNat),
    (Node.nextOffsetField, LittleEndian.encode 4 c.nextOffset.toNat)]

/-- The bytes of a cell. -/
def encode (c : Cell) : List UInt8 := c.fields.flatMap Prod.snd

/-- Two fields have no byte in common. -/
def Apart (f g : Nat × List UInt8) : Prop :=
  f.1 + f.2.length ≤ g.1 ∨ g.1 + g.2.length ≤ f.1

theorem data_mem (c : Cell) :
    (Node.dataField, LittleEndian.encode 2 c.data.toNat) ∈ c.fields := .head _

theorem reserved_mem (c : Cell) :
    (Node.reservedField, LittleEndian.encode 2 (0 : UInt16).toNat) ∈ c.fields := .tail _ (.head _)

theorem stamp_mem (c : Cell) :
    (Node.stampField, LittleEndian.encode 4 c.stamp.toNat) ∈ c.fields := by simp [fields]

theorem nextStamp_mem (c : Cell) :
    (Node.nextStampField, LittleEndian.encode 4 c.nextStamp.toNat) ∈ c.fields := by simp [fields]

theorem nextOffset_mem (c : Cell) :
    (Node.nextOffsetField, LittleEndian.encode 4 c.nextOffset.toNat) ∈ c.fields := by simp [fields]

theorem field_le {c : Cell} {f : Nat × List UInt8} (hf : f ∈ c.fields) :
    f.1 + f.2.length ≤ Node.size := by
  revert f
  simp [fields, length_encode, Node.dataField, Node.reservedField, Node.stampField,
    Node.nextStampField, Node.nextOffsetField, Node.size]

theorem eq_or_apart {c : Cell} : ∀ f ∈ c.fields, ∀ g ∈ c.fields, f = g ∨ Apart f g := by
  simp only [fields, List.forall_mem_cons]
  simp [Apart, length_encode, Node.dataField, Node.reservedField, Node.stampField,
    Node.nextStampField, Node.nextOffsetField]

end Cell

namespace Arena

variable {a a' : Arena} {base base' : Nat} {c c' : Cell}

/-- The bytes from `base` on are those of the cell `c`. -/
structure HasCell (a : Arena) (base : Nat) (c : Cell) : Prop where
  inside : base + Node.size ≤ a.capacity
  field : ∀ f ∈ c.fields, a.slice (base + f.1) f.2.length = f.2

theorem HasCell.slice_eq (h : a.HasCell base c) : a.slice base Node.size = c.encode := by
  have hf := h.field
  simp only [Cell.fields, List.forall_mem_cons, length_encode, Node.dataField,
    Node.reservedField, Node.stampField, Node.nextStampField, Node.nextOffsetField,
    Nat.add_zero] at hf
  obtain ⟨hdata, hreserved, hstamp, hnextStamp, hnextOffset, -⟩ := hf
  simp only [Cell.encode, Cell.fields, List.flatMap_cons, List.flatMap_nil, List.append_nil]
  rw [← hdata, ← hreserved, ← hstamp, ← hnextStamp, ← hnextOffset, Node.size,
    slice_append a base 2 14, slice_append a (base + 2) 2 12, slice_append a (base + 4) 4 8,
    slice_append a (base + 8) 4 4]

/-- A cell stays what it is while bytes elsewhere are written. -/
theorem HasCell.frame {len : Nat} (h : a.HasCell base c) (hs : a.SameOutside a' base' len)
    (hd : base + Node.size ≤ base' ∨ base' + len ≤ base) : a'.HasCell base c := by
  refine ⟨Nat.le_trans h.inside (Nat.le_of_eq hs.capacity.symm), ?_⟩
  intro f hf
  have := Cell.field_le hf
  rw [hs.slice (by omega), h.field f hf]

/-- Writing a field of a cell that is otherwise the old one. -/
theorem HasCell.store (h : a.HasCell base c) {new : Nat × List UInt8} (hnew : new ∈ c'.fields)
    (hc : ∀ f ∈ c'.fields, f = new ∨ f ∈ c.fields) :
    a.Holds (base + new.1) new.2.length ∧
      a.SameOutside (a.written (base + new.1) new.2) base Node.size ∧
      (a.written (base + new.1) new.2).HasCell base c' := by
  have hbase := h.inside
  have hin := Cell.field_le hnew
  have hold : a.Holds (base + new.1) new.2.length := by
    show base + new.1 + new.2.length ≤ a.capacity
    omega
  refine ⟨hold, sameOutside_written hold (by omega) (by omega), ?_, ?_⟩
  · rwa [capacity_written]
  · intro f hf
    rcases hc f hf with rfl | hold'
    · exact slice_overwrite _ _ _ _ hold
    · rcases Cell.eq_or_apart f hf _ hnew with rfl | hd
      · exact slice_overwrite _ _ _ _ hold
      · rw [slice_written_of_disjoint hold (by simp only [Cell.Apart] at hd; omega),
          h.field f hold']

theorem hasCell_blank (hin : base + Node.size ≤ a.capacity)
    (hz : ∀ i, base ≤ i → i < base + Node.size → a.byte i = 0) : a.HasCell base {} := by
  refine ⟨hin, ?_⟩
  intro f hf
  have hle := Cell.field_le hf
  have hzero : f.2 = List.replicate f.2.length 0 := by
    revert f
    decide
  rw [hzero, List.length_replicate]
  exact slice_replicate fun i h1 h2 => hz i (by omega) (by omega)

theorem byte_blank {i : Nat} (h : a.HasCell base {}) (h1 : base ≤ i)
    (h2 : i < base + Node.size) : a.byte i = 0 := by
  have hs := getD_slice a base Node.size (i - base) (by omega)
  rw [h.slice_eq, Nat.add_sub_cancel' h1] at hs
  have hzero : ({} : Cell).encode = List.replicate Node.size 0 := by decide
  rw [← hs, hzero, List.getD_eq_getElem?_getD, List.getElem?_replicate]
  split <;> rfl

end Arena

namespace NodeTable

open Arena (HasCell)

variable {t : NodeTable} {base : Nat} {c : Cell}

/-! ### Reading -/

theorem dataAt_cell (h : t.arena.HasCell base c) : t.dataAt base = .ok c.data :=
  Arena.load16_of_slice (Nat.le_trans (Nat.le_add_right _ 14) h.inside) (h.field _ c.data_mem)

theorem load32_cell (h : t.arena.HasCell base c) {field : Nat} {v : UInt32}
    (hf : (field, LittleEndian.encode 4 v.toNat) ∈ c.fields) :
    t.arena.load32 (base + field) = .ok v := by
  have hle := Cell.field_le hf
  have hin := h.inside
  have hs := h.field _ hf
  simp only [length_encode] at hle hs
  refine Arena.load32_of_slice ?_ hs
  show base + field + 4 ≤ t.arena.capacity
  omega

theorem stampAt_cell (h : t.arena.HasCell base c) : t.stampAt base = .ok c.stamp :=
  load32_cell h c.stamp_mem

/-- The successor is read back if it is a node of this table, which has a stamp. -/
theorem nextAt_cell {data : UInt16} {stamp : UInt32} {next : Option NodeRef}
    (h : t.arena.HasCell base (.leadingTo data stamp next))
    (hn : ∀ n ∈ next, n.arena = t.arena.id ∧ n.stamp ≠ 0) : t.nextAt base = .ok next := by
  simp only [nextAt, load32_cell h (Cell.nextStamp_mem _), load32_cell h (Cell.nextOffset_mem _),
    Checked.ok_bind]
  cases next with
  | none => rfl
  | some n =>
    obtain ⟨ha, hs⟩ := hn n rfl
    exact (if_neg hs).trans (by rw [← ha]; rfl)

/-! ### Writing -/

theorem writeHeader_cell (h : t.arena.HasCell base c) (data : UInt16) (stamp : UInt32) :
    ∃ a, t.writeHeader base data stamp = .ok (t.withArena a) ∧
      t.arena.SameOutside a base Node.size ∧ a.HasCell base { c with data, stamp } := by
  obtain ⟨hold₁, hsame₁, hcell₁⟩ :=
    h.store (Cell.data_mem { c with data }) (by simp [Cell.fields])
  obtain ⟨hold₂, hsame₂, hcell₂⟩ :=
    hcell₁.store (Cell.reserved_mem { c with data }) (by simp [Cell.fields])
  obtain ⟨hold₃, hsame₃, hcell₃⟩ :=
    hcell₂.store (Cell.stamp_mem { c with data, stamp }) (by simp [Cell.fields])
  refine ⟨_, ?_, (hsame₁.trans hsame₂).trans hsame₃, hcell₃⟩
  simp only [writeHeader, Arena.store16, Arena.store32, Arena.store_eq hold₁,
    Arena.store_eq hold₂, Arena.store_eq hold₃, Checked.ok_bind]
  rfl

theorem writeNext_eq (t : NodeTable) (base : Nat) (data : UInt16) (stamp : UInt32)
    (next : Option NodeRef) :
    t.writeNext base next = (do
      let c := Cell.leadingTo data stamp next
      let arena ← t.arena.store32 (base + Node.nextStampField) c.nextStamp
      let arena ← arena.store32 (base + Node.nextOffsetField) c.nextOffset
      return t.withArena arena) := by
  cases next <;> rfl

theorem leadingTo_eq (data : UInt16) (stamp : UInt32) (next : Option NodeRef) :
    Cell.leadingTo data stamp next = ⟨data, stamp, (Cell.leadingTo data stamp next).nextStamp,
      (Cell.leadingTo data stamp next).nextOffset⟩ := by
  cases next <;> rfl

theorem writeNext_cell (h : t.arena.HasCell base c) (next : Option NodeRef) :
    ∃ a, t.writeNext base next = .ok (t.withArena a) ∧ t.arena.SameOutside a base Node.size ∧
      a.HasCell base (.leadingTo c.data c.stamp next) := by
  rw [writeNext_eq t base c.data c.stamp, leadingTo_eq]
  generalize Cell.leadingTo c.data c.stamp next = new
  obtain ⟨hold₁, hsame₁, hcell₁⟩ :=
    h.store (Cell.nextStamp_mem { c with nextStamp := new.nextStamp }) (by simp [Cell.fields])
  obtain ⟨hold₂, hsame₂, hcell₂⟩ :=
    hcell₁.store (Cell.nextOffset_mem ⟨c.data, c.stamp, new.nextStamp, new.nextOffset⟩)
      (by simp [Cell.fields])
  refine ⟨_, ?_, hsame₁.trans hsame₂, hcell₂⟩
  simp only [Arena.store32, Arena.store_eq hold₁, Arena.store_eq hold₂, Checked.ok_bind]
  rfl

/-- Storing a zero word zeroes four bytes. -/
theorem store32_zero {a : Arena} {word : Nat} (h : a.Holds word 4) :
    ∃ a', a.store32 word 0 = .ok a' ∧ a.SameOutside a' word 4 ∧
      ∀ i, word ≤ i → i < word + 4 → a'.byte i = 0 := by
  have hw : a.Holds word (List.replicate 4 (0 : UInt8)).length := h
  refine ⟨a.written word (List.replicate 4 0), Arena.store_eq hw,
    Arena.sameOutside_written hw (Nat.le_refl _) (Nat.le_refl _), ?_⟩
  intro i h1 h2
  rw [Arena.byte_written hw, if_pos ⟨h1, h2⟩, List.getD_eq_getElem?_getD,
    List.getElem?_replicate]
  split <;> rfl

/-- Zero words are stored one behind another: the induction is on their number,
and those behind a word leave it alone. -/
theorem store_zeros : ∀ (n : Nat) {a : Arena} {word : Nat}, base + word + 4 * n ≤ a.capacity →
    ∃ a', (List.range' word n 4).foldlM (fun a word => a.store32 (base + word) 0) a = .ok a' ∧
      a.SameOutside a' (base + word) (4 * n) ∧
      ∀ i, base + word ≤ i → i < base + word + 4 * n → a'.byte i = 0
  | 0, a, word, _ => ⟨a, rfl, ⟨rfl, rfl, fun _ _ => rfl⟩, fun i h1 h2 => by omega⟩
  | n + 1, a, word, hin => by
    have hold : a.Holds (base + word) 4 := by
      show base + word + 4 ≤ a.capacity
      omega
    obtain ⟨a₁, hstore, hsame₁, hzero₁⟩ := store32_zero hold
    have hin₁ : base + (word + 4) + 4 * n ≤ a₁.capacity := by
      have := hsame₁.capacity
      omega
    obtain ⟨a₂, hrest, hsame₂, hzero₂⟩ := store_zeros n hin₁
    refine ⟨a₂, ?_, ?_, ?_⟩
    · rw [List.range'_succ, List.foldlM_cons, hstore]
      exact hrest
    · exact (hsame₁.widen (by omega) (by omega)).trans (hsame₂.widen (by omega) (by omega))
    · intro i h1 h2
      by_cases hi : i < base + word + 4
      · rw [hsame₂.byte i (by omega)]
        exact hzero₁ i h1 hi
      · exact hzero₂ i (by omega) (by omega)

theorem erase_cell (hin : base + Node.size ≤ t.arena.capacity) :
    ∃ a, t.erase base = .ok (t.withArena a) ∧ t.arena.SameOutside a base Node.size ∧
      a.HasCell base {} := by
  obtain ⟨a, hstore, hsame, hzero⟩ := @store_zeros base 4 t.arena 0 hin
  have hin' : base + Node.size ≤ a.capacity := Nat.le_trans hin (Nat.le_of_eq hsame.capacity.symm)
  refine ⟨a, ?_, hsame, Arena.hasCell_blank hin' hzero⟩
  have hwords : [0, 4, 8, 12].foldlM (fun a word => a.store32 (base + word) 0) t.arena = .ok a :=
    hstore
  unfold erase
  rw [hwords]
  rfl

end NodeTable

end FirstFit
