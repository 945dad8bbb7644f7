/-
# Checked arithmetic on sizes

Sizes, offsets and indices are natural numbers below `2 ^ 64`. A sum that
leaves this range, a difference below zero, an index past the end of a table,
an access outside an arena or an assertion that does not hold is a fault: the
step that meets one has no result. Where a fault cannot happen is a theorem
about the states in question, never an assumption built into an operation.

Key definitions: `Fault`, `Checked`, `Size.add`, `Size.sub`, `Size.addCapped`.
-/

namespace FirstFit

/-- The reason why a step has no result. -/
inductive Fault where
  /-- A sum reaches `2 ^ 64`. -/
  | overflow
  /-- A difference is below zero. -/
  | underflow
  /-- A table has no entry at the index. -/
  | index
  /-- A block would reach into one of its neighbours. -/
  | order
  /-- An access ends past the last byte of its arena. -/
  | range
  /-- A number does not fit the word that is to hold it. -/
  | narrowing
  /-- A walk along links is longer than the number of places they can lead to. -/
  | endless
  deriving DecidableEq, Repr

/-- A result, or the fault that stopped its computation. -/
abbrev Checked := Except Fault

/-- A computation in two parts has a result when the first part has one and
the second has one on it. -/
theorem Checked.bind_eq_ok {α β : Type} {x : Checked α} {f : α → Checked β} {b : β} :
    x >>= f = .ok b ↔ ∃ a, x = .ok a ∧ f a = .ok b := by
  cases x with
  | error e => exact ⟨fun h => (nomatch h), fun ⟨_, h, _⟩ => (nomatch h)⟩
  | ok a => exact ⟨fun h => ⟨a, rfl, h⟩, fun ⟨_, h, hf⟩ => by cases h; exact hf⟩

/-- A computation whose result is seen through `f` has a result when it has one itself. -/
theorem Checked.map_eq_ok {α β : Type} {x : Checked α} {f : α → β} {b : β} :
    (do return f (← x) : Checked β) = .ok b ↔ ∃ a, x = .ok a ∧ f a = b := by
  refine Checked.bind_eq_ok.trans ⟨?_, ?_⟩
  · rintro ⟨a, ha, hf⟩
    exact ⟨a, ha, Except.ok.inj hf⟩
  · rintro ⟨a, ha, rfl⟩
    exact ⟨a, ha, rfl⟩

namespace Size

/-- One more than the largest size. -/
def bound : Nat := UInt64.size

/-- The sum of two sizes. -/
@[inline] def add (x y : Nat) : Checked Nat :=
  if x + y < bound then .ok (x + y) else .error .overflow

/-- The difference of two sizes. -/
@[inline] def sub (x y : Nat) : Checked Nat :=
  if y ≤ x then .ok (x - y) else .error .underflow

/-- The sum of two sizes, or the largest size if the sum is larger still. -/
def addCapped (x y : Nat) : Nat := min (x + y) (bound - 1)

/-- A size as a 32-bit word. -/
def toWord (n : Nat) : Checked UInt32 :=
  if n < UInt32.size then .ok (UInt32.ofNat n) else .error .narrowing

theorem add_of_lt {x y : Nat} (h : x + y < bound) : add x y = .ok (x + y) := if_pos h

theorem sub_of_le {x y : Nat} (h : y ≤ x) : sub x y = .ok (x - y) := if_pos h

theorem toWord_of_lt {n : Nat} (h : n < UInt32.size) : toWord n = .ok (UInt32.ofNat n) := if_pos h

end Size

end FirstFit
