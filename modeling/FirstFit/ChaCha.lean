/-
# The ChaCha8 word stream of a seed

A seed of 64 bits is stretched to a key of eight words; block `n` of the
stream is the sixteen words that eight rounds of ChaCha make of the constants,
the key and the counter `n`.

Key definitions: `ChaCha.key`, `ChaCha.block`, `ChaCha.stream`.
-/

namespace FirstFit

/-- A word for each position. -/
abbrev WordStream := Nat → UInt32

namespace ChaCha

def rotateLeft (x n : UInt32) : UInt32 := (x <<< n) ||| (x >>> (32 - n))

def rotateRight (x n : UInt32) : UInt32 := rotateLeft x (32 - n % 32)

/-! ### The key -/

/-- One step of the linear congruential generator behind the key. -/
def advance (state : UInt64) : UInt64 := state * 6364136223846793005 + 11634580027462260723

/-- The word that the generator shows in a state: its high bits folded, then
rotated by its five highest. -/
def permuted (state : UInt64) : UInt32 :=
  rotateRight (((state >>> 18) ^^^ state) >>> 27).toUInt32 (state >>> 59).toUInt32

/-- The first `n` words shown after `state`. -/
def shown : Nat → UInt64 → List UInt32
  | 0, _ => []
  | n + 1, state => permuted (advance state) :: shown n (advance state)

/-- The eight words of the key of a seed. -/
def key (seed : UInt64) : List UInt32 := shown 8 seed

/-! ### Blocks -/

abbrev State := Vector UInt32 16

/-- The constants, the key, the counter of 64 bits, and two zero words. -/
def start (key : List UInt32) (counter : UInt64) : State :=
  let k (i : Nat) : UInt32 := key.getD i 0
  #v[0x61707865, 0x3320646e, 0x79622d32, 0x6b206574,
    k 0, k 1, k 2, k 3, k 4, k 5, k 6, k 7,
    counter.toUInt32, (counter >>> 32).toUInt32, 0, 0]

/-- Mix four words of the state. -/
def quarterRound (s : State) (a b c d : Fin 16) : State :=
  let s := s.set a (s[a] + s[b])
  let s := s.set d (rotateLeft (s[d] ^^^ s[a]) 16)
  let s := s.set c (s[c] + s[d])
  let s := s.set b (rotateLeft (s[b] ^^^ s[c]) 12)
  let s := s.set a (s[a] + s[b])
  let s := s.set d (rotateLeft (s[d] ^^^ s[a]) 8)
  let s := s.set c (s[c] + s[d])
  s.set b (rotateLeft (s[b] ^^^ s[c]) 7)

/-- Two rounds: the columns, then the diagonals. -/
def doubleRound (s : State) : State :=
  let s := quarterRound s 0 4 8 12
  let s := quarterRound s 1 5 9 13
  let s := quarterRound s 2 6 10 14
  let s := quarterRound s 3 7 11 15
  let s := quarterRound s 0 5 10 15
  let s := quarterRound s 1 6 11 12
  let s := quarterRound s 2 7 8 13
  quarterRound s 3 4 9 14

/-- Block `counter` of the stream of a key. -/
def block (key : List UInt32) (counter : UInt64) : State :=
  let first := start key counter
  let mixed := doubleRound (doubleRound (doubleRound (doubleRound first)))
  mixed.zipWith (· + ·) first

/-- The stream of a seed: its blocks, one after another. -/
def stream (seed : UInt64) : WordStream := fun i =>
  (block (key seed) (UInt64.ofNat (i / 16)))[i % 16]

end ChaCha

end FirstFit
