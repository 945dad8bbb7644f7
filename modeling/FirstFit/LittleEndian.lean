/-
# Little-endian words

A number is written in a fixed count of bytes, least significant byte first.

Key definitions: `LittleEndian.encode`, `LittleEndian.decode`,
`LittleEndian.word16`, `LittleEndian.word32`.
Key theorems: `decode_encode`, `word16_eq`, `word32_eq`.
-/

namespace FirstFit
namespace LittleEndian

/-- The lowest `width` bytes of a number, least significant first. -/
def encode : Nat → Nat → List UInt8
  | 0, _ => []
  | width + 1, n => UInt8.ofNat (n % 256) :: encode width (n / 256)

/-- The number whose bytes are given, least significant first. -/
def decode : List UInt8 → Nat
  | [] => 0
  | b :: bs => b.toNat + 256 * decode bs

/-- The 16-bit word of two bytes. -/
@[inline] def word16 (b c : UInt8) : UInt16 := b.toUInt16 + 256 * c.toUInt16

/-- The 32-bit word of four bytes. -/
@[inline] def word32 (b c d e : UInt8) : UInt32 :=
  b.toUInt32 + 256 * (c.toUInt32 + 256 * (d.toUInt32 + 256 * e.toUInt32))

theorem length_encode : ∀ width n, (encode width n).length = width
  | 0, _ => rfl
  | width + 1, n => by simp [encode, length_encode width]

theorem decode_encode : ∀ width n, decode (encode width n) = n % Nat.pow 256 width
  | 0, n => by simp [encode, decode, Nat.mod_one]
  | width + 1, n => by
    have h : n % 256 % 2 ^ 8 = n % 256 := Nat.mod_mod n 256
    show _ = n % 256 ^ (width + 1)
    rw [encode, decode, decode_encode width, UInt8.toNat_ofNat', h, Nat.pow_succ',
      Nat.mod_mul]
    rfl

theorem decode_lt : ∀ bs, decode bs < Nat.pow 256 bs.length
  | [] => Nat.one_pos
  | b :: bs => by
    have hb : b.toNat < 256 := b.toNat_lt
    have ht : decode bs < 256 ^ bs.length := decode_lt bs
    show _ < 256 ^ (bs.length + 1)
    rw [decode, Nat.pow_succ]
    omega

theorem word16_eq (b c : UInt8) : word16 b c = UInt16.ofNat (decode [b, c]) := by
  refine UInt16.toNat_inj.1 ?_
  have hb : b.toNat < 256 := b.toNat_lt
  have hc : c.toNat < 256 := c.toNat_lt
  simp only [word16, decode, UInt16.toNat_ofNat', UInt16.toNat_add, UInt16.toNat_mul,
    UInt8.toNat_toUInt16, UInt16.reduceToNat]
  omega

theorem word32_eq (b c d e : UInt8) : word32 b c d e = UInt32.ofNat (decode [b, c, d, e]) := by
  refine UInt32.toNat_inj.1 ?_
  have hb : b.toNat < 256 := b.toNat_lt
  have hc : c.toNat < 256 := c.toNat_lt
  have hd : d.toNat < 256 := d.toNat_lt
  have he : e.toNat < 256 := e.toNat_lt
  simp only [word32, decode, UInt32.toNat_ofNat', UInt32.toNat_add, UInt32.toNat_mul,
    UInt8.toNat_toUInt32, UInt32.reduceToNat]
  omega

end LittleEndian
end FirstFit
