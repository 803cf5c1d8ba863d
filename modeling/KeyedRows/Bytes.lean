/-
# Bytes and little-endian words

Payloads, frames and stored blobs are lists of bytes. A word of `w` bytes is
written least significant byte first.

Main statements: `toNat_ofNat` (a word holds every number of `8 * w` bits) and
`ofNat_toNat` (the bytes of a word are determined by its number).
-/

namespace KeyedRows

/-- A sequence of bytes. -/
abbrev Bytes := List UInt8

namespace Bytes

/-- The `w` low bytes of a number, least significant first. -/
def ofNat : Nat → Nat → Bytes
  | 0, _ => []
  | w + 1, n => UInt8.ofNat n :: ofNat w (n / 256)

/-- The number whose bytes are given, least significant first. -/
def toNat : Bytes → Nat
  | [] => 0
  | b :: bs => b.toNat + 256 * toNat bs

@[simp] theorem length_ofNat (w n : Nat) : (ofNat w n).length = w := by
  induction w generalizing n with
  | zero => rfl
  | succ w ih => simp [ofNat, ih]

/-- One more byte makes room for 256 times as many numbers. -/
theorem shiftLeft_succ (w : Nat) : 1 <<< (8 * (w + 1)) = 256 * (1 <<< (8 * w)) := by
  rw [Nat.mul_succ, Nat.one_shiftLeft, Nat.one_shiftLeft, Nat.pow_add, Nat.mul_comm]

theorem toNat_lt (bs : Bytes) : toNat bs < 1 <<< (8 * bs.length) := by
  induction bs with
  | nil => simp [toNat]
  | cons b bs ih =>
    have hb := b.toNat_lt
    rw [toNat, List.length_cons, shiftLeft_succ]
    omega

/-- A word of `w` bytes holds the low `8 * w` bits of a number. -/
theorem toNat_ofNat (w n : Nat) : toNat (ofNat w n) = n % (1 <<< (8 * w)) := by
  induction w generalizing n with
  | zero => simp [ofNat, toNat, Nat.mod_one]
  | succ w ih => rw [ofNat, toNat, ih, UInt8.toNat_ofNat', shiftLeft_succ, Nat.mod_mul]

/-- The bytes of a word are determined by its number. -/
theorem ofNat_toNat (bs : Bytes) : ofNat bs.length (toNat bs) = bs := by
  induction bs with
  | nil => rfl
  | cons b bs ih =>
    have hb := b.toNat_lt
    simp only [List.length_cons, ofNat, toNat]
    rw [show (b.toNat + 256 * toNat bs) / 256 = toNat bs by omega, ih]
    congr 1
    apply UInt8.toNat_inj.1
    rw [UInt8.toNat_ofNat']
    omega

end Bytes
end KeyedRows
