/-
# Double-precision patterns

A float cell is kept as its 64 bits, so that NaN payloads and the sign of zero
survive storage and the wire. Bit 63 is the sign and the other 63 bits, read as
a number, are the magnitude: among patterns of one sign the magnitude orders the
values, up to the infinity `0x7ff0000000000000`, and everything above is a NaN.

Two orders are read off sign and magnitude. `compare` is total: it runs from the
NaNs of negative sign through `-∞ … -0, +0 … +∞` to the NaNs of positive sign.
`compare?` is the numeric one: NaNs compare with nothing and the zeros are equal.

Main statements: `rank_injective` (the total order separates all patterns) and
`compare?_eq_some_lt` (what is numerically less comes first in the total order).
-/

namespace KeyedRows

open Std

/-- A double-precision number, as its IEEE-754 pattern. -/
structure Double where
  bits : UInt64
deriving DecidableEq, Repr, Inhabited

namespace Double

/-- The sign bit is set. -/
def isNegative (x : Double) : Bool := 0x8000000000000000 ≤ x.bits.toNat

/-- The 63 bits below the sign. -/
def magnitude (x : Double) : Nat := x.bits.toNat % 0x8000000000000000

/-- The number of magnitudes that share an exponent, `2 ^ 52`. -/
def binade : Nat := 0x10000000000000

/-- The magnitude of the infinities. -/
def infinity : Nat := 0x7ff0000000000000

/-- Magnitudes above that of the infinities are not numbers. -/
def isNaN (x : Double) : Bool := infinity < x.magnitude

/-- The place of a pattern in the total order. -/
def rank (x : Double) : Int :=
  if x.isNegative then -(x.magnitude : Int) - 1 else x.magnitude

/-- Sign and magnitude as one integer, in which the two zeros coincide. -/
def signed (x : Double) : Int :=
  if x.isNegative then -(x.magnitude : Int) else x.magnitude

instance : Ord Double := ⟨fun x y => compare x.rank y.rank⟩

theorem compare_def (x y : Double) : compare x y = compare x.rank y.rank := rfl

theorem rank_injective {x y : Double} (h : x.rank = y.rank) : x = y := by
  have hx := x.bits.toNat_lt
  have hy := y.bits.toNat_lt
  obtain ⟨bx⟩ := x
  obtain ⟨bY⟩ := y
  simp only [rank, isNegative, magnitude, decide_eq_true_eq] at h
  congr 1
  apply UInt64.toNat_inj.1
  simp only at hx hy
  split at h <;> split at h <;> omega

instance : TransOrd Double where
  eq_swap {x y} := by
    simp only [compare_def]
    exact OrientedCmp.eq_swap
  isLE_trans {x y z} := by
    simp only [compare_def]
    exact TransCmp.isLE_trans

instance : LawfulEqOrd Double where
  compare_self {x} := by
    simp only [compare_def]
    exact ReflCmp.compare_self
  eq_of_compare {x y} h := by
    rw [compare_def] at h
    exact rank_injective (LawfulEqCmp.eq_of_compare h)

/-- Numeric comparison: nothing compares with a NaN, and `-0` equals `+0`. -/
def compare? (x y : Double) : Option Ordering :=
  if x.isNaN || y.isNaN then none else some (compare x.signed y.signed)

/-- What is numerically less comes first in the total order. -/
theorem compare?_eq_some_lt {x y : Double} (h : x.compare? y = some .lt) :
    compare x y = .lt := by
  rw [compare?] at h
  split at h
  · contradiction
  · rw [Option.some.injEq, compare_eq_lt] at h
    rw [compare_def, compare_eq_lt]
    simp only [signed, rank] at h ⊢
    cases hx : x.isNegative <;> cases hy : y.isNegative <;>
      simp only [hx, hy, Bool.false_eq_true, if_true, if_false] at h ⊢ <;> omega

/-! ### Arithmetic -/

/-- The sum, rounded to nearest. -/
def add (x y : Double) : Double := ⟨(Float.ofBits x.bits + Float.ofBits y.bits).toBits⟩

/-- The quotient, rounded to nearest. -/
def div (x y : Double) : Double := ⟨(Float.ofBits x.bits / Float.ofBits y.bits).toBits⟩

/-- Negative zero, the neutral element of `add`. -/
def negZero : Double := ⟨0x8000000000000000⟩

/-- The sum from left to right. It starts from `negZero`, so that a sum of negative zeros keeps
its sign. -/
def sum (xs : List Double) : Double := xs.foldl add negZero

end Double
end KeyedRows
