/-
# The double nearest to an integer

An integer of 64 bits need not be a double: beyond `2 ^ 53` several integers
share their nearest double. Rounding is to nearest, a tie going to the even
significand. It is computed on natural numbers: the place of the leading bit
gives the exponent, and the rounded 53-bit significand is added on top, so that
a significand rounding up to `2 ^ 53` carries into the exponent by itself.

Main statement: `rank_ofInt64_mono`, rounding keeps the order.
-/

import KeyedRows.Double.Basic

namespace KeyedRows
namespace Double

/-- `n / 2 ^ s` rounded to a whole number, a half going to the even neighbour. -/
def roundShift (n s : Nat) : Nat :=
  let unit := 1 <<< s
  let q := n / unit
  let twice := 2 * (n % unit)
  if unit < twice ∨ (twice = unit ∧ q % 2 = 1) then q + 1 else q

/-- The 53-bit significand of `n`, a number whose leading bit stands at place `e`. -/
def significand (n e : Nat) : Nat :=
  if e ≤ 52 then n <<< (52 - e) else roundShift n (e - 52)

/-- The magnitude of the double nearest to `n`. The biased exponent of a leading bit at place `e`
is `e + 1023`, of which the leading bit of the significand itself contributes one. -/
def ofNatMagnitude (n : Nat) : Nat :=
  if n = 0 then 0 else (n.log2 + 1022) * binade + significand n n.log2

/-- The double nearest to an integer, ties to even. -/
def ofInt64 (i : Int64) : Double :=
  let m := ofNatMagnitude i.toInt.natAbs
  ⟨UInt64.ofNat (if i.toInt < 0 then 0x8000000000000000 + m else m)⟩

/-! ### Rounding keeps the order -/

theorem roundShift_mono {n n' : Nat} (s : Nat) (h : n ≤ n') :
    roundShift n s ≤ roundShift n' s := by
  have hq : n / (1 <<< s) ≤ n' / (1 <<< s) := Nat.div_le_div_right h
  have h₁ := Nat.div_add_mod n (1 <<< s)
  have h₂ := Nat.div_add_mod n' (1 <<< s)
  simp only [roundShift]
  generalize n / (1 <<< s) = q at *
  generalize n' / (1 <<< s) = q' at *
  generalize n % (1 <<< s) = r at *
  generalize n' % (1 <<< s) = r' at *
  generalize 1 <<< s = d at *
  rcases Nat.lt_or_ge q q' with hlt | hge
  · split <;> split <;> omega
  · obtain rfl : q = q' := Nat.le_antisymm hq hge
    have hr : r ≤ r' := by omega
    split <;> split <;> omega

theorem roundShift_bounds {n s : Nat} :
    n / (1 <<< s) ≤ roundShift n s ∧ roundShift n s ≤ n / (1 <<< s) + 1 := by
  simp only [roundShift]
  split <;> omega

theorem significand_mono {n n' : Nat} (e : Nat) (h : n ≤ n') :
    significand n e ≤ significand n' e := by
  simp only [significand]
  split
  · rw [Nat.shiftLeft_eq, Nat.shiftLeft_eq]
    exact Nat.mul_le_mul_right _ h
  · exact roundShift_mono _ h

/-- The significand has its leading bit at place 52, or has just been rounded up to the next
power of two. -/
theorem significand_bounds {n : Nat} (h : n ≠ 0) :
    binade ≤ significand n n.log2 ∧ significand n n.log2 ≤ 2 * binade := by
  have hlow : 2 ^ n.log2 ≤ n := Nat.log2_self_le h
  have hhigh : n < 2 ^ (n.log2 + 1) := Nat.lt_log2_self
  generalize n.log2 = e at *
  have h52 : binade = 2 ^ 52 := rfl
  have h53 : 2 * binade = 2 ^ 53 := rfl
  rw [h53, h52]
  simp only [significand]
  split
  · rename_i he
    have hp : 2 ^ e * 2 ^ (52 - e) = 2 ^ 52 := by
      rw [← Nat.pow_add]; congr 1; omega
    have hp' : 2 ^ (e + 1) * 2 ^ (52 - e) = 2 ^ 53 := by
      rw [← Nat.pow_add]; congr 1; omega
    rw [Nat.shiftLeft_eq]
    exact ⟨hp ▸ Nat.mul_le_mul_right _ hlow,
      hp' ▸ Nat.mul_le_mul_right _ (Nat.le_of_lt hhigh)⟩
  · rename_i he
    have hp : 2 ^ 52 * 2 ^ (e - 52) = 2 ^ e := by
      rw [← Nat.pow_add]; congr 1; omega
    have hp' : 2 ^ 53 * 2 ^ (e - 52) = 2 ^ (e + 1) := by
      rw [← Nat.pow_add]; congr 1; omega
    have hpos : 0 < 2 ^ (e - 52) := Nat.two_pow_pos _
    have h₁ : 2 ^ 52 ≤ n / 2 ^ (e - 52) := (Nat.le_div_iff_mul_le hpos).2 (by rw [hp]; exact hlow)
    have h₂ : n / 2 ^ (e - 52) < 2 ^ 53 := (Nat.div_lt_iff_lt_mul hpos).2 (by rw [hp']; exact hhigh)
    have := @roundShift_bounds n (e - 52)
    rw [Nat.one_shiftLeft] at this
    omega

theorem ofNatMagnitude_mono {n n' : Nat} (h : n ≤ n') :
    ofNatMagnitude n ≤ ofNatMagnitude n' := by
  simp only [ofNatMagnitude]
  by_cases hn : n = 0
  · simp [hn]
  have hn' : n' ≠ 0 := by omega
  rw [if_neg hn, if_neg hn']
  have hb := significand_bounds hn
  have hb' := significand_bounds hn'
  have hlog : n.log2 ≤ n'.log2 := by
    rw [Nat.le_log2 hn']
    exact Nat.le_trans (Nat.log2_self_le hn) h
  rcases Nat.lt_or_ge n.log2 n'.log2 with hlt | hge
  · have hstep : (n.log2 + 1022 + 1) * binade ≤ (n'.log2 + 1022) * binade :=
      Nat.mul_le_mul_right _ (by omega)
    rw [Nat.succ_mul] at hstep
    omega
  · have he : n.log2 = n'.log2 := Nat.le_antisymm hlog hge
    rw [he]
    exact Nat.add_le_add_left (significand_mono _ h) _

/-- The magnitudes of 64-bit integers are finite. -/
theorem ofNatMagnitude_lt {n : Nat} (h : n < UInt64.size) : ofNatMagnitude n < infinity := by
  simp only [ofNatMagnitude, infinity]
  split
  · decide
  · rename_i hn
    have hb := significand_bounds hn
    have hlog : n.log2 < 64 := (Nat.log2_lt hn).2 h
    have : (n.log2 + 1022) * binade ≤ (63 + 1022) * binade :=
      Nat.mul_le_mul_right _ (by omega)
    have h52 : binade = 0x10000000000000 := rfl
    omega

theorem natAbs_toInt_lt (i : Int64) : i.toInt.natAbs < UInt64.size := by
  have h₁ := i.toInt_lt
  have h₂ := i.le_toInt
  rw [UInt64.size]
  omega

theorem rank_ofInt64 (i : Int64) :
    (ofInt64 i).rank = if i.toInt < 0 then -(ofNatMagnitude i.toInt.natAbs : Int) - 1
      else ofNatMagnitude i.toInt.natAbs := by
  have hm := ofNatMagnitude_lt (natAbs_toInt_lt i)
  simp only [infinity] at hm
  simp only [ofInt64, rank, isNegative, magnitude]
  split
  · rename_i h
    rw [UInt64.toNat_ofNat_of_lt' (by simp only [UInt64.size]; omega)]
    simp only [decide_eq_true_eq]
    split <;> omega
  · rename_i h
    rw [UInt64.toNat_ofNat_of_lt' (by simp only [UInt64.size]; omega)]
    simp only [decide_eq_true_eq]
    split <;> omega

/-- **Rounding keeps the order of the integers.** -/
theorem rank_ofInt64_mono {i j : Int64} (h : i.toInt ≤ j.toInt) :
    (ofInt64 i).rank ≤ (ofInt64 j).rank := by
  rw [rank_ofInt64, rank_ofInt64]
  split <;> split
  · have := @ofNatMagnitude_mono j.toInt.natAbs i.toInt.natAbs (by omega)
    omega
  · omega
  · omega
  · have := @ofNatMagnitude_mono i.toInt.natAbs j.toInt.natAbs (by omega)
    omega

example : ofInt64 1 = ⟨0x3ff0000000000000⟩ ∧ ofInt64 (-3) = ⟨0xc008000000000000⟩ := by decide

/-- Ties go to even: `2 ^ 53 + 1` down, `2 ^ 53 + 3` up. -/
example : ofInt64 9007199254740993 = ofInt64 9007199254740992 ∧
    ofInt64 9007199254740995 = ofInt64 9007199254740996 := by decide

/-- The largest integer rounds up to `2 ^ 63`, with a carry into the exponent. -/
example : ofInt64 Int64.maxValue = ⟨0x43e0000000000000⟩ := by decide

end Double
end KeyedRows
