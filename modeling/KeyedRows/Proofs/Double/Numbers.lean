/-
# The numbers that doubles stand for

All finite doubles are whole multiples of the least positive one, `2 ^ -1074`. In
these units magnitudes are whole numbers: the first `binade` magnitudes count
single units, the next as many count single units too, the next count in steps
of two, then of four, and so on. So what a magnitude stands for grows strictly
(`units_strictMono`), and sign and magnitude, read as one integer, are in the
order of the numbers (`number_lt_iff`).

Rounding an integer to a double never passes a double: an integer that is at
most a double rounds to at most this double, and the same from above
(`ofNatMagnitude_le` and `le_ofNatMagnitude`). That is what comparisons of
integers with doubles rest on, and it needs no bound on the rounding error.

Main statements: `number_ofInt64_le` and `le_number_ofInt64`.
-/

import Mathlib.Data.EReal.Basic
import KeyedRows.Double.Integer

namespace KeyedRows
namespace Double

/-! ### Magnitudes as multiples of the least positive double -/

/-- How many times the least positive double a finite magnitude is. -/
def units (m : Nat) : Nat :=
  if m < binade then m else (binade + m % binade) * 2 ^ (m / binade - 1)

/-- How far the exponents of magnitudes are shifted. -/
def bias : Nat := 1022

/-- How many times the least positive double the number one is, `2 ^ 1074`. -/
def unitsOfOne : Nat := 2 ^ (52 + bias)

theorem binade_pos : 0 < binade := by decide

section Units
variable {m n q s : Nat}

/-- A magnitude that is put together from an exponent and a significand. The significand may just
have been rounded up to the next power of two. -/
theorem units_of_parts (hlow : q = 0 ∨ binade ≤ s) (hhigh : s ≤ 2 * binade) :
    units (q * binade + s) = s * 2 ^ q := by
  have hpos := binade_pos
  unfold units
  rcases Nat.lt_or_ge s binade with hs | hs
  · obtain rfl : q = 0 := by omega
    rw [Nat.zero_mul, Nat.zero_add, if_pos hs, Nat.pow_zero, Nat.mul_one]
  · rw [if_neg (by omega)]
    rcases Nat.lt_or_eq_of_le hhigh with hlt | rfl
    · have hm : q * binade + s = (s - binade) + (q + 1) * binade := by
        rw [Nat.succ_mul]
        omega
      have hlt : s - binade < binade := by omega
      rw [hm, Nat.add_mul_mod_self_right, Nat.add_mul_div_right _ _ hpos, Nat.mod_eq_of_lt hlt,
        Nat.div_eq_of_lt hlt, Nat.zero_add, Nat.add_sub_cancel, Nat.add_sub_cancel' hs]
    · have hm : q * binade + 2 * binade = (q + 2) * binade := (Nat.add_mul q 2 binade).symm
      rw [hm, Nat.mul_mod_left, Nat.mul_div_cancel _ hpos, Nat.add_zero,
        Nat.mul_comm 2 binade, Nat.mul_assoc, ← Nat.pow_succ']
      rfl

/-- Every magnitude has an exponent and a significand. -/
theorem exists_parts (m : Nat) :
    ∃ q s, m = q * binade + s ∧ (q = 0 ∨ binade ≤ s) ∧ s < 2 * binade := by
  have hpos := binade_pos
  rcases Nat.lt_or_ge m binade with hm | hm
  · exact ⟨0, m, by omega, .inl rfl, by omega⟩
  · have hlt : m % binade < binade := Nat.mod_lt _ hpos
    refine ⟨m / binade - 1, binade + m % binade, ?_, .inr (by omega), by omega⟩
    have hdiv : 1 ≤ m / binade := (Nat.le_div_iff_mul_le hpos).2 (by omega)
    have hsum := Nat.div_add_mod m binade
    obtain ⟨q, hq⟩ := Nat.exists_eq_add_of_le hdiv
    rw [hq, Nat.mul_add, Nat.mul_one, Nat.mul_comm] at hsum
    rw [hq, Nat.add_sub_cancel_left]
    omega

/-- **A larger magnitude stands for a larger number.** The next magnitude has the same exponent and
the next significand. -/
theorem units_strictMono : StrictMono units := by
  refine strictMono_nat_of_lt_succ fun m => ?_
  obtain ⟨q, s, rfl, hlow, hhigh⟩ := exists_parts m
  rw [Nat.add_assoc, units_of_parts hlow (by omega), units_of_parts (by omega) hhigh]
  exact Nat.mul_lt_mul_of_pos_right (Nat.lt_succ_self s) (Nat.two_pow_pos q)

@[simp] theorem units_zero : units 0 = 0 := rfl

/-! ### Rounding natural numbers -/

/-- Numbers scaled by one power of two are rounded alike. -/
theorem roundShift_scale (n s t : Nat) : roundShift (n * 2 ^ t) (s + t) = roundShift n s := by
  have hpos := Nat.two_pow_pos t
  simp only [roundShift, Nat.one_shiftLeft, Nat.pow_add, Nat.mul_div_mul_right _ _ hpos,
    Nat.mul_mod_mul_right, ← Nat.mul_assoc, Nat.mul_lt_mul_right hpos,
    Nat.mul_right_cancel_iff hpos]

theorem roundShift_mul (k s : Nat) : roundShift (k * 2 ^ s) s = k := by
  have h := roundShift_scale k 0 s
  rw [Nat.zero_add] at h
  rw [h, roundShift, Nat.shiftLeft_zero, Nat.div_one, Nat.mod_one]
  rfl

/-- The significand is rounded from 52 places behind the point, whether or not there are that
many. -/
theorem significand_eq (n e : Nat) : significand n e = roundShift (n * 2 ^ 52) e := by
  unfold significand
  by_cases he : e ≤ 52
  · have hpow : 2 ^ 52 = 2 ^ (52 - e) * 2 ^ e := by rw [← Nat.pow_add, Nat.sub_add_cancel he]
    rw [if_pos he, Nat.shiftLeft_eq, hpow, ← Nat.mul_assoc, roundShift_mul]
  · obtain ⟨s, rfl⟩ := Nat.exists_eq_add_of_le' (Nat.le_of_not_le he)
    rw [if_neg he, Nat.add_sub_cancel, roundShift_scale]

theorem significand_le {e k : Nat} (h : n * 2 ^ 52 ≤ k * 2 ^ e) : significand n e ≤ k := by
  rw [significand_eq, ← roundShift_mul k e]
  exact roundShift_mono e h

theorem le_significand {e k : Nat} (h : k * 2 ^ e ≤ n * 2 ^ 52) : k ≤ significand n e := by
  rw [significand_eq, ← roundShift_mul k e]
  exact roundShift_mono e h

theorem ofNatMagnitude_eq (hn : n ≠ 0) :
    ofNatMagnitude n = (n.log2 + bias) * binade + significand n n.log2 := if_neg hn

/-- What stands for a magnitude with the exponent of an integer, next to this integer. Both are
multiples of `2 ^ bias`. -/
theorem units_of_exponent {e k : Nat} (hlow : binade ≤ k) (hhigh : k ≤ 2 * binade) :
    units ((e + bias) * binade + k) = k * 2 ^ e * 2 ^ bias := by
  rw [units_of_parts (.inr hlow) hhigh, Nat.pow_add, Nat.mul_assoc]

theorem mul_unitsOfOne (n : Nat) : n * unitsOfOne = n * 2 ^ 52 * 2 ^ bias := by
  rw [unitsOfOne, Nat.pow_add, Nat.mul_assoc]

/-- The magnitudes between which the exponent puts an integer. -/
theorem units_bounds (hn : n ≠ 0) :
    units ((n.log2 + bias) * binade + binade) ≤ n * unitsOfOne ∧
      n * unitsOfOne < units ((n.log2 + bias) * binade + 2 * binade) := by
  have hlow : 2 ^ n.log2 ≤ n := Nat.log2_self_le hn
  have hhigh : n < 2 ^ (n.log2 + 1) := Nat.lt_log2_self
  rw [units_of_exponent (Nat.le_refl _) (by omega), units_of_exponent (by omega) (Nat.le_refl _),
    mul_unitsOfOne]
  have hpos := Nat.two_pow_pos bias
  have hbinade : binade = 2 ^ 52 := rfl
  constructor
  · refine Nat.mul_le_mul_right _ ?_
    rw [hbinade, Nat.mul_comm]
    exact Nat.mul_le_mul_right _ hlow
  · refine Nat.mul_lt_mul_of_pos_right ?_ hpos
    rw [hbinade, Nat.mul_right_comm, ← Nat.pow_succ']
    exact Nat.mul_lt_mul_of_pos_right hhigh (Nat.two_pow_pos 52)

/-- **An integer that is at most a double rounds to at most this double.** -/
theorem ofNatMagnitude_le (h : n * unitsOfOne ≤ units m) : ofNatMagnitude n ≤ m := by
  by_cases hn : n = 0
  · rw [hn]
    exact Nat.zero_le m
  rw [ofNatMagnitude_eq hn]
  obtain ⟨hlow, hhigh⟩ := units_bounds hn
  have hsig := significand_bounds hn
  -- a double of a larger exponent is beyond the significand, however it is rounded
  rcases Nat.lt_or_ge m ((n.log2 + bias) * binade + 2 * binade) with hm | hm
  · have hexp : (n.log2 + bias) * binade + binade ≤ m :=
      units_strictMono.le_iff_le.1 (Nat.le_trans hlow h)
    obtain ⟨k, rfl⟩ := Nat.exists_eq_add_of_le (Nat.le_trans (Nat.le_add_right _ _) hexp)
    rw [units_of_exponent (by omega) (by omega), mul_unitsOfOne] at h
    have := significand_le (Nat.le_of_mul_le_mul_right h (Nat.two_pow_pos bias))
    omega
  · omega

/-- **An integer that is at least a double rounds to at least this double.** -/
theorem le_ofNatMagnitude (h : units m ≤ n * unitsOfOne) : m ≤ ofNatMagnitude n := by
  by_cases hn : n = 0
  · rw [hn, Nat.zero_mul, ← units_zero] at h
    exact Nat.le_trans (units_strictMono.le_iff_le.1 h) (Nat.zero_le _)
  rw [ofNatMagnitude_eq hn]
  obtain ⟨hlow, hhigh⟩ := units_bounds hn
  have hsig := significand_bounds hn
  rcases Nat.lt_or_ge ((n.log2 + bias) * binade + binade) m with hm | hm
  · have hexp : m < (n.log2 + bias) * binade + 2 * binade :=
      units_strictMono.lt_iff_lt.1 (Nat.lt_of_le_of_lt h hhigh)
    obtain ⟨k, rfl⟩ := Nat.exists_eq_add_of_le (Nat.le_trans (Nat.le_add_right _ _) hm.le)
    rw [units_of_exponent (by omega) (by omega), mul_unitsOfOne] at h
    have := le_significand (Nat.le_of_mul_le_mul_right h (Nat.two_pow_pos bias))
    omega
  · omega

/-- Up to `2 ^ 53` the double nearest to an integer is the integer. -/
theorem units_ofNatMagnitude (h : n ≤ 2 ^ 53) : units (ofNatMagnitude n) = n * unitsOfOne := by
  by_cases hn : n = 0
  · rw [hn, Nat.zero_mul]
    rfl
  obtain ⟨hlow, hhigh⟩ := significand_bounds hn
  rw [ofNatMagnitude_eq hn, units_of_exponent hlow hhigh, mul_unitsOfOne]
  congr 1
  rcases Nat.lt_or_eq_of_le h with hlt | rfl
  · have he : n.log2 < 53 := (Nat.log2_lt hn).2 hlt
    rw [significand, if_pos (by omega), Nat.shiftLeft_eq, Nat.mul_assoc, ← Nat.pow_add,
      Nat.sub_add_cancel (by omega)]
  · rw [Nat.log2_two_pow]
    decide

end Units

/-! ### Sign and magnitude -/

/-- How many times the least positive double the number with a sign and a finite magnitude is. -/
def signedUnits (k : Int) : Int := if k < 0 then -(units k.natAbs : Int) else units k.natAbs

/-- Sign and magnitude of the double nearest to an integer. -/
def roundInt (i : Int) : Int :=
  if i < 0 then -(ofNatMagnitude i.natAbs : Int) else ofNatMagnitude i.natAbs

section Signed
variable {i k k' : Int}

theorem signedUnits_neg (k : Int) : signedUnits (-k) = -signedUnits k := by
  unfold signedUnits
  rw [Int.natAbs_neg]
  rcases Int.lt_trichotomy k 0 with hk | rfl | hk
  · rw [if_neg (by omega), if_pos hk, Int.neg_neg]
  · rfl
  · rw [if_pos (by omega), if_neg (by omega)]

theorem roundInt_neg (i : Int) : roundInt (-i) = -roundInt i := by
  unfold roundInt
  rw [Int.natAbs_neg]
  rcases Int.lt_trichotomy i 0 with hi | rfl | hi
  · rw [if_neg (by omega), if_pos hi, Int.neg_neg]
  · rfl
  · rw [if_pos (by omega), if_neg (by omega)]

theorem signedUnits_lt (hlt : k < k') : signedUnits k < signedUnits k' := by
  have hmono := units_strictMono.lt_iff_lt (a := k.natAbs) (b := k'.natAbs)
  have hmono' := units_strictMono.lt_iff_lt (a := k'.natAbs) (b := k.natAbs)
  have hpos := units_strictMono.lt_iff_lt (a := 0) (b := k.natAbs)
  rw [units_zero] at hpos
  unfold signedUnits
  split <;> split <;> omega

/-- **What is at most a double rounds to at most this double.** -/
theorem roundInt_le (h : i * unitsOfOne ≤ signedUnits k) : roundInt i ≤ k := by
  unfold roundInt
  by_cases hi : i < 0
  · rw [if_pos hi]
    by_cases hk : k < 0
    · have hunits : units k.natAbs ≤ i.natAbs * unitsOfOne := by
        rw [signedUnits, if_pos hk] at h
        zify
        rw [abs_of_neg hi, Int.neg_mul]
        omega
      have := le_ofNatMagnitude hunits
      omega
    · omega
  · rw [if_neg hi]
    by_cases hk : k < 0
    · -- no negative double is as large as zero
      have hneg : signedUnits k < 0 := signedUnits_lt hk
      have hzero : 0 ≤ i * unitsOfOne := Int.mul_nonneg (by omega) (by omega)
      omega
    · have hunits : i.natAbs * unitsOfOne ≤ units k.natAbs := by
        rw [signedUnits, if_neg hk] at h
        zify
        rwa [abs_of_nonneg (Int.not_lt.1 hi)]
      have := ofNatMagnitude_le hunits
      omega

/-- **What is at least a double rounds to at least this double.** -/
theorem le_roundInt (h : signedUnits k ≤ i * unitsOfOne) : k ≤ roundInt i := by
  have hneg : -i * unitsOfOne ≤ signedUnits (-k) := by
    rw [signedUnits_neg, Int.neg_mul]
    omega
  have := roundInt_le hneg
  rw [roundInt_neg] at this
  omega

theorem signedUnits_roundInt (h : i.natAbs ≤ 2 ^ 53) :
    signedUnits (roundInt i) = i * unitsOfOne := by
  have hnonneg : ∀ n : Nat, n ≤ 2 ^ 53 → signedUnits (roundInt n) = n * unitsOfOne := by
    intro n hn
    rw [roundInt, if_neg (by omega), signedUnits, if_neg (by omega), Int.natAbs_natCast,
      Int.natAbs_natCast, units_ofNatMagnitude hn, Nat.cast_mul]
  obtain hi | hi := Int.natAbs_eq i
  · rw [hi]
    exact hnonneg _ h
  · rw [hi, roundInt_neg, signedUnits_neg, hnonneg _ h, Int.neg_mul]

theorem signed_eq (x : Double) : x.signed = if x.rank < 0 then x.rank + 1 else x.rank := by
  unfold signed rank
  cases x.isNegative
  · simp
  · simp
    omega

theorem natAbs_signed (x : Double) : x.signed.natAbs = x.magnitude := by
  unfold signed
  split <;> omega

theorem signed_ofInt64 (a : Int64) : (ofInt64 a).signed = roundInt a.toInt := by
  rw [signed_eq, rank_ofInt64, roundInt]
  split <;> split <;> omega

end Signed

/-! ### Numbers -/

/-- The number that a sign and a magnitude stand for. -/
noncomputable def numberOf (k : Int) : EReal :=
  if k.natAbs < infinity then ((signedUnits k / unitsOfOne : ℝ) : EReal)
  else if k < 0 then ⊥ else ⊤

/-- The number that a double stands for. (A NaN stands for none.) -/
noncomputable def number (x : Double) : EReal := numberOf x.signed

section Numbers
variable {x y : Double} {i k k' : Int}

theorem infinity_pos : 0 < infinity := by decide

theorem unitsOfOne_pos : (0 : ℝ) < unitsOfOne := Nat.cast_pos.2 (Nat.two_pow_pos _)

theorem numberOf_of_lt (h : k.natAbs < infinity) :
    numberOf k = ((signedUnits k / unitsOfOne : ℝ) : EReal) := if_pos h

@[simp] theorem numberOf_infinity : numberOf infinity = ⊤ := rfl

@[simp] theorem numberOf_neg_infinity : numberOf (-infinity) = ⊥ := rfl

/-- A sign and a magnitude up to infinity stand for a finite number or for an infinity. -/
theorem finite_or_infinite (h : k.natAbs ≤ infinity) :
    k.natAbs < infinity ∨ k = infinity ∨ k = -infinity := by
  omega

/-- **Sign and magnitude are in the order of the numbers.** -/
theorem numberOf_lt (hk : k.natAbs ≤ infinity) (hk' : k'.natAbs ≤ infinity) (h : k < k') :
    numberOf k < numberOf k' := by
  have hpos := infinity_pos
  rcases finite_or_infinite hk with hlt | rfl | rfl
  · rcases finite_or_infinite hk' with hlt' | rfl | rfl
    · rw [numberOf_of_lt hlt, numberOf_of_lt hlt', EReal.coe_lt_coe_iff,
        div_lt_div_iff_of_pos_right unitsOfOne_pos, Int.cast_lt]
      exact signedUnits_lt h
    · rw [numberOf_of_lt hlt, numberOf_infinity]
      exact EReal.coe_lt_top _
    · omega
  · omega
  · rcases finite_or_infinite hk' with hlt' | rfl | rfl
    · rw [numberOf_of_lt hlt', numberOf_neg_infinity]
      exact EReal.bot_lt_coe _
    · exact bot_lt_top
    · omega

/-- An integer against the number of a sign and a magnitude. -/
theorem cast_le_numberOf_iff (h : k.natAbs < infinity) :
    ((i : ℝ) : EReal) ≤ numberOf k ↔ i * unitsOfOne ≤ signedUnits k := by
  rw [numberOf_of_lt h, EReal.coe_le_coe_iff, le_div_iff₀ unitsOfOne_pos]
  exact_mod_cast Iff.rfl

theorem numberOf_le_cast_iff (h : k.natAbs < infinity) :
    numberOf k ≤ ((i : ℝ) : EReal) ↔ signedUnits k ≤ i * unitsOfOne := by
  rw [numberOf_of_lt h, EReal.coe_le_coe_iff, div_le_iff₀ unitsOfOne_pos]
  exact_mod_cast Iff.rfl

theorem natAbs_roundInt (i : Int) : (roundInt i).natAbs = ofNatMagnitude i.natAbs := by
  unfold roundInt
  split <;> omega

theorem natAbs_signed_ofInt64 (a : Int64) : (ofInt64 a).signed.natAbs < infinity := by
  rw [signed_ofInt64, natAbs_roundInt]
  exact ofNatMagnitude_lt (natAbs_toInt_lt a)

theorem natAbs_signed_le (hx : x.isNaN = false) : x.signed.natAbs ≤ infinity := by
  rw [natAbs_signed]
  rwa [isNaN, decide_eq_false_iff_not, Nat.not_lt] at hx

theorem isNaN_ofInt64 (a : Int64) : (ofInt64 a).isNaN = false := by
  have h := natAbs_signed_ofInt64 a
  rw [natAbs_signed] at h
  exact decide_eq_false (by omega)

theorem number_ofInt64 {a : Int64} (h : a.toInt.natAbs ≤ 2 ^ 53) :
    (ofInt64 a).number = ((a.toInt : ℝ) : EReal) := by
  rw [number, numberOf_of_lt (natAbs_signed_ofInt64 a), signed_ofInt64, signedUnits_roundInt h,
    EReal.coe_eq_coe_iff, div_eq_iff unitsOfOne_pos.ne']
  exact_mod_cast rfl

theorem number_lt_iff (hx : x.isNaN = false) (hy : y.isNaN = false) :
    x.number < y.number ↔ x.signed < y.signed := by
  have hxs := natAbs_signed_le hx
  have hys := natAbs_signed_le hy
  refine ⟨fun hlt => ?_, numberOf_lt hxs hys⟩
  rcases Int.lt_trichotomy x.signed y.signed with h | h | h
  · exact h
  · exact absurd (congrArg numberOf h) hlt.ne
  · exact absurd (numberOf_lt hys hxs h) hlt.asymm

theorem number_le_iff (hx : x.isNaN = false) (hy : y.isNaN = false) :
    x.number ≤ y.number ↔ x.signed ≤ y.signed := by
  rw [← not_lt, number_lt_iff hy hx, Int.not_lt]

/-- **An integer that is at most a double rounds to at most this double.** -/
theorem number_ofInt64_le {a : Int64} (hx : x.isNaN = false)
    (h : ((a.toInt : ℝ) : EReal) ≤ x.number) : (ofInt64 a).number ≤ x.number := by
  have hround := natAbs_signed_ofInt64 a
  rw [number_le_iff (isNaN_ofInt64 a) hx]
  unfold number at h
  rcases finite_or_infinite (natAbs_signed_le hx) with hlt | htop | hbot
  · rw [cast_le_numberOf_iff hlt] at h
    rw [signed_ofInt64]
    exact roundInt_le h
  · omega
  · rw [hbot, numberOf_neg_infinity] at h
    exact absurd (EReal.bot_lt_coe _) (not_lt.2 h)

/-- **An integer that is at least a double rounds to at least this double.** -/
theorem le_number_ofInt64 {a : Int64} (hx : x.isNaN = false)
    (h : x.number ≤ ((a.toInt : ℝ) : EReal)) : x.number ≤ (ofInt64 a).number := by
  have hround := natAbs_signed_ofInt64 a
  rw [number_le_iff hx (isNaN_ofInt64 a)]
  unfold number at h
  rcases finite_or_infinite (natAbs_signed_le hx) with hlt | htop | hbot
  · rw [numberOf_le_cast_iff hlt] at h
    rw [signed_ofInt64]
    exact le_roundInt h
  · rw [htop, numberOf_infinity] at h
    exact absurd (EReal.coe_lt_top _) (not_lt.2 h)
  · omega

end Numbers

end Double
end KeyedRows
