/-
# How far predicates compare by number

Predicates compare an integer with a double by way of the double nearest to the
integer. Against the numbers themselves this can only go wrong in one way:
rounding never passes a double, so what is found less or greater is so, but an
integer is found equal to every double that it rounds to, also where it is none.

Beyond `2 ^ 53` that happens, and then `equal` is not transitive either: two
integers that share their nearest double are equal to it and not to each other.

Main statement: `compare?_numeric`.
-/

import KeyedRows.Proofs.Double.Numbers
import KeyedRows.Value

namespace KeyedRows

/-! ### Doubles -/

namespace Double
variable {x y : Double}

/-- Doubles are compared by number. -/
theorem compare?_eq_number (hx : x.isNaN = false) (hy : y.isNaN = false) :
    x.compare? y = some (compare x.number y.number) := by
  have hcompare : compare x.signed y.signed = compare x.number y.number := by
    rcases lt_trichotomy x.signed y.signed with hlt | heq | hgt
    · rw [compare_lt_iff_lt.2 hlt, compare_lt_iff_lt.2 ((number_lt_iff hx hy).2 hlt)]
    · rw [number, number, heq, compare_eq_iff_eq.2 rfl, compare_eq_iff_eq.2 rfl]
    · rw [compare_gt_iff_gt.2 hgt, compare_gt_iff_gt.2 ((number_lt_iff hy hx).2 hgt)]
  rw [compare?, hx, hy, ← hcompare]
  rfl

/-- Doubles are found equal if they are one number. -/
theorem compare?_eq_some_eq_iff :
    x.compare? y = some .eq ↔ x.isNaN = false ∧ y.isNaN = false ∧ x.number = y.number := by
  cases hx : x.isNaN with
  | true => simp [compare?, hx]
  | false =>
    cases hy : y.isNaN with
    | true => simp [compare?, hy]
    | false =>
      rw [compare?_eq_number hx hy, Option.some.injEq, compare_eq_iff_eq]
      exact ⟨fun h => ⟨rfl, rfl, h⟩, fun h => h.2.2⟩

theorem compare?_eq_some_eq_trans {z : Double} (hxy : x.compare? y = some .eq)
    (hyz : y.compare? z = some .eq) : x.compare? z = some .eq := by
  rw [compare?_eq_some_eq_iff] at *
  obtain ⟨hx, -, hxy⟩ := hxy
  obtain ⟨-, hz, hyz⟩ := hyz
  exact ⟨hx, hz, hxy.trans hyz⟩

/-- **The nearest double of an integer compares as the integer does**, except with a double of the
same number. -/
theorem compare_number_ofInt64 (a : Int64) (hy : y.isNaN = false) :
    compare (ofInt64 a).number y.number =
      if (ofInt64 a).number = y.number then .eq
      else compare ((a.toInt : ℝ) : EReal) y.number := by
  rcases lt_trichotomy (ofInt64 a).number y.number with hlt | heq | hgt
  · have hless : ((a.toInt : ℝ) : EReal) < y.number :=
      not_le.1 fun h => not_le.2 hlt (le_number_ofInt64 hy h)
    rw [if_neg hlt.ne, compare_lt_iff_lt.2 hlt, compare_lt_iff_lt.2 hless]
  · rw [if_pos heq, compare_eq_iff_eq.2 heq]
  · have hmore : y.number < ((a.toInt : ℝ) : EReal) :=
      not_le.1 fun h => not_le.2 hgt (number_ofInt64_le hy h)
    rw [if_neg hgt.ne', compare_gt_iff_gt.2 hgt, compare_gt_iff_gt.2 hmore]

end Double

/-! ### Values -/

namespace Value
variable {u v w : Value} {a : Int64} {b : Double}

theorem compare?_int_float (a : Int64) (hb : b.isNaN = false) :
    (int a).compare? (float b) =
      some (if (Double.ofInt64 a).number = b.number then .eq
        else compare ((a.toInt : ℝ) : EReal) b.number) := by
  rw [← Double.compare_number_ofInt64 a hb,
    ← Double.compare?_eq_number (Double.isNaN_ofInt64 a) hb]
  rfl

theorem compare?_float_int (a : Int64) (hb : b.isNaN = false) :
    (float b).compare? (int a) =
      some (if (Double.ofInt64 a).number = b.number then .eq
        else compare b.number ((a.toInt : ℝ) : EReal)) := by
  have hswap : compare b.number (Double.ofInt64 a).number =
      (if (Double.ofInt64 a).number = b.number then .eq
        else compare b.number ((a.toInt : ℝ) : EReal)) := by
    rw [Std.OrientedOrd.eq_swap, Double.compare_number_ofInt64 a hb]
    split
    · rfl
    · exact Std.OrientedOrd.eq_swap.symm
  rw [← hswap, ← Double.compare?_eq_number hb (Double.isNaN_ofInt64 a)]
  rfl

theorem compare?_int_int (a c : Int64) :
    (int a).compare? (int c) = some (compare ((a.toInt : ℝ) : EReal) ((c.toInt : ℝ) : EReal)) := by
  change some (compare a c) = _
  rcases lt_trichotomy a.toInt c.toInt with hlt | heq | hgt
  · have hless : ((a.toInt : ℝ) : EReal) < ((c.toInt : ℝ) : EReal) :=
      EReal.coe_lt_coe_iff.2 (Int.cast_lt.2 hlt)
    rw [compare_lt_iff_lt.2 hless, Std.compare_eq_lt.2 (Int64.lt_iff_toInt_lt.2 hlt)]
  · rw [Int64.toInt_inj.1 heq, compare_eq_iff_eq.2 rfl, Std.compare_eq_iff_eq.2 rfl]
  · have hmore : ((c.toInt : ℝ) : EReal) < ((a.toInt : ℝ) : EReal) :=
      EReal.coe_lt_coe_iff.2 (Int.cast_lt.2 hgt)
    rw [compare_gt_iff_gt.2 hmore, Std.compare_eq_gt.2 (Int64.lt_iff_toInt_lt.2 hgt)]

theorem compare?_float_right (u : Value) (b : Double) :
    u.compare? (float b) = u.asDouble.bind (·.compare? b) := by
  cases u <;> rfl

theorem compare?_float_left (b : Double) (v : Value) :
    (float b).compare? v = v.asDouble.bind b.compare? := by
  cases v <;> rfl

theorem eq_of_compare?_int {a c : Int64} (h : (int a).compare? (int c) = some .eq) : a = c :=
  Std.compare_eq_iff_eq.1 (Option.some.inj h)

/-- **Equality is transitive unless different integers meet in a double.** -/
theorem compare?_eq_trans (hnumeric : u.asDouble.isSome) (huv : u.compare? v = some .eq)
    (hvw : v.compare? w = some .eq)
    (hmeet : ∀ a b c, u = int a → v = float b → w = int c → a = c) :
    u.compare? w = some .eq := by
  cases v with
  | float b =>
    rw [compare?_float_right, Option.bind_eq_some_iff] at huv
    rw [compare?_float_left, Option.bind_eq_some_iff] at hvw
    obtain ⟨x, hx, hxb⟩ := huv
    obtain ⟨z, hz, hbz⟩ := hvw
    have hxz := Double.compare?_eq_some_eq_trans hxb hbz
    -- unless both ends are integers, their doubles are compared once more
    cases u with
    | float y =>
      obtain rfl : y = x := Option.some.inj hx
      rwa [compare?_float_left, hz]
    | int a =>
      cases w with
      | float y =>
        obtain rfl : y = z := Option.some.inj hz
        rwa [compare?_float_right, hx]
      | int c => exact congrArg some (Std.compare_eq_iff_eq.2 (hmeet a b c rfl rfl rfl))
      | null | bool | str | bytes => contradiction
    | null | bool | str | bytes => contradiction
  | int e =>
    cases u with
    | int a =>
      obtain rfl := eq_of_compare?_int huv
      exact hvw
    | float x =>
      cases w with
      | int c =>
        obtain rfl := eq_of_compare?_int hvw
        exact huv
      | float z => exact Double.compare?_eq_some_eq_trans huv hvw
      | null | bool | str | bytes => contradiction
    | null | bool | str | bytes => contradiction
  | null | bool | str | bytes => cases u <;> contradiction

/-- **When integers and doubles compare by number.** Whether an integer stands on the left or on the
right of a double, the outcome is the order of the integer and the number of the double, infinities
beyond all integers, unless the double is the one that the integer rounds to; then it is `equal`. So
the comparison is exact if and only if the integer is that double as soon as it rounds to it, and up
to `2 ^ 53` no integer is rounded. Two integers, and two doubles, are compared by number. Values that
are equal to one and the same value are equal, except for different integers on both sides of a
double. -/
theorem compare?_numeric (a : Int64) {b : Double} (hb : b.isNaN = false) :
    let exact : EReal := (a.toInt : ℝ)
    let nearest : EReal := (Double.ofInt64 a).number
    ((int a).compare? (float b) =
        some (if nearest = b.number then .eq else compare exact b.number) ∧
      (float b).compare? (int a) =
        some (if nearest = b.number then .eq else compare b.number exact)) ∧
    ((int a).compare? (float b) = some (compare exact b.number) ∧
        (float b).compare? (int a) = some (compare b.number exact) ↔
      (nearest = b.number → exact = b.number)) ∧
    (a.toInt.natAbs ≤ 2 ^ 53 → nearest = exact) ∧
    (∀ c : Int64, (int a).compare? (int c) = some (compare exact ((c.toInt : ℝ) : EReal))) ∧
    (∀ y : Double, y.isNaN = false →
      (float b).compare? (float y) = some (compare b.number y.number)) ∧
    ∀ u v w : Value, u.asDouble.isSome → u.compare? v = some .eq → v.compare? w = some .eq →
      (u.compare? w = some .eq ↔ ∀ a b c, u = int a → v = float b → w = int c → a = c) := by
  intro exact nearest
  have hleft : (int a).compare? (float b) =
      some (if nearest = b.number then .eq else compare exact b.number) := compare?_int_float a hb
  have hright : (float b).compare? (int a) =
      some (if nearest = b.number then .eq else compare b.number exact) := compare?_float_int a hb
  refine ⟨⟨hleft, hright⟩, ?_, Double.number_ofInt64, compare?_int_int a,
    fun y hy => Double.compare?_eq_number hb hy, fun u v w hnumeric huv hvw => ?_⟩
  · rw [hleft, hright]
    by_cases hnearest : nearest = b.number
    · rw [if_pos hnearest, if_pos hnearest]
      constructor
      · rintro ⟨h, -⟩ -
        exact compare_eq_iff_eq.1 (Option.some.inj h).symm
      · intro h
        rw [h hnearest, compare_eq_iff_eq.2 rfl]
        exact ⟨rfl, rfl⟩
    · rw [if_neg hnearest, if_neg hnearest]
      exact ⟨fun _ h => absurd h hnearest, fun _ => ⟨rfl, rfl⟩⟩
  · constructor
    · rintro huw a b c rfl rfl rfl
      exact eq_of_compare?_int huw
    · exact compare?_eq_trans hnumeric huv hvw

/-- At `2 ^ 53` an integer still is the double that it rounds to, on either side; and the zeros of
either sign are equal by way of the integer zero. -/
theorem compare?_two_pow_53 :
    let b : Double := ⟨0x4340000000000000⟩
    b.isNaN = false ∧ (9007199254740992 : Int64).toInt.natAbs ≤ 2 ^ 53 ∧
      (int 9007199254740992).compare? (float b) =
        some (compare (((9007199254740992 : Int64).toInt : ℝ) : EReal) b.number) ∧
      (float b).compare? (int 9007199254740992) =
        some (compare b.number (((9007199254740992 : Int64).toInt : ℝ) : EReal)) ∧
      (float .negZero).compare? (float ⟨0⟩) = some .eq := by
  intro b
  have hb : b.isNaN = false := by decide
  have hsmall : (9007199254740992 : Int64).toInt.natAbs ≤ 2 ^ 53 := by decide
  obtain ⟨-, hexact, hnearest, -, -, htrans⟩ := compare?_numeric 9007199254740992 hb
  obtain ⟨hleft, hright⟩ := hexact.2 fun h => (hnearest hsmall).symm.trans h
  have hzeros : (float .negZero).compare? (float ⟨0⟩) = some .eq := by
    refine (htrans _ (int 0) _ rfl (by decide) (by decide)).2 fun a b c h => ?_
    contradiction
  exact ⟨hb, hsmall, hleft, hright, hzeros⟩

/-- Beyond `2 ^ 53` it goes wrong: the integer `2 ^ 53 + 1` is found equal to the double `2 ^ 53`,
which is less, and so `equal` is not transitive. -/
theorem compare?_beyond_two_pow_53 :
    (int 9007199254740993).compare? (float ⟨0x4340000000000000⟩) = some .eq ∧
      (float ⟨0x4340000000000000⟩).compare? (int 9007199254740992) = some .eq ∧
      (int 9007199254740993).compare? (int 9007199254740992) = some .gt ∧
      (¬ ∀ (a : Int64) (b : Double), b.isNaN = false →
        (int a).compare? (float b) = some (compare ((a.toInt : ℝ) : EReal) b.number) ∧
          (float b).compare? (int a) = some (compare b.number ((a.toInt : ℝ) : EReal))) ∧
      ¬ ∀ u v w : Value, u.asDouble.isSome → v.asDouble.isSome → w.asDouble.isSome →
        u.compare? v = some .eq → v.compare? w = some .eq → u.compare? w = some .eq := by
  have hrounded : (int 9007199254740993).compare? (float ⟨0x4340000000000000⟩) = some .eq := by
    decide
  have hsame : (float ⟨0x4340000000000000⟩).compare? (int 9007199254740992) = some .eq := by
    decide
  have hgreater : (int 9007199254740993).compare? (int 9007199254740992) = some .gt := by
    decide
  refine ⟨hrounded, hsame, hgreater, fun hall => ?_, fun htrans => ?_⟩
  · obtain ⟨hleft, -⟩ := hall 9007199254740993 ⟨0x4340000000000000⟩ (by decide)
    obtain ⟨-, hright⟩ := hall 9007199254740992 ⟨0x4340000000000000⟩ (by decide)
    rw [hrounded, Option.some.injEq, eq_comm, compare_eq_iff_eq] at hleft
    rw [hsame, Option.some.injEq, eq_comm, compare_eq_iff_eq, ← hleft] at hright
    -- the two integers would be one number
    rw [EReal.coe_eq_coe_iff, Int.cast_inj] at hright
    exact absurd hright (by decide)
  · have hequal := htrans _ _ _ rfl rfl rfl hrounded hsame
    rw [hgreater] at hequal
    contradiction

end Value
end KeyedRows
