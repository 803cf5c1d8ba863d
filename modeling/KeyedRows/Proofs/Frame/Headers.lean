/-
# What headers are

A header is one to five bytes, of which all but the last have their top bit set
and the last has not; a fifth byte is at most `0x0f`. Its bytes need not be as
few as possible. What it announces is the number that its groups of seven bits
make, the least significant first, and that number fits 32 bits.

Whatever bytes a buffer has, it begins in one of three ways (`front_cases`):

| the buffer begins with | reading it gives |
| --- | --- |
| at most four bytes with the top bit set, and no more | nothing yet |
| four of them and a byte above `0x0f` | a fault |
| a header | what it announces, and its size |

The four bits of the fifth byte are what is left of 32 after four groups of
seven. So a word of 32 bits, with the bits of each byte put in at its place,
holds what was read at every moment, and no bit is lost (`accumulate_eq`).

Main statements: `readHeader_eq_some_iff`, `readHeader_eq_error_iff` and
`readHeader_eq_none_iff`.
-/

import KeyedRows.Proofs.Frame.Pop
import Mathlib.Data.Nat.Bitwise
import Mathlib.Tactic.Ring

namespace KeyedRows
namespace Frame

/-! ### Headers -/

/-- The number that groups of seven bits make, the least significant group first. -/
def announced : Bytes → Nat
  | [] => 0
  | b :: bs => b.toNat % 128 + 128 * announced bs

/-- The bytes have their top bit set, so the header goes on behind them. -/
def Continues (groups : Bytes) : Prop := ∀ b ∈ groups, 0x80 ≤ b

/-- The bytes are a complete header. -/
structure IsHeader (front : Bytes) : Prop where
  ends : ∃ groups last, front = groups ++ [last] ∧ Continues groups ∧ last < 0x80
  size_le : front.length ≤ 5
  fifth : ∀ b, front[4]? = some b → b ≤ 0x0f

/-- The bytes begin a header of more than 32 bits. -/
structure IsOverlong (buffer : Bytes) : Prop where
  continues : Continues (buffer.take 4)
  fifth : ∃ b, buffer[4]? = some b ∧ 0x0f < b

theorem announced_append (groups more : Bytes) :
    announced (groups ++ more) = announced groups + 128 ^ groups.length * announced more := by
  induction groups with
  | nil => simp [announced]
  | cons b groups ih =>
    simp only [List.cons_append, List.length_cons, announced, ih, pow_succ]
    ring

theorem announced_lt (groups : Bytes) : announced groups < 128 ^ groups.length := by
  induction groups with
  | nil => simp [announced]
  | cons b groups ih =>
    rw [announced, List.length_cons, pow_succ]
    omega

/-- A header from its parts. -/
theorem isHeader_concat {groups : Bytes} {last : UInt8} (hgroups : Continues groups)
    (hlast : last < 0x80) (hsize : groups.length ≤ 4) (hfifth : groups.length = 4 → last ≤ 0x0f) :
    IsHeader (groups ++ [last]) where
  ends := ⟨groups, last, rfl, hgroups, hlast⟩
  size_le := by
    rw [List.length_append, List.length_singleton]
    omega
  fifth b hb := by
    have hfour : groups.length = 4 := by
      have := (List.getElem?_eq_some_iff.1 hb).1
      rw [List.length_append, List.length_singleton] at this
      omega
    rw [← hfour, List.getElem?_concat_length] at hb
    rw [← Option.some.inj hb]
    exact hfifth hfour

namespace IsHeader
variable {front : Bytes}

theorem parts (h : IsHeader front) : ∃ groups last, front = groups ++ [last] ∧ Continues groups ∧
    last < 0x80 ∧ groups.length ≤ 4 ∧ (groups.length = 4 → last ≤ 0x0f) := by
  obtain ⟨groups, last, rfl, hgroups, hlast⟩ := h.ends
  have hsize := h.size_le
  rw [List.length_append, List.length_singleton] at hsize
  refine ⟨groups, last, rfl, hgroups, hlast, by omega, fun hfour => h.fifth last ?_⟩
  rw [← hfour, List.getElem?_concat_length]

theorem size_pos (h : IsHeader front) : 1 ≤ front.length := by
  obtain ⟨groups, last, rfl, -⟩ := h.ends
  simp

/-- **A header announces less than `2 ^ 32`.** -/
theorem announced_lt (h : IsHeader front) : announced front < UInt32.size := by
  obtain ⟨groups, last, rfl, -, -, hsize, hfifth⟩ := h.parts
  have hgroups := Frame.announced_lt groups
  rw [announced_append, announced, announced, Nat.mul_zero, Nat.add_zero]
  by_cases hfour : groups.length = 4
  · have hlast := UInt8.le_iff_toNat_le.1 (hfifth hfour)
    simp only [hfour, UInt8.reduceToNat] at hgroups hlast ⊢
    simp only [UInt32.size]
    omega
  · have hpow : 128 ^ groups.length ≤ 128 ^ 3 := Nat.pow_le_pow_right (by decide) (by omega)
    have hmul : 128 ^ groups.length * (last.toNat % 128) ≤ 128 ^ 3 * 127 :=
      Nat.mul_le_mul hpow (by omega)
    simp only [UInt32.size]
    omega

end IsHeader

/-! ### Reading headers -/

/-- How the bytes of a buffer begin, the first of them being byte `i` of a header. -/
inductive Front (i : Nat) : Bytes → Prop where
  | waiting (groups : Bytes) (hgroups : Continues groups) (hsize : i + groups.length ≤ 4) :
    Front i groups
  | overlong (groups : Bytes) (b : UInt8) (rest : Bytes) (hgroups : Continues groups)
    (hsize : i + groups.length = 4) (hb : 0x0f < b) : Front i (groups ++ b :: rest)
  | complete (groups : Bytes) (last : UInt8) (rest : Bytes) (hgroups : Continues groups)
    (hlast : last < 0x80) (hsize : i + groups.length ≤ 4)
    (hfifth : i + groups.length = 4 → last ≤ 0x0f) : Front i (groups ++ last :: rest)

theorem Continues.cons {b : UInt8} {groups : Bytes} (hb : 0x80 ≤ b) (h : Continues groups) :
    Continues (b :: groups) := by
  rintro c hc
  rcases List.mem_cons.1 hc with rfl | hc
  · exact hb
  · exact h c hc

theorem continues_nil : Continues [] := fun _ h => absurd h List.not_mem_nil

/-- A byte with the top bit set is no fifth one: there it would be too great. -/
theorem ne_four_of_continues {i : Nat} {b : UInt8} (hlong : ¬ (i = 4 ∧ 0x0f < b))
    (hb : 0x80 ≤ b) : i ≠ 4 := by
  rintro rfl
  exact hlong ⟨rfl, UInt8.lt_of_lt_of_le (by decide) hb⟩

/-- **There is no fourth way to begin.** -/
theorem front_cases {i : Nat} (hi : i ≤ 4) (buffer : Bytes) : Front i buffer := by
  induction buffer generalizing i with
  | nil => exact .waiting [] continues_nil hi
  | cons b bs ih =>
    by_cases hlong : i = 4 ∧ 0x0f < b
    · exact .overlong [] b bs continues_nil hlong.1 hlong.2
    by_cases hlast : b < 0x80
    · refine .complete [] b bs continues_nil hlast hi fun hfour => ?_
      exact UInt8.not_lt.1 fun hb => hlong ⟨hfour, hb⟩
    have hb : 0x80 ≤ b := UInt8.not_lt.1 hlast
    have hfour := ne_four_of_continues hlong hb
    cases ih (i := i + 1) (by omega) with
    | waiting groups hgroups hsize =>
      exact .waiting (b :: bs) (hgroups.cons hb) (by rw [List.length_cons]; omega)
    | overlong groups c rest hgroups hsize hc =>
      exact .overlong (b :: groups) c rest (hgroups.cons hb) (by rw [List.length_cons]; omega) hc
    | complete groups last rest hgroups hlast hsize hfifth =>
      refine .complete (b :: groups) last rest (hgroups.cons hb) hlast ?_ fun h => hfifth ?_
      · rw [List.length_cons]
        omega
      · rw [List.length_cons] at h
        omega

/-- A byte with the top bit set is passed over. Its other seven bits count, and what follows counts
128 times. -/
theorem readHeaderFrom_cons {i : Nat} {b : UInt8} (hi : i < 4) (hb : 0x80 ≤ b) (bs : Bytes) :
    readHeaderFrom i (b :: bs) = (readHeaderFrom (i + 1) bs).map
      (Option.map fun a => (b.toNat % 128 + 128 * a.1, a.2 + 1)) := by
  have hlow : b.toNat - 128 = b.toNat % 128 := by
    have hle : 128 ≤ b.toNat := UInt8.le_iff_toNat_le.1 hb
    have hlt := b.toNat_lt
    omega
  rw [readHeaderFrom, if_neg fun h => absurd h.1 (Nat.ne_of_lt hi), if_neg (UInt8.not_lt.2 hb),
    hlow]
  rcases readHeaderFrom (i + 1) bs with fault | _ | a <;> rfl

theorem readHeaderFrom_groups {i : Nat} {groups : Bytes} (hgroups : Continues groups)
    (hsize : i + groups.length ≤ 4) (more : Bytes) :
    readHeaderFrom i (groups ++ more) =
      (readHeaderFrom (i + groups.length) more).map (Option.map fun a =>
        (announced groups + 128 ^ groups.length * a.1, a.2 + groups.length)) := by
  induction groups generalizing i with
  | nil =>
    rw [List.nil_append, List.length_nil, Nat.add_zero]
    rcases readHeaderFrom i more with fault | _ | a <;> simp [announced, Except.map]
  | cons b groups ih =>
    rw [List.length_cons] at hsize
    have hrest := ih (i := i + 1) (fun c hc => hgroups c (List.mem_cons_of_mem _ hc)) (by omega)
    rw [List.cons_append, readHeaderFrom_cons (by omega) (hgroups b List.mem_cons_self), hrest,
      List.length_cons, Nat.add_right_comm i 1, ← Nat.add_assoc]
    rcases readHeaderFrom (i + groups.length + 1) more with fault | _ | a
    · rfl
    · rfl
    · simp only [Except.map, Option.map_some, announced, pow_succ, Nat.add_assoc]
      congr 3
      ring

theorem readHeader_waiting {groups : Bytes} (hgroups : Continues groups)
    (hsize : groups.length ≤ 4) : readHeader groups = .ok none := by
  have h := readHeaderFrom_groups (i := 0) hgroups (by omega) []
  rwa [List.append_nil] at h

theorem readHeader_overlong {groups : Bytes} {b : UInt8} (hgroups : Continues groups)
    (hsize : groups.length = 4) (hb : 0x0f < b) (rest : Bytes) :
    readHeader (groups ++ b :: rest) = .error .overlongHeader := by
  rw [readHeader, readHeaderFrom_groups hgroups (by omega), readHeaderFrom,
    if_pos ⟨by omega, hb⟩]
  rfl

/-- **A header is read as what it announces**, whatever follows. -/
theorem readHeader_of_isHeader {front : Bytes} (h : IsHeader front) (rest : Bytes) :
    readHeader (front ++ rest) = .ok (some (announced front, front.length)) := by
  obtain ⟨groups, last, rfl, hgroups, hlast, hsize, hfifth⟩ := h.parts
  have hlong : ¬ (0 + groups.length = 4 ∧ 0x0f < last) := by
    rintro ⟨hfour, hb⟩
    exact UInt8.not_lt.2 (hfifth (by omega)) hb
  have hlow : last.toNat % 128 = last.toNat := Nat.mod_eq_of_lt (UInt8.lt_iff_toNat_lt.1 hlast)
  rw [List.append_assoc, List.singleton_append, readHeader,
    readHeaderFrom_groups hgroups (by omega), readHeaderFrom, if_neg hlong, if_pos hlast,
    announced_append, List.length_append, List.length_singleton, Nat.add_comm groups.length 1]
  simp [Except.map, announced, hlow]

theorem isOverlong_append {groups : Bytes} {b : UInt8} (hgroups : Continues groups)
    (hsize : groups.length = 4) (hb : 0x0f < b) (rest : Bytes) :
    IsOverlong (groups ++ b :: rest) where
  continues := by rwa [← hsize, List.take_left]
  fifth := ⟨b, by rw [← hsize]; simp, hb⟩

namespace IsOverlong
variable {buffer : Bytes}

theorem parts (h : IsOverlong buffer) : ∃ groups b rest, buffer = groups ++ b :: rest ∧
    Continues groups ∧ groups.length = 4 ∧ 0x0f < b := by
  obtain ⟨b, hfifth, hb⟩ := h.fifth
  obtain ⟨hlength, rfl⟩ := List.getElem?_eq_some_iff.1 hfifth
  refine ⟨buffer.take 4, buffer[4], buffer.drop 5, ?_, h.continues, ?_, hb⟩
  · rw [← List.drop_eq_getElem_cons, List.take_append_drop]
  · rw [List.length_take]
    omega

end IsOverlong

/-- **A header that is read** stands at the front. -/
theorem readHeader_eq_some_iff {buffer : Bytes} {n size : Nat} :
    readHeader buffer = .ok (some (n, size)) ↔
      ∃ front rest, IsHeader front ∧ buffer = front ++ rest ∧
        announced front = n ∧ front.length = size := by
  constructor
  · intro h
    cases front_cases (Nat.zero_le 4) buffer with
    | waiting groups hgroups hsize =>
      rw [readHeader_waiting hgroups (by omega)] at h
      simp at h
    | overlong groups b rest hgroups hsize hb =>
      rw [readHeader_overlong hgroups (by omega) hb] at h
      simp at h
    | complete groups last rest hgroups hlast hsize hfifth =>
      have hheader := isHeader_concat hgroups hlast (by omega) fun hfour => hfifth (by omega)
      refine ⟨groups ++ [last], rest, hheader, List.append_cons .., ?_⟩
      rw [List.append_cons, readHeader_of_isHeader hheader] at h
      simpa using h
  · rintro ⟨front, rest, hfront, rfl, rfl, rfl⟩
    exact readHeader_of_isHeader hfront rest

/-- **A fault** is a fifth byte that has no room, behind four that go on. -/
theorem readHeader_eq_error_iff {buffer : Bytes} {fault : Fault} :
    readHeader buffer = .error fault ↔ fault = .overlongHeader ∧ IsOverlong buffer := by
  constructor
  · intro h
    cases front_cases (Nat.zero_le 4) buffer with
    | waiting groups hgroups hsize =>
      rw [readHeader_waiting hgroups (by omega)] at h
      contradiction
    | overlong groups b rest hgroups hsize hb =>
      rw [readHeader_overlong hgroups (by omega) hb] at h
      exact ⟨(Except.error.inj h).symm, isOverlong_append hgroups (by omega) hb rest⟩
    | complete groups last rest hgroups hlast hsize hfifth =>
      have hheader := isHeader_concat hgroups hlast (by omega) fun hfour => hfifth (by omega)
      rw [List.append_cons, readHeader_of_isHeader hheader] at h
      contradiction
  · rintro ⟨rfl, hover⟩
    obtain ⟨groups, b, rest, rfl, hgroups, hsize, hb⟩ := hover.parts
    exact readHeader_overlong hgroups hsize hb rest

/-- **Nothing is known yet** of at most four bytes that all go on. -/
theorem readHeader_eq_none_iff {buffer : Bytes} :
    readHeader buffer = .ok none ↔ Continues buffer ∧ buffer.length ≤ 4 := by
  constructor
  · intro h
    cases front_cases (Nat.zero_le 4) buffer with
    | waiting groups hgroups hsize => exact ⟨hgroups, by omega⟩
    | overlong groups b rest hgroups hsize hb =>
      rw [readHeader_overlong hgroups (by omega) hb] at h
      contradiction
    | complete groups last rest hgroups hlast hsize hfifth =>
      have hheader := isHeader_concat hgroups hlast (by omega) fun hfour => hfifth (by omega)
      rw [List.append_cons, readHeader_of_isHeader hheader] at h
      simp at h
  · rintro ⟨hcontinues, hlength⟩
    exact readHeader_waiting hcontinues hlength

/-! ### In a word of 32 bits -/

/-- Reads a header into a word: the low bits of byte `i` are put in `7 * i` places up, beside those
that are there. No more than five bytes are looked at. -/
def accumulate (value : UInt32) (i : Nat) : Bytes → Except Fault (Option (UInt32 × Nat))
  | [] => .ok none
  | b :: bs =>
    if 5 ≤ i then .ok none
    else if i = 4 ∧ 0x0f < b then .error .overlongHeader
    else
      let value := value ||| (b &&& 0x7f).toUInt32 <<< UInt32.ofNat (7 * i)
      if b &&& 0x80 = 0 then .ok (some (value, i + 1)) else accumulate value (i + 1) bs

theorem and_top_eq_zero_iff (b : UInt8) : b &&& 0x80 = 0 ↔ b < 0x80 := by
  have hbit : b.toNat &&& 2 ^ 7 = (b.toNat.testBit 7).toNat * 2 ^ 7 := Nat.and_two_pow ..
  have hlt := b.toNat_lt
  rw [← UInt8.toNat_inj, UInt8.toNat_and, UInt8.lt_iff_toNat_lt]
  change b.toNat &&& 2 ^ 7 = 0 ↔ b.toNat < 128
  rw [hbit, Nat.testBit_eq_decide_div_mod_eq]
  by_cases h : b.toNat < 128
  · simp [h, Nat.div_eq_of_lt h]
  · have hone : b.toNat / 128 % 2 = 1 := by omega
    simp [h, hone]

/-- Room for the bits of a byte above those that are there: putting them in is adding them. -/
theorem toNat_or_shiftLeft {value : UInt32} {b : UInt8} {i : Nat} (hi : i ≤ 4)
    (hvalue : value.toNat < 2 ^ (7 * i)) (hroom : 2 ^ (7 * i) * (b.toNat % 128) < UInt32.size) :
    (value ||| (b &&& 0x7f).toUInt32 <<< UInt32.ofNat (7 * i)).toNat =
      value.toNat + 2 ^ (7 * i) * (b.toNat % 128) := by
  have hlow : (b &&& 0x7f).toUInt32.toNat = b.toNat % 128 := by
    rw [UInt8.toNat_toUInt32, UInt8.toNat_and]
    exact Nat.and_two_pow_sub_one_eq_mod b.toNat 7
  have hplaces : (UInt32.ofNat (7 * i)).toNat % 32 = 7 * i := by
    rw [UInt32.toNat_ofNat_of_lt' (by simp only [UInt32.size]; omega)]
    omega
  rw [UInt32.toNat_or, UInt32.toNat_shiftLeft, hlow, hplaces, Nat.shiftLeft_eq, Nat.mul_comm,
    Nat.mod_eq_of_lt hroom, Nat.or_comm, ← Nat.two_pow_add_eq_or_of_lt hvalue, Nat.add_comm]

/-- What byte `i` has to give fits above the bits before it. -/
theorem bits_fit {i : Nat} {b : UInt8} (hi : i ≤ 4) (hfifth : ¬ (i = 4 ∧ 0x0f < b)) :
    2 ^ (7 * i) * (b.toNat % 128) < UInt32.size := by
  by_cases hfour : i = 4
  · have hb : b.toNat ≤ 15 :=
      UInt8.le_iff_toNat_le.1 (UInt8.not_lt.1 fun h => hfifth ⟨hfour, h⟩)
    subst hfour
    simp only [UInt32.size]
    omega
  · have hpow : 2 ^ (7 * i) ≤ 2 ^ 21 := Nat.pow_le_pow_right (by decide) (by omega)
    have hmul : 2 ^ (7 * i) * (b.toNat % 128) ≤ 2 ^ 21 * 127 := Nat.mul_le_mul hpow (by omega)
    simp only [UInt32.size]
    omega

/-- **No bit is lost.** With the bits before byte `i` in the word, it comes to hold what the rest of
the header announces above them. -/
theorem accumulate_eq {value : UInt32} {i : Nat} (hi : i ≤ 4) (hvalue : value.toNat < 2 ^ (7 * i))
    (buffer : Bytes) :
    (accumulate value i buffer).map (Option.map fun a => (a.1.toNat, a.2)) =
      (readHeaderFrom i buffer).map
        (Option.map fun a => (value.toNat + 2 ^ (7 * i) * a.1, i + a.2)) := by
  induction buffer generalizing i value with
  | nil => rfl
  | cons b bs ih =>
    rw [accumulate, if_neg (by omega)]
    by_cases hlong : i = 4 ∧ 0x0f < b
    · rw [if_pos hlong, readHeaderFrom, if_pos hlong]
      rfl
    have hword := toNat_or_shiftLeft hi hvalue (bits_fit hi hlong)
    rw [if_neg hlong]
    by_cases hlast : b < 0x80
    · have hlow : b.toNat % 128 = b.toNat := Nat.mod_eq_of_lt (UInt8.lt_iff_toNat_lt.1 hlast)
      rw [if_pos ((and_top_eq_zero_iff b).2 hlast), readHeaderFrom, if_neg hlong, if_pos hlast]
      simp only [Except.map, Option.map_some, hword, hlow]
    · have hb : 0x80 ≤ b := UInt8.not_lt.1 hlast
      have hfour := ne_four_of_continues hlong hb
      have hpow : 2 ^ (7 * (i + 1)) = 2 ^ (7 * i) * 128 := by
        rw [Nat.mul_succ, pow_add]
        rfl
      have hnext : (value ||| (b &&& 0x7f).toUInt32 <<< UInt32.ofNat (7 * i)).toNat <
          2 ^ (7 * (i + 1)) := by
        have hmul : 2 ^ (7 * i) * (b.toNat % 128) ≤ 2 ^ (7 * i) * 127 :=
          Nat.mul_le_mul_left _ (by omega)
        rw [hword, hpow]
        omega
      rw [if_neg (mt (and_top_eq_zero_iff b).1 hlast), ih (by omega) hnext,
        readHeaderFrom_cons (by omega) hb, hword]
      rcases readHeaderFrom (i + 1) bs with fault | _ | a
      · rfl
      · rfl
      · simp only [Except.map, Option.map_some, hpow]
        congr 3
        · ring
        · omega

/-- **A word of 32 bits holds what a header announces.** -/
theorem readHeader_eq_accumulate (buffer : Bytes) :
    readHeader buffer =
      (accumulate 0 0 buffer).map (Option.map fun a => (a.1.toNat, a.2)) := by
  rw [accumulate_eq (Nat.zero_le 4) (by decide), readHeader]
  rcases readHeaderFrom 0 buffer with fault | _ | a
  · rfl
  · rfl
  · simp [Except.map]

end Frame
end KeyedRows
