/-
# Frames come back as they were sent

Of a length below `2 ^ 32` the header has one to five bytes (`length_header`),
and reading it gives the length back, whatever follows (`readHeader_header`). The
rule for the fifth byte is what keeps the two in step: after four bytes four bits
of the length are left, and `0x0f` is the largest byte they make.

So the first frame of what was pushed is the first payload that was pushed
(`pop_frame`), and popping as often as was pushed gives the payloads in their
order and leaves what stands behind them.

Main statement: `pops_pushes`.
-/

import KeyedRows.Proofs.Frame.Chunks

namespace KeyedRows
namespace Frame

/-! ### Headers -/

theorem header_ne_nil (n : Nat) : header n ≠ [] := by
  rw [header]
  split <;> simp

/-- One more byte makes room for 128 times as many lengths. -/
theorem shiftLeft_seven (m k : Nat) : m <<< (7 * (k + 1)) = 128 * (m <<< (7 * k)) := by
  rw [Nat.mul_succ, Nat.shiftLeft_add, Nat.shiftLeft_eq _ 7, Nat.mul_comm]

/-- Seven bits of the length go into each byte. -/
theorem length_header_le {n k : Nat} (h : n < 1 <<< (7 * (k + 1))) :
    (header n).length ≤ k + 1 := by
  induction k generalizing n with
  | zero =>
    have hn : n < 128 := h
    have hone : (header n).length = 1 := by rw [header, if_pos hn, List.length_singleton]
    omega
  | succ k ih =>
    rw [header]
    by_cases hn : n < 128
    · rw [if_pos hn, List.length_singleton]
      omega
    · rw [shiftLeft_seven] at h
      have hrest := ih (n := n / 128) (by omega)
      rw [if_neg hn, List.length_cons]
      omega

theorem length_header {n : Nat} (h : n < UInt32.size) :
    1 ≤ (header n).length ∧ (header n).length ≤ 5 := by
  refine ⟨List.length_pos_iff.2 (header_ne_nil n), length_header_le (k := 4) ?_⟩
  exact Nat.lt_of_lt_of_le h (by decide)

/-- **A header is read back**, from its byte `i` on, if what is left of the length fits the bytes
that are left: seven bits for each up to the fifth, which has room for four. -/
theorem readHeaderFrom_header {i k n : Nat} (hi : i + k = 4) (h : n < 16 <<< (7 * k))
    (rest : Bytes) :
    readHeaderFrom i (header n ++ rest) = .ok (some (n, (header n).length)) := by
  induction k generalizing i n with
  | zero =>
    have hn : n < 16 := h
    have hbyte : (UInt8.ofNat n).toNat = n := by rw [UInt8.toNat_ofNat']; omega
    rw [header, if_pos (by omega), List.singleton_append, readHeaderFrom]
    rw [if_neg (by rw [UInt8.lt_iff_toNat_lt, hbyte]; simp; omega),
      if_pos (by rw [UInt8.lt_iff_toNat_lt, hbyte]; simp; omega), hbyte]
    rfl
  | succ k ih =>
    have hfifth : ¬ i = 4 := by omega
    rw [header]
    by_cases hn : n < 128
    · have hbyte : (UInt8.ofNat n).toNat = n := by rw [UInt8.toNat_ofNat']; omega
      rw [if_pos hn, List.singleton_append, readHeaderFrom, if_neg (by simp [hfifth]),
        if_pos (by rw [UInt8.lt_iff_toNat_lt, hbyte]; simpa using hn), hbyte]
      rfl
    · have hbyte : (UInt8.ofNat (n % 128 + 128)).toNat = n % 128 + 128 := by
        rw [UInt8.toNat_ofNat']; omega
      have hlow : n / 128 < 16 <<< (7 * k) := by
        rw [shiftLeft_seven] at h
        omega
      rw [if_neg hn, List.cons_append, readHeaderFrom, if_neg (by simp [hfifth]),
        if_neg (by rw [UInt8.lt_iff_toNat_lt, hbyte]; simp), ih (by omega) hlow, hbyte,
        List.length_cons]
      simp only [Except.ok.injEq, Option.some.injEq, Prod.mk.injEq, and_true]
      omega

theorem readHeader_header {n : Nat} (h : n < UInt32.size) (rest : Bytes) :
    readHeader (header n ++ rest) = .ok (some (n, (header n).length)) :=
  readHeaderFrom_header (k := 4) rfl (Nat.lt_of_lt_of_le h (by decide)) rest

/-! ### Frames -/

/-- A payload behind the shortest header that announces it. -/
def frame (payload : Bytes) : Bytes := header payload.length ++ payload

/-- **A frame is popped as its payload**, and what stands behind it is left. -/
theorem pop_frame {limit : Nat} {payload : Bytes} (hlimit : payload.length ≤ limit)
    (hsize : payload.length < UInt32.size) (rest : Bytes) :
    pop limit (frame payload ++ rest) = (.ok (some payload), rest) := by
  have hheader : readHeader (frame payload ++ rest) =
      .ok (some (payload.length, (header payload.length).length)) := by
    rw [frame, List.append_assoc, readHeader_header hsize]
  rw [pop_of_readHeader hheader, if_neg (by omega), if_neg]
  · rw [frame, List.append_assoc, List.drop_left, List.take_left, ← List.drop_drop, List.drop_left,
      List.drop_left]
  · rw [frame, List.length_append, List.length_append]
    omega

/-- A payload that fits is appended as a frame. -/
theorem push_of_fits {m : Nat} {payload : Bytes} (hlimit : payload.length ≤ m)
    (hsize : payload.length < UInt32.size) (buffer : Bytes) :
    push m payload buffer = (.ok (), buffer ++ frame payload) := by
  rw [push, if_neg (by omega), frame]

/-- A payload that does not fit is refused, and nothing is appended. -/
theorem push_of_not_fits {m : Nat} {payload : Bytes}
    (h : ¬ (payload.length ≤ m ∧ payload.length < UInt32.size)) (buffer : Bytes) :
    push m payload buffer = (.error (.tooLarge payload.length m), buffer) := by
  rw [push, if_pos (by omega)]

/-! ### Frames one after another -/

/-- Pushes payloads one after another, up to the first that is refused. -/
def pushes (m : Nat) : List Bytes → Bytes → Except Fault Unit × Bytes
  | [], buffer => (.ok (), buffer)
  | payload :: payloads, buffer =>
    match push m payload buffer with
    | (.ok (), buffer) => pushes m payloads buffer
    | (.error fault, buffer) => (.error fault, buffer)

/-- Pops a number of times: what each time gives, and what is left. -/
def pops (limit : Nat) : Nat → Bytes → List (Except Fault (Option Bytes)) × Bytes
  | 0, buffer => ([], buffer)
  | k + 1, buffer =>
    let (popped, buffer) := pop limit buffer
    let (more, buffer) := pops limit k buffer
    (popped :: more, buffer)

/-- Payloads that are all pushed fit, and stand in the buffer as frames in their order. -/
theorem pushes_ok {m : Nat} {payloads : List Bytes} {buffer stream : Bytes}
    (h : pushes m payloads buffer = (.ok (), stream)) :
    (∀ payload ∈ payloads, payload.length < UInt32.size) ∧
      stream = buffer ++ payloads.flatMap frame := by
  induction payloads generalizing buffer with
  | nil =>
    obtain rfl : buffer = stream := congrArg Prod.snd h
    simp
  | cons payload payloads ih =>
    rw [pushes] at h
    by_cases hfits : payload.length ≤ m ∧ payload.length < UInt32.size
    · rw [push_of_fits hfits.1 hfits.2] at h
      obtain ⟨hsizes, rfl⟩ := ih h
      exact ⟨List.forall_mem_cons.2 ⟨hfits.2, hsizes⟩, by simp⟩
    · rw [push_of_not_fits hfits] at h
      simp at h

/-- Popping frames one after another. -/
theorem pops_frames {limit : Nat} {payloads : List Bytes}
    (hlimit : ∀ payload ∈ payloads, payload.length ≤ limit)
    (hsize : ∀ payload ∈ payloads, payload.length < UInt32.size) (rest : Bytes) :
    pops limit payloads.length (payloads.flatMap frame ++ rest) =
      (payloads.map fun payload => .ok (some payload), rest) := by
  induction payloads with
  | nil => rfl
  | cons payload payloads ih =>
    obtain ⟨hfirst, hlimit⟩ := List.forall_mem_cons.1 hlimit
    obtain ⟨hfirst', hsize⟩ := List.forall_mem_cons.1 hsize
    rw [List.length_cons, pops, List.flatMap_cons, List.append_assoc, pop_frame hfirst hfirst']
    simp only [ih hlimit hsize, List.map_cons]

/-- Draining frames goes on with what stands behind them. -/
theorem drain_frames {limit : Nat} {payloads : List Bytes}
    (hlimit : ∀ payload ∈ payloads, payload.length ≤ limit)
    (hsize : ∀ payload ∈ payloads, payload.length < UInt32.size) (rest : Bytes) :
    drain limit (payloads.flatMap frame ++ rest) =
      { drain limit rest with frames := payloads ++ (drain limit rest).frames } := by
  induction payloads with
  | nil => rfl
  | cons payload payloads ih =>
    obtain ⟨hfirst, hlimit⟩ := List.forall_mem_cons.1 hlimit
    obtain ⟨hfirst', hsize⟩ := List.forall_mem_cons.1 hsize
    rw [List.flatMap_cons, List.append_assoc, drain_of_frame (pop_frame hfirst hfirst' _),
      ih hlimit hsize]
    rfl

/-- **What is pushed is popped.** A payload within the limit and within 32 bits is appended behind a
header of one to five bytes; any other is refused as too large, and the buffer stays as it is.
Payloads that were pushed one after another are popped in their order, whatever stands behind them,
and that is left; a decoder that goes on until no frame is complete goes on from there. -/
theorem pops_pushes (m : Nat) :
    (∀ payload buffer : Bytes,
      (payload.length ≤ m ∧ payload.length < UInt32.size →
        ∃ front, 1 ≤ front.length ∧ front.length ≤ 5 ∧
          push m payload buffer = (.ok (), buffer ++ (front ++ payload))) ∧
      (¬ (payload.length ≤ m ∧ payload.length < UInt32.size) →
        push m payload buffer = (.error (.tooLarge payload.length m), buffer) ∧
          (Fault.tooLarge payload.length m).kind = .tooLarge)) ∧
    ∀ payloads stream, pushes m payloads [] = (.ok (), stream) →
      ∀ limit, (∀ payload ∈ payloads, payload.length ≤ limit) → ∀ rest,
        pops limit payloads.length (stream ++ rest) =
            (payloads.map fun payload => .ok (some payload), rest) ∧
          drain limit (stream ++ rest) =
            { drain limit rest with frames := payloads ++ (drain limit rest).frames } := by
  refine ⟨fun payload buffer => ⟨fun hfits => ?_, fun hfits => ?_⟩, ?_⟩
  · obtain ⟨hpos, hle⟩ := length_header hfits.2
    exact ⟨header payload.length, hpos, hle, push_of_fits hfits.1 hfits.2 buffer⟩
  · exact ⟨push_of_not_fits hfits buffer, rfl⟩
  · intro payloads stream hpush limit hlimit rest
    obtain ⟨hsize, rfl⟩ := pushes_ok hpush
    exact ⟨pops_frames hlimit hsize rest, drain_frames hlimit hsize rest⟩

/-- A payload behind a header of two bytes and an empty one are popped, and the beginning of a third
frame is left. -/
theorem pops_long_and_empty :
    pushes 200 [List.replicate 130 7, []] [] =
        (.ok (), 0x82 :: 0x01 :: (List.replicate 130 7 ++ [0])) ∧
      pops 130 2 ((0x82 :: 0x01 :: (List.replicate 130 7 ++ [0])) ++ [5, 1]) =
        ([.ok (some (List.replicate 130 7)), .ok (some [])], [5, 1]) := by
  have hpush : pushes 200 [List.replicate 130 7, []] [] =
      (.ok (), 0x82 :: 0x01 :: (List.replicate 130 7 ++ [0])) := by
    simp [pushes, push, header, UInt32.size]
  exact ⟨hpush, ((pops_pushes 200).2 _ _ hpush 130 (by simp) [5, 1]).1⟩

end Frame
end KeyedRows
