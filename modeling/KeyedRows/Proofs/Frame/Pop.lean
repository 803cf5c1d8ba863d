/-
# Taking one frame off a buffer

What `pop` gives depends on the front of the buffer alone. Once the header is
complete it has decided between a fault, waiting and a frame of known size
(`pop_of_readHeader`), and a header that is complete, or faulty, stays so
whatever bytes come behind it (`readHeader_append`).

Main statements: `pop_append`, a fault or a frame is not changed by later bytes,
and `pop_rest`, without a frame the buffer stays as it is.
-/

import KeyedRows.Frame

namespace KeyedRows
namespace Frame

/-! ### Headers -/

/-- A reading of a header that has come to an end is not changed by later bytes. -/
theorem readHeaderFrom_append {i : Nat} {buffer : Bytes} (h : readHeaderFrom i buffer ≠ .ok none)
    (more : Bytes) : readHeaderFrom i (buffer ++ more) = readHeaderFrom i buffer := by
  induction buffer generalizing i with
  | nil => exact absurd rfl h
  | cons b bs ih =>
    rw [List.cons_append, readHeaderFrom, readHeaderFrom]
    rw [readHeaderFrom] at h
    by_cases hlong : i = 4 ∧ 0x0f < b
    · rw [if_pos hlong, if_pos hlong]
    rw [if_neg hlong] at h
    rw [if_neg hlong, if_neg hlong]
    by_cases hlast : b < 0x80
    · rw [if_pos hlast, if_pos hlast]
    rw [if_neg hlast] at h
    rw [if_neg hlast, if_neg hlast]
    have hrec : readHeaderFrom (i + 1) bs ≠ .ok none := by
      intro hnone
      rw [hnone] at h
      exact h rfl
    rw [ih hrec]

theorem readHeader_append {buffer : Bytes} (h : readHeader buffer ≠ .ok none) (more : Bytes) :
    readHeader (buffer ++ more) = readHeader buffer :=
  readHeaderFrom_append h more

/-! ### One frame -/

section Pop
variable {limit : Nat} {buffer : Bytes}

theorem pop_of_header_error {fault : Fault} (h : readHeader buffer = .error fault) :
    pop limit buffer = (.error fault, buffer) := by
  rw [pop, h]

theorem pop_of_header_none (h : readHeader buffer = .ok none) :
    pop limit buffer = (.ok none, buffer) := by
  rw [pop, h]

/-- **A complete header decides.** It announces too much, or the frame is still to come, or here it
is. -/
theorem pop_of_readHeader {n size : Nat} (h : readHeader buffer = .ok (some (n, size))) :
    pop limit buffer =
      if limit < n then (.error (.overLimit n limit), buffer)
      else if buffer.length < size + n then (.ok none, buffer)
      else (.ok (some ((buffer.drop size).take n)), buffer.drop (size + n)) := by
  have hsize := readHeaderFrom_size h
  rw [pop, h]
  by_cases hlimit : limit < n
  · simp only [hlimit, if_true]
  · have hshort : ((buffer.drop size).take n).length < n ↔ buffer.length < size + n := by
      simp only [List.length_take, List.length_drop]
      omega
    simp only [hlimit, if_false, List.splitAt_eq, hshort, List.drop_drop]

/-- **Without a frame the buffer stays as it is**, whether the frame is incomplete or refused. -/
theorem pop_rest (h : ∀ payload, (pop limit buffer).1 ≠ .ok (some payload)) :
    (pop limit buffer).2 = buffer := by
  cases hh : readHeader buffer with
  | error fault => rw [pop_of_header_error hh]
  | ok announced =>
    cases announced with
    | none => rw [pop_of_header_none hh]
    | some a =>
      obtain ⟨n, size⟩ := a
      rw [pop_of_readHeader hh] at h ⊢
      by_cases hlimit : limit < n
      · rw [if_pos hlimit]
      rw [if_neg hlimit] at h ⊢
      by_cases hshort : buffer.length < size + n
      · rw [if_pos hshort]
      rw [if_neg hshort] at h
      exact absurd rfl (h _)

/-- No frame over the limit is taken off. -/
theorem length_le_of_pop {payload : Bytes} (h : (pop limit buffer).1 = .ok (some payload)) :
    payload.length ≤ limit := by
  cases hh : readHeader buffer with
  | error fault =>
    rw [pop_of_header_error hh] at h
    contradiction
  | ok announced =>
    cases announced with
    | none =>
      rw [pop_of_header_none hh] at h
      cases h
    | some a =>
      obtain ⟨n, size⟩ := a
      rw [pop_of_readHeader hh] at h
      by_cases hlimit : limit < n
      · rw [if_pos hlimit] at h
        contradiction
      rw [if_neg hlimit] at h
      by_cases hshort : buffer.length < size + n
      · rw [if_pos hshort] at h
        cases h
      rw [if_neg hshort] at h
      rw [← Option.some.inj (Except.ok.inj h)]
      exact Nat.le_trans (List.length_take_le ..) (Nat.le_of_not_lt hlimit)

/-- **A fault or a frame is not changed by later bytes**, which stay behind what is left. -/
theorem pop_append (h : (pop limit buffer).1 ≠ .ok none) (more : Bytes) :
    pop limit (buffer ++ more) = ((pop limit buffer).1, (pop limit buffer).2 ++ more) := by
  have hheader : readHeader buffer ≠ .ok none := fun hnone => h (by rw [pop_of_header_none hnone])
  have hmore := readHeader_append hheader more
  cases hh : readHeader buffer with
  | error fault => rw [pop_of_header_error (hmore.trans hh), pop_of_header_error hh]
  | ok announced =>
    cases announced with
    | none => exact absurd hh hheader
    | some a =>
      obtain ⟨n, size⟩ := a
      rw [pop_of_readHeader hh] at h ⊢
      rw [pop_of_readHeader (hmore.trans hh)]
      by_cases hlimit : limit < n
      · rw [if_pos hlimit, if_pos hlimit]
      rw [if_neg hlimit] at h ⊢
      rw [if_neg hlimit]
      by_cases hshort : buffer.length < size + n
      · rw [if_pos hshort] at h
        contradiction
      -- the frame ends inside the old buffer
      rw [if_neg hshort, if_neg (by rw [List.length_append]; omega),
        List.drop_append_of_le_length (by omega), List.drop_append_of_le_length (by omega),
        List.take_append_of_le_length (by rw [List.length_drop]; omega)]

end Pop

end Frame
end KeyedRows
