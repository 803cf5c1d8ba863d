/-
# Getting on with a buffer

For each limit and each buffer `pop` comes to one of five ends (`popsTo_pop`):

| the buffer | what `pop` gives |
| --- | --- |
| begins an overlong header | a fault |
| has a header that announces more than the limit | a fault |
| ends inside the header | nothing yet |
| ends inside the payload | nothing yet |
| has a header and as many bytes as it announces | the payload, and what stands behind it |

A payload takes its header with it, at least one byte, so popping again and
again comes to an end. And nothing is waited for that is longer than a header
and a payload within the limit: `limit + 5` bytes are always enough for a frame
or a fault, and whoever sends bytes cannot make a buffer that is drained after
each chunk keep more than that (`length_rest_feed_lt`).

Main statement: `pop_progress`.
-/

import KeyedRows.Proofs.Frame.Headers
import KeyedRows.Proofs.Frame.RoundTrip

namespace KeyedRows
namespace Frame

variable {limit : Nat} {buffer : Bytes}

/-! ### One frame -/

/-- What popping a buffer comes to. -/
inductive PopsTo (limit : Nat) (buffer : Bytes) : Except Fault (Option Bytes) × Bytes → Prop where
  | overlong (h : IsOverlong buffer) : PopsTo limit buffer (.error .overlongHeader, buffer)
  | overLimit (front rest : Bytes) (hfront : IsHeader front) (hbuffer : buffer = front ++ rest)
    (hlimit : limit < announced front) :
    PopsTo limit buffer (.error (.overLimit (announced front) limit), buffer)
  | inHeader (hgroups : Continues buffer) (hsize : buffer.length ≤ 4) :
    PopsTo limit buffer (.ok none, buffer)
  | inPayload (front rest : Bytes) (hfront : IsHeader front) (hbuffer : buffer = front ++ rest)
    (hlimit : announced front ≤ limit) (hshort : rest.length < announced front) :
    PopsTo limit buffer (.ok none, buffer)
  | frame (front payload rest : Bytes) (hfront : IsHeader front)
    (hannounced : announced front = payload.length) (hlimit : payload.length ≤ limit)
    (hbuffer : buffer = front ++ (payload ++ rest)) :
    PopsTo limit buffer (.ok (some payload), rest)

/-- **A buffer is popped to one of these ends.** -/
theorem popsTo_pop (limit : Nat) (buffer : Bytes) : PopsTo limit buffer (pop limit buffer) := by
  cases hh : readHeader buffer with
  | error fault =>
    obtain ⟨rfl, hover⟩ := readHeader_eq_error_iff.1 hh
    rw [pop_of_header_error hh]
    exact .overlong hover
  | ok found =>
    cases found with
    | none =>
      obtain ⟨hgroups, hsize⟩ := readHeader_eq_none_iff.1 hh
      rw [pop_of_header_none hh]
      exact .inHeader hgroups hsize
    | some a =>
      obtain ⟨n, size⟩ := a
      obtain ⟨front, rest, hfront, rfl, rfl, rfl⟩ := readHeader_eq_some_iff.1 hh
      rw [pop_of_readHeader hh]
      by_cases hlimit : limit < announced front
      · rw [if_pos hlimit]
        exact .overLimit front rest hfront rfl hlimit
      rw [if_neg hlimit]
      by_cases hshort : (front ++ rest).length < front.length + announced front
      · rw [if_pos hshort]
        rw [List.length_append] at hshort
        exact .inPayload front rest hfront rfl (by omega) (by omega)
      · rw [if_neg hshort, ← List.drop_drop, List.drop_left]
        rw [List.length_append] at hshort
        have hlength : (rest.take (announced front)).length = announced front := by
          rw [List.length_take]
          omega
        exact .frame front _ _ hfront hlength.symm (by omega) (by rw [List.take_append_drop])

theorem exists_popsTo {found : Except Fault (Option Bytes)} (h : (pop limit buffer).1 = found) :
    ∃ left, PopsTo limit buffer (found, left) := by
  obtain rfl := h
  exact ⟨_, popsTo_pop limit buffer⟩

theorem pop_of_isOverlong (h : IsOverlong buffer) :
    pop limit buffer = (.error .overlongHeader, buffer) :=
  pop_of_header_error (readHeader_eq_error_iff.2 ⟨rfl, h⟩)

theorem pop_of_overLimit {front : Bytes} (hfront : IsHeader front)
    (hlimit : limit < announced front) (rest : Bytes) :
    pop limit (front ++ rest) = (.error (.overLimit (announced front) limit), front ++ rest) := by
  rw [pop_of_readHeader (readHeader_of_isHeader hfront rest), if_pos hlimit]

theorem pop_of_isHeader {front payload : Bytes} (hfront : IsHeader front)
    (hannounced : announced front = payload.length) (hlimit : payload.length ≤ limit)
    (rest : Bytes) : pop limit (front ++ (payload ++ rest)) = (.ok (some payload), rest) := by
  rw [pop_of_readHeader (readHeader_of_isHeader hfront _), if_neg (by omega), if_neg]
  · rw [← List.drop_drop, List.drop_left, hannounced, List.take_left, List.drop_left]
  · rw [List.length_append, List.length_append]
    omega

/-- **A frame is taken off with its header.** -/
theorem pop_eq_frame_iff {payload rest : Bytes} :
    pop limit buffer = (.ok (some payload), rest) ↔
      ∃ front, IsHeader front ∧ announced front = payload.length ∧ payload.length ≤ limit ∧
        buffer = front ++ (payload ++ rest) := by
  constructor
  · intro h
    have hend := popsTo_pop limit buffer
    rw [h] at hend
    cases hend with
    | frame front _ _ hfront hannounced hlimit hbuffer =>
      exact ⟨front, hfront, hannounced, hlimit, hbuffer⟩
  · rintro ⟨front, hfront, hannounced, hlimit, rfl⟩
    exact pop_of_isHeader hfront hannounced hlimit rest

/-- **What is refused** is an overlong header, or one that announces more than the limit. -/
theorem pop_eq_error_iff {fault : Fault} :
    (pop limit buffer).1 = .error fault ↔
      (IsOverlong buffer ∧ fault = .overlongHeader) ∨
        ∃ front rest, IsHeader front ∧ buffer = front ++ rest ∧ limit < announced front ∧
          fault = .overLimit (announced front) limit := by
  constructor
  · intro h
    obtain ⟨left, hend⟩ := exists_popsTo h
    cases hend with
    | overlong hover => exact .inl ⟨hover, rfl⟩
    | overLimit front rest hfront hbuffer hlimit =>
      exact .inr ⟨front, rest, hfront, hbuffer, hlimit, rfl⟩
  · rintro (⟨hover, rfl⟩ | ⟨front, rest, hfront, rfl, hlimit, rfl⟩)
    · rw [pop_of_isOverlong hover]
    · rw [pop_of_overLimit hfront hlimit]

/-- **A buffer is not waited on for long.** What is short of a frame is shorter than the longest
header and a payload of the limit. -/
theorem length_lt_of_waiting (h : (pop limit buffer).1 = .ok none) :
    buffer.length < limit + 5 := by
  obtain ⟨left, hend⟩ := exists_popsTo h
  cases hend with
  | inHeader hgroups hsize => omega
  | inPayload front rest hfront hbuffer hlimit hshort =>
    have hfive := hfront.size_le
    rw [hbuffer, List.length_append]
    omega

/-! ### One after another -/

/-- Without a frame the buffer is what is left. -/
theorem eq_of_pop {found : Except Fault (Option Bytes)} {rest : Bytes}
    (h : pop limit buffer = (found, rest)) (hfound : ∀ payload, found ≠ .ok (some payload)) :
    rest = buffer := by
  have hsame : (pop limit buffer).2 = buffer := pop_rest fun payload => by
    rw [h]
    exact hfound payload
  rwa [h] at hsame

/-- How the last pop of a drained buffer ended. -/
def Drained.last (d : Drained) : Except Fault (Option Bytes) :=
  match d.fault with
  | none => .ok none
  | some fault => .error fault

/-- **Draining is popping** until something else than a frame comes. -/
theorem pops_drain (limit : Nat) (buffer : Bytes) :
    pops limit ((drain limit buffer).frames.length + 1) buffer =
      ((drain limit buffer).frames.map (fun payload => .ok (some payload)) ++
        [(drain limit buffer).last], (drain limit buffer).rest) := by
  fun_induction drain limit buffer with
  | case1 buffer payload rest hpop _ d ih =>
    rw [List.length_cons, pops, hpop]
    simp only [d, ih, List.map_cons, List.cons_append, Drained.last]
  | case2 buffer rest hpop =>
    obtain rfl := eq_of_pop hpop (by simp)
    simp [pops, hpop, Drained.last]
  | case3 buffer fault rest hpop =>
    obtain rfl := eq_of_pop hpop (by simp)
    simp [pops, hpop, Drained.last]

/-- Every frame takes its payload and at least one byte of a header. -/
theorem length_drain_le (limit : Nat) (buffer : Bytes) :
    (drain limit buffer).frames.length + (drain limit buffer).frames.flatten.length +
      (drain limit buffer).rest.length ≤ buffer.length := by
  fun_induction drain limit buffer with
  | case1 buffer payload rest hpop _ d ih =>
    obtain ⟨front, hfront, -, -, hbuffer⟩ := pop_eq_frame_iff.1 hpop
    have hpos := hfront.size_pos
    rw [hbuffer, List.length_append, List.length_append]
    simp only [d, List.length_cons, List.flatten_cons, List.length_append]
    omega
  | case2 | case3 => simp

/-- What is left after draining without a fault is waited on. -/
theorem length_rest_drain_lt (h : (drain limit buffer).fault = none) :
    (drain limit buffer).rest.length < limit + 5 := by
  refine length_lt_of_waiting ?_
  have hdrained := drain_rest h
  -- a frame or a fault would show in what draining again gives
  cases hpop : (pop limit (drain limit buffer).rest).1 with
  | error fault =>
    rw [drain_of_fault hpop] at hdrained
    simp at hdrained
  | ok found =>
    cases found with
    | none => rfl
    | some payload =>
      rw [drain_of_frame (Prod.ext hpop rfl)] at hdrained
      simp at hdrained

/-- **What is kept between two chunks is bounded**, however many came and however long they were. -/
theorem length_rest_feed_lt {chunks : List Bytes} (h : (feed limit [] chunks).fault = none) :
    (feed limit [] chunks).rest.length < limit + 5 := by
  have hempty : drain limit [] = ⟨[], none, []⟩ := drain_of_none rfl
  have hagrees := feed_agrees_drain hempty chunks
  rw [hagrees.rest h]
  exact length_rest_drain_lt (hagrees.fault.symm.trans h)

/-- **Popping gets on.** A frame is taken off exactly where a header of one to five bytes stands in
front of as many bytes as it announces, no more than the limit, and header and payload go. A buffer
of five bytes beyond the limit is not waited on. A header announces less than `2 ^ 32`, and a word of
32 bits holds what was read of it at every byte. There is a fault exactly if a fifth byte is above
`0x0f` behind four with the top bit set, or if a complete header announces more than the limit.

So popping a buffer until no frame comes ends, after as many frames as there are bytes at most; and
if it ends without a fault, then what is kept, also between chunks that go on arriving, is shorter
than the limit and five bytes. -/
theorem pop_progress (limit : Nat) (buffer : Bytes) :
    let d := drain limit buffer
    (∀ payload rest, pop limit buffer = (.ok (some payload), rest) ↔
      ∃ front, IsHeader front ∧ (1 ≤ front.length ∧ front.length ≤ 5) ∧
        announced front = payload.length ∧ payload.length ≤ limit ∧
        buffer = front ++ (payload ++ rest)) ∧
    (limit + 5 ≤ buffer.length → (pop limit buffer).1 ≠ .ok none) ∧
    ((∀ front, IsHeader front → announced front < UInt32.size) ∧
      readHeader buffer =
        (accumulate 0 0 buffer).map (Option.map fun a => (a.1.toNat, a.2))) ∧
    (∀ fault, (pop limit buffer).1 = .error fault ↔
      (IsOverlong buffer ∧ fault = .overlongHeader) ∨
        ∃ front rest, IsHeader front ∧ buffer = front ++ rest ∧ limit < announced front ∧
          fault = .overLimit (announced front) limit) ∧
    (d.frames.length ≤ buffer.length ∧
      pops limit (d.frames.length + 1) buffer =
        (d.frames.map (fun payload => .ok (some payload)) ++ [d.last], d.rest) ∧
      (d.fault = none → d.rest.length < limit + 5)) ∧
    ∀ chunks, (feed limit [] chunks).fault = none →
      (feed limit [] chunks).rest.length < limit + 5 := by
  refine ⟨fun payload rest => ?_, fun hlong hwaiting => ?_,
    ⟨fun front hfront => hfront.announced_lt, readHeader_eq_accumulate buffer⟩,
    fun fault => pop_eq_error_iff, ⟨?_, pops_drain limit buffer, length_rest_drain_lt⟩,
    fun chunks => length_rest_feed_lt⟩
  · rw [pop_eq_frame_iff]
    constructor
    · rintro ⟨front, hfront, hframe⟩
      exact ⟨front, hfront, ⟨hfront.size_pos, hfront.size_le⟩, hframe⟩
    · rintro ⟨front, hfront, -, hframe⟩
      exact ⟨front, hfront, hframe⟩
  · have hshort := length_lt_of_waiting hwaiting
    omega
  · have htaken := length_drain_le limit buffer
    omega

/-- Behind a header that is longer than it need be a payload of the limit is taken off; seven bytes
are enough for that. What is left has a complete header and is not refused, since what the header
announces is within the limit, and it is waited on. -/
theorem pop_paddedHeader :
    let buffer : Bytes := [0x82, 0x80, 0x00, 10, 11, 0x82, 0x00]
    2 + 5 ≤ buffer.length ∧ (pop 2 buffer).1 ≠ .ok none ∧
      pop 2 buffer = (.ok (some [10, 11]), [0x82, 0x00]) ∧
      (drain 2 buffer).fault = none ∧ (drain 2 buffer).rest = [0x82, 0x00] ∧
      (drain 2 buffer).rest.length < 2 + 5 := by
  intro buffer
  obtain ⟨hframe, henough, -, -, ⟨-, -, hkept⟩, -⟩ := pop_progress 2 buffer
  have hlong : 2 + 5 ≤ buffer.length := by decide
  have hpop : pop 2 buffer = (.ok (some [10, 11]), [0x82, 0x00]) := by
    refine (hframe _ _).2 ⟨[0x82, 0x80, 0x00], ⟨⟨[0x82, 0x80], 0x00, rfl, ?_, ?_⟩, ?_, ?_⟩, ?_⟩
    · simp [Continues]
    · decide
    · decide
    · simp
    · decide
  have hdrain : drain 2 buffer = ⟨[[10, 11]], none, [0x82, 0x00]⟩ := by decide +kernel
  rw [hdrain] at hkept ⊢
  exact ⟨hlong, henough hlong, hpop, rfl, rfl, hkept rfl⟩

end Frame
end KeyedRows
