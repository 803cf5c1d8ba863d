/-
# Chunks of any size

A stream of bytes arrives in chunks, and the buffer is drained after each. The
frames taken off, and the fault that ends it, are those of the whole stream:
what `drain` does on a buffer it has done already when more bytes arrive
(`drain_append`), so feeding chunks to a drained buffer comes to draining the
buffer and the chunks at once (`feed_agrees_drain`). Only the bytes that are
left after a fault depend on the chunks, since later chunks are not taken.

Main statement: `feed_agrees`.
-/

import KeyedRows.Proofs.Frame.Pop

namespace KeyedRows
namespace Frame

variable {limit : Nat}

/-! ### Draining -/

theorem drain_of_frame {buffer payload rest : Bytes}
    (h : pop limit buffer = (.ok (some payload), rest)) :
    drain limit buffer =
      { drain limit rest with frames := payload :: (drain limit rest).frames } := by
  rw [drain]
  split
  · rename_i p r hpop
    rw [h, Prod.mk.injEq, Except.ok.injEq, Option.some.injEq] at hpop
    obtain ⟨rfl, rfl⟩ := hpop
    rfl
  · simp_all
  · simp_all

theorem drain_of_none {buffer : Bytes} (h : (pop limit buffer).1 = .ok none) :
    drain limit buffer = ⟨[], none, buffer⟩ := by
  rw [drain]
  split <;> simp_all

theorem drain_of_fault {buffer : Bytes} {fault : Fault} (h : (pop limit buffer).1 = .error fault) :
    drain limit buffer = ⟨[], some fault, buffer⟩ := by
  rw [drain]
  split <;> simp_all

theorem length_le_of_mem_drain {buffer payload : Bytes} (h : payload ∈ (drain limit buffer).frames) :
    payload.length ≤ limit := by
  fun_induction drain limit buffer with
  | case1 buffer first rest hpop _ d ih =>
    rcases List.mem_cons.1 h with rfl | hlater
    · exact length_le_of_pop (by rw [hpop])
    · exact ih hlater
  | case2 | case3 => contradiction

/-- **What a buffer gives it gives with more bytes behind it.** After a fault the new bytes are only
kept; without one the draining goes on from what was left. -/
theorem drain_append (buffer more : Bytes) :
    drain limit (buffer ++ more) =
      if (drain limit buffer).fault.isSome then
        { drain limit buffer with rest := (drain limit buffer).rest ++ more }
      else
        { drain limit ((drain limit buffer).rest ++ more) with
          frames := (drain limit buffer).frames ++
            (drain limit ((drain limit buffer).rest ++ more)).frames } := by
  fun_induction drain limit buffer with
  | case1 buffer payload rest hpop _ d ih =>
    have hmore : pop limit (buffer ++ more) = (.ok (some payload), rest ++ more) := by
      rw [pop_append (by simp [hpop]), hpop]
    rw [drain_of_frame hmore, ih]
    by_cases hfault : d.fault.isSome
    · simp [d, hfault]
    · simp [d, hfault]
  | case2 buffer rest hpop => rfl
  | case3 buffer fault rest hpop =>
    have hmore : (pop limit (buffer ++ more)).1 = .error fault := by
      rw [pop_append (by simp [hpop]), hpop]
    rw [drain_of_fault hmore]
    rfl

theorem drain_append_of_fault {buffer : Bytes} {fault : Fault}
    (h : (drain limit buffer).fault = some fault) (more : Bytes) :
    (drain limit (buffer ++ more)).frames = (drain limit buffer).frames ∧
      (drain limit (buffer ++ more)).fault = some fault := by
  rw [drain_append, h]
  exact ⟨rfl, h⟩

theorem drain_append_of_no_fault {buffer : Bytes} (h : (drain limit buffer).fault = none)
    (more : Bytes) :
    drain limit (buffer ++ more) =
      { drain limit ((drain limit buffer).rest ++ more) with
        frames := (drain limit buffer).frames ++
          (drain limit ((drain limit buffer).rest ++ more)).frames } := by
  rw [drain_append, h]
  rfl

/-- More bytes leave the frames that are there and may add some. -/
theorem frames_drain_append (buffer more : Bytes) :
    ∃ frames, (drain limit (buffer ++ more)).frames = (drain limit buffer).frames ++ frames := by
  cases hfault : (drain limit buffer).fault with
  | some fault =>
    obtain ⟨hframes, -⟩ := drain_append_of_fault hfault more
    exact ⟨[], by rw [hframes, List.append_nil]⟩
  | none => exact ⟨_, by rw [drain_append_of_no_fault hfault]⟩

/-- What is left after draining without a fault holds no further frame. -/
theorem drain_rest {buffer : Bytes} (h : (drain limit buffer).fault = none) :
    drain limit (drain limit buffer).rest = ⟨[], none, (drain limit buffer).rest⟩ := by
  fun_induction drain limit buffer with
  | case1 buffer payload rest hpop _ d ih => exact ih h
  | case2 buffer rest hpop => exact drain_of_none (by rw [hpop])
  | case3 buffer fault rest hpop => contradiction

/-! ### Feeding -/

/-- The same frames and the same fault, and the same bytes left if there is no fault. -/
structure Drained.Agrees (d e : Drained) : Prop where
  frames : d.frames = e.frames
  fault : d.fault = e.fault
  rest : d.fault = none → d.rest = e.rest

namespace Drained.Agrees
variable {d e f : Drained}

theorem symm (h : d.Agrees e) : e.Agrees d :=
  ⟨h.frames.symm, h.fault.symm, fun he => (h.rest (h.fault.trans he)).symm⟩

theorem trans (h : d.Agrees e) (h' : e.Agrees f) : d.Agrees f :=
  ⟨h.frames.trans h'.frames, h.fault.trans h'.fault, fun hd =>
    (h.rest hd).trans (h'.rest (h.fault ▸ hd))⟩

/-- Frames taken off before play no part. -/
theorem cons (h : d.Agrees e) (frames : List Bytes) :
    Agrees { d with frames := frames ++ d.frames } { e with frames := frames ++ e.frames } :=
  ⟨congrArg (frames ++ ·) h.frames, h.fault, h.rest⟩

end Drained.Agrees

/-- **Feeding chunks to a drained buffer comes to draining all of them at once.** -/
theorem feed_agrees_drain {buffer : Bytes} (h : drain limit buffer = ⟨[], none, buffer⟩)
    (chunks : List Bytes) :
    (feed limit buffer chunks).Agrees (drain limit (buffer ++ chunks.flatten)) := by
  induction chunks generalizing buffer with
  | nil =>
    rw [List.flatten_nil, List.append_nil, h]
    exact ⟨rfl, rfl, fun _ => rfl⟩
  | cons chunk chunks ih =>
    rw [List.flatten_cons, ← List.append_assoc, drain_append, feed]
    cases hfault : (drain limit (buffer ++ chunk)).fault with
    | some fault =>
      simp only [hfault, Option.isSome_some, if_true]
      exact ⟨rfl, hfault, fun hnone => by simp [hfault] at hnone⟩
    | none =>
      simp only [hfault, Option.isSome_none, Bool.false_eq_true, if_false]
      exact (ih (drain_rest hfault)).cons _

/-- **How a stream is cut into chunks does not show.** Two ways of cutting the same bytes give the
same frames and the same fault, or none, and if there is none the same bytes are left. A buffer that
holds no complete frame, or no acceptable one, is left as it is. -/
theorem feed_agrees {chunks chunks' : List Bytes} (h : chunks.flatten = chunks'.flatten)
    (limit : Nat) :
    ((feed limit [] chunks).frames = (feed limit [] chunks').frames ∧
      (feed limit [] chunks).fault = (feed limit [] chunks').fault ∧
      ((feed limit [] chunks).fault = none →
        (feed limit [] chunks).rest = (feed limit [] chunks').rest)) ∧
    ∀ buffer, (∀ payload, (pop limit buffer).1 ≠ .ok (some payload)) →
      (pop limit buffer).2 = buffer := by
  have hempty : drain limit [] = ⟨[], none, []⟩ := drain_of_none rfl
  have hwhole := feed_agrees_drain hempty chunks
  rw [h] at hwhole
  have hsame := hwhole.trans (feed_agrees_drain hempty chunks').symm
  exact ⟨⟨hsame.frames, hsame.fault, hsame.rest⟩, fun buffer => pop_rest⟩

/-- Two frames, the second behind a header that is not the shortest one, and a header over the limit
arrive in three chunks of which one is empty, or byte by byte. -/
theorem feed_bytewise :
    [[2, 10, 11, 0x80], [], [0, 3]].flatten =
        ([[2], [10], [11], [0x80], [0], [3]] : List Bytes).flatten ∧
      feed 2 [] [[2, 10, 11, 0x80], [], [0, 3]] = ⟨[[10, 11], []], some (.overLimit 3 2), [3]⟩ ∧
      (feed 2 [] [[2], [10], [11], [0x80], [0], [3]]).frames = [[10, 11], []] ∧
      (feed 2 [] [[2], [10], [11], [0x80], [0], [3]]).fault = some (.overLimit 3 2) := by
  have hcut : [[2, 10, 11, 0x80], [], [0, 3]].flatten =
      ([[2], [10], [11], [0x80], [0], [3]] : List Bytes).flatten := rfl
  have hfeed : feed 2 [] [[2, 10, 11, 0x80], [], [0, 3]] =
      ⟨[[10, 11], []], some (.overLimit 3 2), [3]⟩ := by decide +kernel
  obtain ⟨⟨hframes, hfault, -⟩, -⟩ := feed_agrees hcut 2
  rw [hfeed] at hframes hfault
  exact ⟨hcut, hfeed, hframes.symm, hfault.symm⟩

end Frame
end KeyedRows
