/-
# Frames

A frame is a payload behind its length. The length stands in a header of at
most five bytes, seven bits in each, the least significant group first; every
byte of the header but the last has its top bit set. The header need not be the
shortest one, but what it announces must fit 32 bits: its fifth byte is at most
`0x0f`.

| header | announces |
| --- | ---: |
| `00` | 0 |
| `7f` | 127 |
| `80 01` | 128 |
| `ff ff ff ff 0f` | 2 ^ 32 - 1 |

Bytes arrive in chunks of any size. `pop` takes one frame off the front of a
buffer, `drain` takes frames until none is complete, and `feed` does so after
each of several chunks. A buffer that holds no complete frame, or no
acceptable one, is left as it is.

Main statement: `pop_length_lt`, a popped frame shortens the buffer.
-/

import KeyedRows.Bytes
import KeyedRows.Failure

namespace KeyedRows
namespace Frame

/-- Why bytes are no frame, or a payload cannot become one. -/
inductive Fault where
  /-- A payload to be framed exceeds the limit. -/
  | tooLarge (size limit : Nat)
  /-- A header announces more than 32 bits. -/
  | overlongHeader
  /-- A header announces more than the limit. -/
  | overLimit (size limit : Nat)
deriving DecidableEq, Repr

namespace Fault

def message : Fault → String
  | tooLarge size limit => s!"frame of {size} bytes exceeds limit {limit}"
  | overlongHeader => "frame length prefix exceeds 32 bits"
  | overLimit size limit => s!"incoming frame of {size} bytes exceeds limit {limit}"

/-- An outgoing frame is too large; an incoming one does not decode. -/
def kind : Fault → FailureKind
  | tooLarge _ _ => .tooLarge
  | overlongHeader | overLimit _ _ => .decode

def failure (f : Fault) : Failure := ⟨f.kind, f.message⟩

end Fault

/-! ### Headers -/

/-- The shortest header that announces a length. -/
def header (n : Nat) : Bytes :=
  if n < 128 then [UInt8.ofNat n] else UInt8.ofNat (n % 128 + 128) :: header (n / 128)
termination_by n
decreasing_by omega

/-- What a buffer begins with: the length announced by a complete header and the size of the header
itself, or nothing yet. The byte at hand is byte `i` of the header. -/
def readHeaderFrom (i : Nat) : Bytes → Except Fault (Option (Nat × Nat))
  | [] => .ok none
  | b :: bs =>
    if i = 4 ∧ 0x0f < b then .error .overlongHeader
    else if b < 0x80 then .ok (some (b.toNat, 1))
    else
      match readHeaderFrom (i + 1) bs with
      | .ok (some (n, size)) => .ok (some (b.toNat - 128 + 128 * n, size + 1))
      | other => other

/-- The length announced at the front of a buffer and the size of the header. -/
def readHeader (buffer : Bytes) : Except Fault (Option (Nat × Nat)) := readHeaderFrom 0 buffer

theorem readHeaderFrom_size {i : Nat} {buffer : Bytes} {n size : Nat}
    (h : readHeaderFrom i buffer = .ok (some (n, size))) : 0 < size ∧ size ≤ buffer.length := by
  induction buffer generalizing i n size with
  | nil => simp [readHeaderFrom] at h
  | cons b bs ih =>
    rw [readHeaderFrom] at h
    split at h
    · contradiction
    · split at h
      · simp only [Except.ok.injEq, Option.some.injEq, Prod.mk.injEq] at h
        simp only [List.length_cons]
        omega
      · split at h
        · rename_i m s hrec
          have := ih hrec
          simp only [Except.ok.injEq, Option.some.injEq, Prod.mk.injEq] at h
          simp only [List.length_cons]
          omega
        · rename_i hrec
          exact absurd h (hrec n size)

/-! ### Frames -/

/-- Appends a payload as a frame to a buffer. A payload over the limit, or over 32 bits, is refused
and the buffer stays as it is. -/
def push (limit : Nat) (payload buffer : Bytes) : Except Fault Unit × Bytes :=
  if limit < payload.length ∨ UInt32.size ≤ payload.length then
    (.error (.tooLarge payload.length limit), buffer)
  else (.ok (), buffer ++ (header payload.length ++ payload))

/-- Takes the first frame off a buffer, if it is complete. -/
def pop (limit : Nat) (buffer : Bytes) : Except Fault (Option Bytes) × Bytes :=
  match readHeader buffer with
  | .error fault => (.error fault, buffer)
  | .ok none => (.ok none, buffer)
  | .ok (some (n, size)) =>
    if limit < n then (.error (.overLimit n limit), buffer)
    else
      let (payload, rest) := (buffer.drop size).splitAt n
      if payload.length < n then (.ok none, buffer) else (.ok (some payload), rest)

/-- **A popped frame shortens the buffer.** -/
theorem pop_length_lt {limit : Nat} {buffer payload rest : Bytes}
    (h : pop limit buffer = (.ok (some payload), rest)) : rest.length < buffer.length := by
  rw [pop] at h
  split at h
  · simp at h
  · simp at h
  · rename_i n size hh
    have hs := readHeaderFrom_size hh
    split at h
    · simp at h
    · simp only [List.splitAt_eq] at h
      split at h
      · simp at h
      · simp only [Prod.mk.injEq] at h
        rw [← h.2]
        simp only [List.length_drop]
        omega

/-- What decoding a buffer as far as it goes gives. -/
structure Drained where
  frames : List Bytes
  fault : Option Fault
  rest : Bytes
deriving DecidableEq, Repr

/-- Takes frames off a buffer until none is complete or one is not acceptable. -/
def drain (limit : Nat) (buffer : Bytes) : Drained :=
  match h : pop limit buffer with
  | (.ok (some payload), rest) =>
    have := pop_length_lt h
    let d := drain limit rest
    { d with frames := payload :: d.frames }
  | (.ok none, _) => ⟨[], none, buffer⟩
  | (.error fault, _) => ⟨[], some fault, buffer⟩
termination_by buffer.length

/-- Appends chunks one by one and drains the buffer after each, up to the first fault. -/
def feed (limit : Nat) (buffer : Bytes) : List Bytes → Drained
  | [] => ⟨[], none, buffer⟩
  | chunk :: chunks =>
    let d := drain limit (buffer ++ chunk)
    if d.fault.isSome then d
    else
      let e := feed limit d.rest chunks
      { e with frames := d.frames ++ e.frames }

end Frame
end KeyedRows
