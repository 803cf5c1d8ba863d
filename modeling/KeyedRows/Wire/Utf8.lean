/-
# Where UTF-8 goes wrong

Text travels as UTF-8 bytes. When bytes are not UTF-8 the reader says where the
first ill-formed character begins and how many of its bytes could still have
been the beginning of a character; when the bytes end inside a character it
says that the character is incomplete.

The bytes that may follow a lead byte are given as ranges, so that overlong
forms, surrogates and code points past `0x10ffff` fail at the first byte that
no character continues with.
-/

import KeyedRows.Bytes

namespace KeyedRows
namespace Utf8

/-- How bytes fail to be UTF-8. -/
inductive Fault where
  /-- `length` bytes from `index` on begin no character. -/
  | invalid (length index : Nat)
  /-- The bytes end inside the character that begins at `index`. -/
  | incomplete (index : Nat)
deriving DecidableEq, Repr

def Fault.message : Fault → String
  | invalid length index => s!"invalid utf-8 sequence of {length} bytes from index {index}"
  | incomplete index => s!"incomplete utf-8 byte sequence from index {index}"

/-- The bytes from `low` to `high`. -/
structure Range where
  low : UInt8
  high : UInt8

/-- The byte lies in the range. -/
def Range.contains (r : Range) (b : UInt8) : Bool := r.low ≤ b && b ≤ r.high

/-- Any continuation byte. -/
def continuation : Range := ⟨0x80, 0xbf⟩

/-- The ranges of the bytes that follow a lead byte; `none` for a byte that leads no character. -/
def followers (lead : UInt8) : Option (List Range) :=
  if lead < 0x80 then some []
  else if lead < 0xc2 then none
  else if lead < 0xe0 then some [continuation]
  else if lead = 0xe0 then some [⟨0xa0, 0xbf⟩, continuation]
  else if lead = 0xed then some [⟨0x80, 0x9f⟩, continuation]
  else if lead < 0xf0 then some [continuation, continuation]
  else if lead = 0xf0 then some [⟨0x90, 0xbf⟩, continuation, continuation]
  else if lead < 0xf4 then some [continuation, continuation, continuation]
  else if lead = 0xf4 then some [⟨0x80, 0x8f⟩, continuation, continuation]
  else none

/-- Scans bytes of which `seen` belong to the character that begins at `start` and `awaited` are
still to come for it. -/
def scan (start seen : Nat) (awaited : List Range) : Bytes → Option Fault
  | [] => if awaited.isEmpty then none else some (.incomplete start)
  | b :: bs =>
    match awaited with
    | [] =>
      match followers b with
      | some ranges => scan (start + seen) 1 ranges bs
      | none => some (.invalid 1 (start + seen))
    | range :: ranges =>
      if range.contains b then scan start (seen + 1) ranges bs else some (.invalid seen start)

/-- The first fault of bytes that are not UTF-8. -/
def fault? (bytes : Bytes) : Option Fault := scan 0 0 [] bytes

/-- The bytes of a string. -/
def encode (s : String) : Bytes := s.toByteArray.data.toList

/-- The string with the given bytes, or where they go wrong. -/
def decode (bytes : Bytes) : Except Fault String :=
  match String.fromUTF8? ⟨bytes.toArray⟩ with
  | some s => .ok s
  | none => .error ((fault? bytes).getD (.incomplete bytes.length))

/-- **Decoding accepts exactly the encodings.** -/
theorem decode_eq_ok_iff {bytes : Bytes} {s : String} :
    decode bytes = .ok s ↔ bytes = encode s := by
  constructor
  · intro h
    rw [decode] at h
    split at h
    · rename_i s' hs
      rw [String.fromUTF8?] at hs
      split at hs
      · rw [Option.some.injEq] at hs
        rw [Except.ok.injEq] at h
        subst h
        subst hs
        rfl
      · contradiction
    · contradiction
  · rintro rfl
    have h : String.fromUTF8? ⟨(encode s).toArray⟩ = some s := by
      have hb : (⟨(encode s).toArray⟩ : ByteArray) = s.toByteArray := by simp [encode]
      rw [hb, String.fromUTF8?, dif_pos s.isValidUTF8]
      rfl
    rw [decode, h]

/-- A lone lead byte is incomplete, a surrogate fails at its second byte. -/
example : fault? [0x61, 0xc3] = some (.incomplete 1) ∧
    fault? [0xed, 0xa0, 0x80] = some (.invalid 1 0) := by decide

end Utf8
end KeyedRows
