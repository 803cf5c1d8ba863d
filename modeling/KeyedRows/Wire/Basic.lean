/-
# The binary format

Values travel in a fixed binary format. Numbers are little-endian words of
fixed width; a string, a list or a map begins with its length as a word of
eight bytes; a choice among variants begins with the number of the variant as a
word of four bytes; an optional value begins with a byte 0 or 1; a record is
its fields one after another. Reading takes a value from the front of the bytes
and leaves the rest.

`Wire` pairs the two directions for a type. Readers name the first thing that is
wrong with the bytes as a `Wire.Fault`.
-/

import KeyedRows.Failure
import KeyedRows.OrderedMap
import KeyedRows.Wire.Utf8

namespace KeyedRows

/-- What is wrong with bytes that are not an encoding. -/
inductive Wire.Fault where
  /-- The bytes end where a number, a byte or another fixed part should be. -/
  | endOfInput
  /-- Fewer bytes are left than a string announces. -/
  | shortText
  /-- There are only `count` variants. -/
  | badVariant (found count : Nat)
  /-- An outcome is neither of its two variants. -/
  | badOutcome (found : Nat)
  | badBool (found : Nat)
  | badOption (found : Nat)
  | badText (fault : Utf8.Fault)
deriving DecidableEq, Repr

/-- Takes a value from the front of the bytes. -/
abbrev Wire.Reader := StateT Bytes (Except Wire.Fault)

/-- The two directions of the format for one type. -/
class Wire (α : Type) where
  write : α → Bytes
  read : Wire.Reader α

namespace Wire

namespace Fault

/-- The wording of a fault. Text cut short is reported without words. -/
def message : Fault → String
  | endOfInput => "io error: unexpected end of file"
  | shortText => "io error: "
  | badVariant found count =>
    s!"invalid value: integer `{found}`, expected variant index 0 <= i < {count}"
  | badOutcome found => s!"invalid value: integer `{found}`, expected `Ok` or `Err`"
  | badBool found => s!"invalid u8 while decoding bool, expected 0 or 1, found {found}"
  | badOption found => s!"tag for enum is not valid, found {found}"
  | badText fault => "string is not valid utf8: " ++ fault.message

/-- A payload that does not decode. -/
def failure (f : Fault) : Failure := ⟨.decode, "payload: " ++ f.message⟩

end Fault

/-! ### Fixed parts -/

/-- The next `n` bytes, with the fault to report if fewer are left. -/
def readBytes (fault : Fault) (n : Nat) : Reader Bytes := fun bytes =>
  let (front, rest) := bytes.splitAt n
  if front.length = n then .ok (front, rest) else .error fault

/-- The next word of `w` bytes. -/
def readWord (w : Nat) : Reader Nat := do
  return Bytes.toNat (← readBytes .endOfInput w)

/-- A length or a count. -/
def writeLength (n : Nat) : Bytes := Bytes.ofNat 8 n

@[inherit_doc writeLength]
def readLength : Reader Nat := readWord 8

/-- The number of a variant. -/
def writeVariant (n : Nat) : Bytes := Bytes.ofNat 4 n

/-- The number of one of `count` variants. -/
def readVariant (count : Nat) : Reader (Fin count) := do
  let n ← readWord 4
  if h : n < count then return ⟨n, h⟩ else throw (.badVariant n count)

instance : Wire Bool where
  write b := [if b then 1 else 0]
  read := do
    match ← readWord 1 with
    | 0 => return false
    | 1 => return true
    | n => throw (.badBool n)

instance : Wire UInt64 where
  write n := Bytes.ofNat 8 n.toNat
  read := return UInt64.ofNat (← readWord 8)

/-- Signed integers are in two's complement. -/
instance : Wire Int64 where
  write i := Bytes.ofNat 8 i.toUInt64.toNat
  read := return (UInt64.ofNat (← readWord 8)).toInt64

/-! ### Parts of variable length -/

instance : Wire String where
  write s :=
    let bytes := Utf8.encode s
    writeLength bytes.length ++ bytes
  read := do
    let n ← readLength
    match Utf8.decode (← readBytes .shortText n) with
    | .ok s => return s
    | .error fault => throw (.badText fault)

/-- A blob: its length, then its bytes. -/
def writeBlob (bytes : Bytes) : Bytes := writeLength bytes.length ++ bytes

@[inherit_doc writeBlob]
def readBlob : Reader Bytes := do
  let n ← readLength
  readBytes .endOfInput n

/-- `n` values one after another. -/
def readMany {α : Type} (read : Reader α) : Nat → Reader (List α)
  | 0 => return []
  | n + 1 => do
    let x ← read
    let xs ← readMany read n
    return x :: xs

/-- A list whose members are read by `read`. -/
def readListWith {α : Type} (read : Reader α) : Reader (List α) := do
  let n ← readLength
  readMany read n

instance {α : Type} [Wire α] : Wire (List α) where
  write xs := writeLength xs.length ++ xs.flatMap write
  read := readListWith read

instance {α : Type} [Wire α] : Wire (Option α) where
  write
    | none => [0]
    | some x => 1 :: write x
  read := do
    match ← readWord 1 with
    | 0 => return none
    | 1 => return some (← read)
    | n => throw (.badOption n)

instance {α β : Type} [Wire α] [Wire β] : Wire (α × β) where
  write p := write p.1 ++ write p.2
  read := do
    let a ← read
    let b ← read
    return (a, b)

/-- A map is the list of its entries in key order. Read back, entries may come in any order, and of
two entries under one key the later wins. -/
instance {α β : Type} [Ord α] [Std.TransOrd α] [Std.LawfulEqOrd α] [Wire α] [Wire β] :
    Wire (OrderedMap α β) where
  write m := write m.entries
  read := return OrderedMap.ofList (← read)

/-- An outcome: variant 0 with the result, variant 1 with the error. -/
instance {ε α : Type} [Wire ε] [Wire α] : Wire (Except ε α) where
  write
    | .ok x => writeVariant 0 ++ write x
    | .error e => writeVariant 1 ++ write e
  read := do
    match ← readWord 4 with
    | 0 => return .ok (← read)
    | 1 => return .error (← read)
    | n => throw (.badOutcome n)

/-! ### Derived forms -/

/-- A record travels as the tuple of its fields. -/
abbrev ofFields {α β : Type} [Wire β] (fields : α → β) (make : β → α) : Wire α where
  write x := write (fields x)
  read := return make (← read)

/-- A plain enumeration travels as the place of the value in the list of all values. -/
abbrev ofCases {α : Type} [BEq α] (cases : List α) : Wire α where
  write x := writeVariant (cases.idxOf x)
  read := return cases.get (← readVariant cases.length)

/-! ### Whole payloads -/

/-- The bytes of a value. -/
def encode {α : Type} [Wire α] (x : α) : Bytes := write x

/-- The value at the front of a payload; bytes after it are ignored. -/
def decode {α : Type} [Wire α] (bytes : Bytes) : Except Fault α :=
  (read.run bytes).map (·.1)

end Wire
end KeyedRows
