/-
# Hexadecimal text

Bytes as text, two digits each, the high half first. Letters are written small
and read in either case.

Main statement: `toBytes?_ofBytes`, what is written reads back.
-/

import KeyedRows.Bytes

namespace KeyedRows
namespace Hex

/-- The digit of a number below sixteen. -/
def digit (n : Nat) : Char := Char.ofNat (if n < 10 then '0'.toNat + n else 'a'.toNat + (n - 10))

/-- The number of a digit. -/
def value? (c : Char) : Option Nat :=
  if '0' ≤ c ∧ c ≤ '9' then some (c.toNat - '0'.toNat)
  else if 'a' ≤ c ∧ c ≤ 'f' then some (c.toNat - 'a'.toNat + 10)
  else if 'A' ≤ c ∧ c ≤ 'F' then some (c.toNat - 'A'.toNat + 10)
  else none

theorem value?_digit {n : Nat} (h : n < 16) : value? (digit n) = some n := by
  revert n
  decide

/-- The two digits of every byte. -/
def digits (bytes : Bytes) : List Char :=
  bytes.flatMap fun b => [digit (b.toNat / 16), digit (b.toNat % 16)]

/-- Bytes as text. -/
def ofBytes (bytes : Bytes) : String := String.ofList (digits bytes)

/-- Reads pairs of digits behind bytes that were read before, the last of them first. -/
def readFrom (before : Bytes) : List Char → Option Bytes
  | [] => some before.reverse
  | [_] => none
  | a :: b :: rest =>
    match value? a, value? b with
    | some high, some low => readFrom (UInt8.ofNat (16 * high + low) :: before) rest
    | _, _ => none

/-- The bytes of a text that is nothing but pairs of digits. -/
def toBytes? (text : String) : Option Bytes := readFrom [] text.toList

theorem readFrom_digits (before bytes : Bytes) :
    readFrom before (digits bytes) = some (before.reverse ++ bytes) := by
  induction bytes generalizing before with
  | nil => simp [digits, readFrom]
  | cons b bs ih =>
    have hb := b.toNat_lt
    have hd : digits (b :: bs) = digit (b.toNat / 16) :: digit (b.toNat % 16) :: digits bs := rfl
    rw [hd, readFrom, value?_digit (by omega), value?_digit (by omega)]
    dsimp only
    rw [show 16 * (b.toNat / 16) + b.toNat % 16 = b.toNat by omega, UInt8.ofNat_toNat, ih]
    simp

/-- **Bytes written in hexadecimal read back.** -/
theorem toBytes?_ofBytes (bytes : Bytes) : toBytes? (ofBytes bytes) = some bytes := by
  rw [toBytes?, ofBytes, String.toList_ofList, readFrom_digits]
  rfl

end Hex
end KeyedRows
