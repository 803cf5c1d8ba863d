/-
# Addresses

An address is a host, a colon and a port.

| host | read as |
| --- | --- |
| `127.0.0.1` | the four bytes of a 32-bit address |
| `127.1`, `2130706433` | fewer numbers: the last one fills the bytes that are left |
| `0x7f.0.0.1`, `0177.0.0.1` | a number may be in base sixteen, or in base eight behind a zero |
| `::1`, `::ffff:127.0.0.1` | eight words of 16 bits in base sixteen |
| anything else | a name |

Two colons in a row stand for one or more words that are zero, and four plain
bytes for the last two words. A zone may follow, a percent sign and a number; it
chooses between links, which no server here has a use for, and is left out.
Words with colons between them may stand in brackets. Without brackets it is the
last colon that ends the host, and the port may begin with a plus sign.
-/

import KeyedRows.Digits

namespace KeyedRows

/-- Where a server is. -/
inductive Host where
  | v4 (address : UInt32)
  | v6 (address : BitVec 128)
  | name (text : String)
deriving DecidableEq, Repr

/-- A host and one of its ports. -/
structure Address where
  host : Host
  port : UInt16
deriving DecidableEq, Repr

namespace Host

/-- The parts of a text between marks. -/
def fields (mark : Char) : List Char → List (List Char)
  | [] => [[]]
  | c :: cs =>
    if c = mark then [] :: fields mark cs
    else
      match fields mark cs with
      | [] => [[c]]
      | part :: parts => (c :: part) :: parts

/-- One number of several that are the digits of a base, the first the most significant. -/
def join (base : Nat) (digits : List Nat) : Nat := digits.foldl (fun n d => base * n + d) 0

/-- A number whose beginning tells its base: `0x` sixteen, `0` eight, another digit ten. -/
def literal? : List Char → Option Nat
  | '0' :: 'x' :: digits | '0' :: 'X' :: digits => Digits.read? 16 (UInt32.size - 1) digits
  | '0' :: digits => Digits.read? 8 (UInt32.size - 1) ('0' :: digits)
  | digits => Digits.read? 10 (UInt32.size - 1) digits

/-- One to four numbers. All but the last are bytes. -/
def v4? (text : List Char) : Option UInt32 := do
  let numbers ← (fields '.' text).mapM literal?
  let front := numbers.dropLast
  let last ← numbers.getLast?
  let room := 8 * (4 - front.length)
  if front.length < 4 && front.all (· < UInt8.size) && last < 1 <<< room then
    return UInt32.ofNat ((join UInt8.size front <<< room) + last)
  else none

/-- A byte in base ten, without needless zeros. -/
def byte? (text : List Char) : Option Nat :=
  if text.length = 1 || text.head? ≠ some '0' then Digits.read? 10 (UInt8.size - 1) text else none

/-- Four plain bytes. -/
def quad? (text : List Char) : Option Nat := do
  let bytes ← (fields '.' text).mapM byte?
  if bytes.length = 4 then return join UInt8.size bytes else none

/-- A word of at most four digits. -/
def word? (text : List Char) : Option Nat :=
  if text.length ≤ 4 then Digits.read? 16 (UInt16.size - 1) text else none

/-- Words with colons between them. -/
def words? (text : List Char) : Option (List Nat) :=
  if text.isEmpty then some [] else (fields ':' text).mapM word?

/-- Words of which the last two may be four plain bytes. -/
def mixedWords? (text : List Char) : Option (List Nat) :=
  words? text <|> do
    let parts := fields ':' text
    let front ← parts.dropLast.mapM word?
    let last ← parts.getLast?.bind quad?
    return front ++ [last / UInt16.size, last % UInt16.size]

/-- What is before the first two colons in a row, and what is after them. -/
def gap? : List Char → Option (List Char × List Char)
  | ':' :: ':' :: rest => some ([], rest)
  | c :: rest => (gap? rest).map fun (before, after) => (c :: before, after)
  | [] => none

/-- The eight words of an address. -/
def eightWords? (text : List Char) : Option (List Nat) := do
  match gap? text with
  | none =>
    let words ← mixedWords? text
    if words.length = 8 then return words else none
  | some (before, after) =>
    let front ← words? before
    let back ← mixedWords? after
    let count := front.length + back.length
    if count < 8 then return front ++ List.replicate (8 - count) 0 ++ back else none

/-- Eight words, behind which a zone may stand. -/
def v6? (text : List Char) : Option (BitVec 128) := do
  let words ← eightWords? (text.takeWhile (· ≠ '%'))
  match text.dropWhile (· ≠ '%') with
  | [] => pure ()
  | _ :: zone => discard (Digits.read? 10 (UInt32.size - 1) zone)
  return BitVec.ofNat 128 (join UInt16.size words)

/-- The host that a text without brackets means. -/
def ofText (text : List Char) : Host :=
  match v4? text, v6? text with
  | some address, _ => v4 address
  | none, some address => v6 address
  | none, none => name (String.ofList text)

end Host

namespace Address

/-- The number of a port. -/
def port? (digits : List Char) : Option UInt16 :=
  (Digits.read? 10 (UInt16.size - 1) digits).map UInt16.ofNat

/-- The text before the last colon and the text after it. -/
def cut? (text : List Char) : Option (List Char × List Char) :=
  match text.reverse.dropWhile (· ≠ ':') with
  | _ :: host => some (host.reverse, (text.reverse.takeWhile (· ≠ ':')).reverse)
  | [] => none

/-- An address without brackets. -/
def plain? (text : List Char) : Option Address := do
  let (host, port) ← cut? text
  let port ← match port with
    | '+' :: digits => port? digits
    | digits => port? digits
  return ⟨.ofText host, port⟩

/-- What follows the bracket that opens the host. -/
def bracketed? (text : List Char) : Option Address := do
  match text.dropWhile (· ≠ ']') with
  | _ :: ':' :: port => return ⟨.v6 (← Host.v6? (text.takeWhile (· ≠ ']'))), ← port? port⟩
  | _ => none

/-- The address that a text means. -/
def ofText? (text : String) : Option Address :=
  match text.toList with
  | '[' :: rest => bracketed? rest
  | rest => plain? rest

end Address
end KeyedRows
