/-
# Settings documents

Settings are written in JSON. The reader is strict: no comments, no comma before
a closing bracket, no control characters inside strings, no digits after a
leading zero, and nothing but blanks around the document.

Two things are kept as they are written, because not every place of a document
asks for them. A number is its text: it is a count only if it is plain digits. A
string is the list of its code units: it is text only if its surrogates come in
pairs, and a string that is skipped need not be.
-/

import KeyedRows.Hex

namespace KeyedRows
namespace Settings

/-- A JSON document. -/
inductive Json where
  | null
  | bool (b : Bool)
  | number (text : List Char)
  | string (units : List Nat)
  | array (items : List Json)
  | object (members : List (List Nat × Json))
deriving Inhabited

namespace Json

/-- The four blanks. -/
def isBlank (c : Char) : Bool := c = ' ' || c = '\n' || c = '\t' || c = '\r'

def skipBlanks (cs : List Char) : List Char := cs.dropWhile isBlank

def isDigit (c : Char) : Bool := '0' ≤ c && c ≤ '9'

/-! ### Numbers -/

/-- At least one digit, and what follows the digits. -/
def digits (cs : List Char) : Option (List Char × List Char) :=
  match cs.takeWhile isDigit with
  | [] => none
  | ds => some (ds, cs.dropWhile isDigit)

/-- The digits before the point: a zero stands alone. -/
def whole : List Char → Option (List Char × List Char)
  | '0' :: cs => if (cs.headD ' ') |> isDigit then none else some (['0'], cs)
  | cs => digits cs

/-- The digits behind the point, if there is one. -/
def fraction : List Char → Option (List Char × List Char)
  | '.' :: cs => do
    let (ds, cs) ← digits cs
    return ('.' :: ds, cs)
  | cs => some ([], cs)

/-- The exponent, if there is one. -/
def exponent (cs : List Char) : Option (List Char × List Char) :=
  match cs with
  | 'e' :: r | 'E' :: r => do
    let (sign, r) := match r with
      | '+' :: r => (['+'], r)
      | '-' :: r => (['-'], r)
      | r => ([], r)
    let (ds, r) ← digits r
    return ('e' :: sign ++ ds, r)
  | cs => some ([], cs)

/-- A number as it is written. -/
def readNumber (cs : List Char) : Option (Json × List Char) := do
  let (sign, cs) := match cs with
    | '-' :: cs => (['-'], cs)
    | cs => ([], cs)
  let (ds, cs) ← whole cs
  let (fs, cs) ← fraction cs
  let (es, cs) ← exponent cs
  return (.number (sign ++ ds ++ fs ++ es), cs)

/-! ### Strings -/

/-- The code unit of four hexadecimal digits. -/
def hexUnit (a b c d : Char) : Option Nat := do
  return 4096 * (← Hex.value? a) + 256 * (← Hex.value? b) + 16 * (← Hex.value? c) + (← Hex.value? d)

/-- The character that a letter stands for after a backslash. -/
def escape : Char → Option Nat
  | '"' => some 0x22
  | '\\' => some 0x5c
  | '/' => some 0x2f
  | 'b' => some 0x08
  | 'f' => some 0x0c
  | 'n' => some 0x0a
  | 'r' => some 0x0d
  | 't' => some 0x09
  | _ => none

/-- The units of a string after its opening quote. -/
def stringUnits : List Char → Option (List Nat × List Char)
  | '"' :: cs => some ([], cs)
  | '\\' :: 'u' :: a :: b :: c :: d :: cs => do
    let u ← hexUnit a b c d
    let (us, cs) ← stringUnits cs
    return (u :: us, cs)
  | '\\' :: c :: cs => do
    let u ← escape c
    let (us, cs) ← stringUnits cs
    return (u :: us, cs)
  | c :: cs =>
    if c.toNat < 0x20 then none
    else do
      let (us, cs) ← stringUnits cs
      return (c.toNat :: us, cs)
  | [] => none

def isHighSurrogate (u : Nat) : Bool := 0xd800 ≤ u && u < 0xdc00

def isLowSurrogate (u : Nat) : Bool := 0xdc00 ≤ u && u < 0xe000

/-- The characters that units stand for, if surrogates come in pairs. -/
def characters : List Nat → Option (List Char)
  | [] => some []
  | u :: us =>
    if isHighSurrogate u then
      match us with
      | v :: us =>
        if isLowSurrogate v then
          (characters us).map
            (Char.ofNat (0x10000 + 1024 * (u - 0xd800) + (v - 0xdc00)) :: ·)
        else none
      | [] => none
    else if isLowSurrogate u then none
    else (characters us).map (Char.ofNat u :: ·)

/-! ### Documents -/

mutual

/-- A value, and what follows it. The fuel bounds the depth of the calls. -/
def value : Nat → List Char → Option (Json × List Char)
  | 0, _ => none
  | fuel + 1, cs =>
    match skipBlanks cs with
    | 'n' :: 'u' :: 'l' :: 'l' :: cs => some (.null, cs)
    | 't' :: 'r' :: 'u' :: 'e' :: cs => some (.bool true, cs)
    | 'f' :: 'a' :: 'l' :: 's' :: 'e' :: cs => some (.bool false, cs)
    | '"' :: cs => (stringUnits cs).map fun (us, cs) => (.string us, cs)
    | '[' :: cs =>
      match skipBlanks cs with
      | ']' :: cs => some (.array [], cs)
      | cs => (items fuel cs).map fun (vs, cs) => (.array vs, cs)
    | '{' :: cs =>
      match skipBlanks cs with
      | '}' :: cs => some (.object [], cs)
      | cs => (members fuel cs).map fun (ms, cs) => (.object ms, cs)
    | cs => readNumber cs

/-- The items of an array that has some, to its closing bracket. -/
def items : Nat → List Char → Option (List Json × List Char)
  | 0, _ => none
  | fuel + 1, cs => do
    let (v, cs) ← value fuel cs
    match skipBlanks cs with
    | ',' :: cs =>
      let (vs, cs) ← items fuel cs
      return (v :: vs, cs)
    | ']' :: cs => return ([v], cs)
    | _ => none

/-- The members of an object that has some, to its closing brace. -/
def members : Nat → List Char → Option (List (List Nat × Json) × List Char)
  | 0, _ => none
  | fuel + 1, cs => do
    match skipBlanks cs with
    | '"' :: cs =>
      let (key, cs) ← stringUnits cs
      match skipBlanks cs with
      | ':' :: cs =>
        let (v, cs) ← value fuel cs
        match skipBlanks cs with
        | ',' :: cs =>
          let (ms, cs) ← members fuel cs
          return ((key, v) :: ms, cs)
        | '}' :: cs => return ([(key, v)], cs)
        | _ => none
      | _ => none
    | _ => none

end

/-- The document that a text is. Every second call takes a character, so that twice the length is
fuel enough. -/
def ofText? (text : String) : Option Json := do
  let cs := text.toList
  let (v, rest) ← value (2 * cs.length + 2) cs
  if (skipBlanks rest).isEmpty then return v else none

/-- The text of a string. -/
def asText? : Json → Option String
  | string units => (characters units).map String.ofList
  | _ => none

/-- The number of plain digits, below `2 ^ 64`. -/
def asCount? : Json → Option Nat
  | number text =>
    if text.all isDigit then
      let n := text.foldl (fun n c => 10 * n + (c.toNat - '0'.toNat)) 0
      if n < UInt64.size then some n else none
    else none
  | _ => none

def asFlag? : Json → Option Bool
  | bool b => some b
  | _ => none

end Json
end Settings
end KeyedRows
