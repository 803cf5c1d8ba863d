/-
# Values, rows and filters on the wire

The variants of each type are numbered in the order in which the type lists
them, and the fields of a record travel in the order in which it declares them.
Expressions nest; the writer puts the bytes of an expression in front of those
that follow, and the reader descends with a bound on the depth that no encoding
of less than `2 ^ 64` bytes reaches.

Main statements: `Expr.write_compare`, `Expr.write_and`, `Expr.write_or` and
`Expr.write_const` say what the bytes of an expression are.
-/

import KeyedRows.Filter
import KeyedRows.Wire.Basic

namespace KeyedRows

instance : Wire Double := Wire.ofFields Double.bits Double.mk

namespace Value

open Wire

instance : Wire Value where
  write
    | null => writeVariant 0
    | bool b => writeVariant 1 ++ write b
    | int i => writeVariant 2 ++ write i
    | float x => writeVariant 3 ++ write x
    | str s => writeVariant 4 ++ write s
    | bytes b => writeVariant 5 ++ writeBlob b
  read := do
    match ← readVariant 6 with
    | 0 => return null
    | 1 => return bool (← read)
    | 2 => return int (← read)
    | 3 => return float (← read)
    | 4 => return str (← read)
    | 5 => return bytes (← readBlob)

end Value

instance : Wire RowId := Wire.ofFields RowId.parts RowId.mk

instance : Wire Row := Wire.ofFields (fun r => (r.id, r.cells)) fun p => ⟨p.1, p.2⟩

instance : Wire ColumnKind := Wire.ofCases ColumnKind.all

instance : Wire Column :=
  Wire.ofFields (fun c => (c.name, c.isKey, c.kind)) fun p => ⟨p.1, p.2.1, p.2.2⟩

instance : Wire Relation := Wire.ofCases Relation.all

instance : Wire Condition :=
  Wire.ofFields (fun c => (c.relation, c.column, c.value)) fun p => ⟨p.1, p.2.1, p.2.2⟩

namespace Expr

open Wire

mutual

/-- Puts the bytes of an expression in front of others. Every byte is put down once, however deep
the expression nests. -/
def prepend : Expr → Bytes → Bytes
  | compare c, rest => writeVariant 0 ++ (Wire.write c ++ rest)
  | and es, rest => writeVariant 1 ++ (writeLength es.length ++ prependAll es rest)
  | or es, rest => writeVariant 2 ++ (writeLength es.length ++ prependAll es rest)
  | const b, rest => writeVariant 3 ++ (Wire.write b ++ rest)

/-- Puts the bytes of expressions, one after another, in front of others. -/
def prependAll : List Expr → Bytes → Bytes
  | [], rest => rest
  | e :: es, rest => prepend e (prependAll es rest)

end

mutual

theorem prepend_append (e : Expr) (front rest : Bytes) :
    prepend e (front ++ rest) = prepend e front ++ rest := by
  cases e with
  | compare c => simp [prepend]
  | and es => simp [prepend, prependAll_append es]
  | or es => simp [prepend, prependAll_append es]
  | const b => simp [prepend]

theorem prependAll_append (es : List Expr) (front rest : Bytes) :
    prependAll es (front ++ rest) = prependAll es front ++ rest := by
  cases es with
  | nil => simp [prependAll]
  | cons e es => rw [prependAll, prependAll, prependAll_append es, prepend_append e]

end

/-- Reads an expression that nests less than `depth` deep. -/
def readNested : (depth : Nat) → Reader Expr
  | 0 => throw .endOfInput
  | depth + 1 => do
    match ← readVariant 4 with
    | 0 => return compare (← read)
    | 1 => return and (← readListWith (readNested depth))
    | 2 => return or (← readListWith (readNested depth))
    | 3 => return const (← read)

instance : Wire Expr where
  write e := prepend e []
  read := readNested UInt64.size

theorem prepend_eq (e : Expr) (rest : Bytes) : prepend e rest = Wire.write e ++ rest :=
  prepend_append e [] rest

theorem prependAll_eq (es : List Expr) (rest : Bytes) :
    prependAll es rest = es.flatMap Wire.write ++ rest := by
  induction es with
  | nil => rfl
  | cons e es ih => rw [prependAll, prepend_eq, ih, List.flatMap_cons, List.append_assoc]

/-- The variant number of a comparison, then the condition. -/
theorem write_compare (c : Condition) :
    Wire.write (compare c) = writeVariant 0 ++ Wire.write c := by
  simp [Wire.write, prepend]

/-- The variant number of a conjunction, then its members as a list. -/
theorem write_and (es : List Expr) : Wire.write (and es) = writeVariant 1 ++ Wire.write es := by
  change writeVariant 1 ++ (writeLength es.length ++ prependAll es []) = _
  rw [prependAll_eq, List.append_nil]
  rfl

/-- The variant number of a disjunction, then its members as a list. -/
theorem write_or (es : List Expr) : Wire.write (or es) = writeVariant 2 ++ Wire.write es := by
  change writeVariant 2 ++ (writeLength es.length ++ prependAll es []) = _
  rw [prependAll_eq, List.append_nil]
  rfl

/-- The variant number of a constant, then its truth value. -/
theorem write_const (b : Bool) : Wire.write (const b) = writeVariant 3 ++ Wire.write b := by
  simp [Wire.write, prepend]

end Expr

instance : Wire Aggregate := Wire.ofCases Aggregate.all

instance : Wire Projection :=
  Wire.ofFields (fun p => (p.aggregate, p.column)) fun p => ⟨p.1, p.2⟩

instance : Wire Filter :=
  Wire.ofFields (fun f => (f.conditions, f.projection)) fun p => ⟨p.1, p.2⟩

end KeyedRows
