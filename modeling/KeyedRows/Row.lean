/-
# Rows

A row is found by its key, a list of values that is compared part by part, and
holds cells: one value for each of some columns, listed in the order of the
column names. Which columns a table declares does not limit the cells a row may
have; a declaration names the columns of the primary key.

Main statements: keys are totally ordered like their lists of parts (the
instances of `TransOrd` and `LawfulEqOrd`), and `Cells.get?_overlay` says which
value a cell has after other cells were written over it.
-/

import KeyedRows.OrderedMap
import KeyedRows.Value

namespace KeyedRows

open Std

/-- The key of a row. -/
structure RowId where
  parts : List Value
deriving DecidableEq, Repr, Inhabited

namespace RowId

/-- Keys are ordered part by part; a key comes before its extensions. -/
instance : Ord RowId := ⟨fun a b => compare a.parts b.parts⟩

theorem compare_def (a b : RowId) : compare a b = compare a.parts b.parts := rfl

instance : TransOrd RowId where
  eq_swap {a b} := by
    simp only [compare_def]
    exact OrientedCmp.eq_swap
  isLE_trans {a b c} := by
    simp only [compare_def]
    exact TransCmp.isLE_trans

instance : LawfulEqOrd RowId where
  compare_self {a} := by
    simp only [compare_def]
    exact ReflCmp.compare_self
  eq_of_compare {a b} h := by
    rw [compare_def] at h
    have := LawfulEqCmp.eq_of_compare h
    cases a; cases b; simp_all

/-- The key with one part. -/
def single (v : Value) : RowId := ⟨[v]⟩

/-- The number of parts. -/
def size (id : RowId) : Nat := id.parts.length

/-- Every part is null; so is the key without parts. -/
def isNull (id : RowId) : Bool := id.parts.all (·.isNull)

/-- There is a part and none is null. Only such keys are ever stored. -/
def isComplete (id : RowId) : Bool := !id.parts.isEmpty && !id.parts.any (·.isNull)

/-- What a key writes to a hasher: how many parts it has, then what the parts write. -/
def hashInput (id : RowId) : List Bytes :=
  Bytes.ofNat 8 id.parts.length :: id.parts.flatMap Value.hashInput

/-- The parts in parentheses. -/
def text (id : RowId) : String :=
  "(" ++ ", ".intercalate (id.parts.map (·.text)) ++ ")"

end RowId

/-- The cells of a row by column name. -/
abbrev Cells := OrderedMap String Value

namespace Cells

/-- The cells of `old` with those of `new` written over them. -/
def overlay (old new : Cells) : Cells := old.insertAll new.entries

/-- **A cell after an overlay** is the new one if there is one, else the old one. -/
theorem get?_overlay (old new : Cells) (c : String) :
    (overlay old new).get? c = (new.get? c).or (old.get? c) :=
  OrderedMap.get?_insertAll new.ascending old c

/-- Writing the same cells again changes nothing. -/
theorem overlay_overlay_self (old new : Cells) : (old.overlay new).overlay new = old.overlay new := by
  apply OrderedMap.ext_get?
  intro c
  rw [get?_overlay, get?_overlay]
  cases new.get? c <;> rfl

/-- The order of two overlays that agree where they overlap makes no difference. -/
theorem overlay_right_comm (old : Cells) {a b : Cells}
    (h : ∀ c v w, a.get? c = some v → b.get? c = some w → v = w) :
    (old.overlay a).overlay b = (old.overlay b).overlay a := by
  apply OrderedMap.ext_get?
  intro c
  simp only [get?_overlay]
  cases ha : a.get? c with
  | none => rfl
  | some v =>
    cases hb : b.get? c with
    | none => rfl
    | some w => simp only [Option.some_or, h c v w ha hb]

end Cells

/-- A key with cells. -/
structure Row where
  id : RowId
  cells : Cells
deriving DecidableEq

namespace Row

/-- The cell of a column. -/
def get? (row : Row) (column : String) : Option Value := row.cells.get? column

/-- Writes one cell. -/
def set (row : Row) (column : String) (value : Value) : Row :=
  { row with cells := row.cells.insert column value }

end Row

/-- The declared content of a column. It describes and does not constrain. -/
inductive ColumnKind where
  | bool
  | int
  | float
  | str
  | bytes
  | any
deriving DecidableEq, Repr, Inhabited

namespace ColumnKind

/-- Every kind of column, in the order of their numbers on the wire. -/
def all : List ColumnKind := [bool, int, float, str, bytes, any]

theorem mem_all (k : ColumnKind) : k ∈ all := by cases k <;> decide

def name : ColumnKind → String
  | bool => "Bool"
  | int => "Int"
  | float => "Float"
  | str => "Str"
  | bytes => "Bytes"
  | any => "Any"

end ColumnKind

/-- A declared column. -/
structure Column where
  name : String
  /-- The column belongs to the primary key. -/
  isKey : Bool
  kind : ColumnKind
deriving DecidableEq, Repr, Inhabited

end KeyedRows
