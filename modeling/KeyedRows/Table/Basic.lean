/-
# Tables

A table keeps its rows in the order of their keys. Saving a row writes its
cells over those of the row with the same key, updating writes one patch over
every matching row, deleting removes every matching row.

A query whose filter has conditions returns every matching row. Without
conditions it is a full scan, which stops at the limit of the table. Updates,
deletions and aggregates are never cut short.
-/

import KeyedRows.Filter
import KeyedRows.Table.Schema

namespace KeyedRows

/-- How far a table scans. -/
structure ScanLimits where
  /-- The most rows that a query without conditions returns. -/
  fullScan : Nat
  /-- The number of rows from which a scan is split into two halves. -/
  parallelThreshold : Nat
deriving DecidableEq, Repr

instance : Inhabited ScanLimits := ⟨1000, 4096⟩

/-- A named table with its declared columns and its rows in key order. -/
structure Table where
  name : String
  columns : List Column
  limits : ScanLimits
  rows : OrderedMap RowId Cells
deriving DecidableEq

namespace Table

/-- A new table without rows. -/
def create (name : String) (columns : List Column) (limits : ScanLimits) :
    Except SchemaFault Table := do
  checkSchema name columns
  return ⟨name, columns, limits, ∅⟩

/-- The names of the columns of the primary key. -/
def primaryKey (t : Table) : List String := keyColumns t.columns

/-- The number of rows. -/
def size (t : Table) : Nat := t.rows.size

/-- The row with the given key. -/
def get? (t : Table) (id : RowId) : Option Row := (t.rows.get? id).map (Row.mk id)

/-- Writes cells over those of the row with the given key, which is new if there was none. -/
def write (t : Table) (id : RowId) (cells : Cells) : Table :=
  { t with rows := t.rows.insert id (((t.rows.get? id).getD ∅).overlay cells) }

/-- Saves an acceptable row; a refused row leaves the table as it is. -/
def save (t : Table) (row : Row) : Except RowFault RowId × Table :=
  match checkRow t.primaryKey row with
  | .error fault => (.error fault, t)
  | .ok () => (.ok row.id, t.write row.id row.cells)

/-- Saves row after row, with one outcome for each. -/
def saveAll (t : Table) : List Row → List (Except RowFault RowId) × Table
  | [] => ([], t)
  | row :: rows =>
    let (outcome, t) := t.save row
    let (outcomes, t) := t.saveAll rows
    (outcome :: outcomes, t)

/-! ### Matching -/

/-- The rows of entries whose cells pass the test. -/
def passing (test : Cells → Bool) (entries : List (RowId × Cells)) : List Row :=
  (entries.filter fun e => test e.2).map fun e => ⟨e.1, e.2⟩

/-- Every row whose cells pass the test, in key order. The halves of a large table are scanned
apart and joined in order. -/
def scan (t : Table) (test : Cells → Bool) : List Row :=
  let entries := t.rows.entries
  if t.limits.parallelThreshold ≤ entries.length then
    let (front, back) := entries.splitAt (entries.length / 2)
    passing test front ++ passing test back
  else passing test entries

theorem scan_eq_passing (t : Table) (test : Cells → Bool) :
    t.scan test = passing test t.rows.entries := by
  rw [scan]
  split
  · simp only [List.splitAt_eq, passing, ← List.map_append, ← List.filter_append,
      List.take_append_drop]
  · rfl

/-- The test that an optional filter stands for: no filter passes every row. -/
def passes (filter : Option Filter) (cells : Cells) : Bool := filter.all (·.test cells)

/-- The keys of the matching rows, ascending. -/
def matchingIds (t : Table) (filter : Option Filter) : List RowId :=
  (t.scan (passes filter)).map (·.id)

/-- The first rows in key order. -/
def firstRows (t : Table) (n : Nat) : List Row := passing (fun _ => true) (t.rows.entries.take n)

/-- The rows that a filter selects. Only a filter with conditions is exempt from the limit on full
scans. -/
def query (t : Table) : Option Filter → List Row
  | some filter =>
    if filter.isUnconditioned then t.firstRows t.limits.fullScan else t.scan filter.test
  | none => t.firstRows t.limits.fullScan

/-- Writes the patch over every matching row and returns their keys. Columns of the patch that the
table does not declare are written like the others. -/
def update (t : Table) (filter : Option Filter) (patch : Cells) : List RowId × Table :=
  (t.matchingIds filter,
    { t with rows := t.rows.mapValues fun _ cells =>
        if passes filter cells then cells.overlay patch else cells })

/-- Removes every matching row and returns their keys. -/
def delete (t : Table) (filter : Option Filter) : List RowId × Table :=
  (t.matchingIds filter, { t with rows := t.rows.filter fun _ cells => !passes filter cells })

/-! ### Text -/

/-- The cells of a row under the declared columns, an absent one as null. -/
def rowText (t : Table) (cells : Cells) : String :=
  "\t".intercalate (t.columns.map fun c => ((cells.get? c.name).getD .null).text)

/-- A title, a header and a line for every row. -/
def text (t : Table) : String :=
  let title := "RowStoreTable " ++ t.name
  let header := "\t".intercalate (t.columns.map (·.name))
  String.join ((title :: header :: t.rows.entries.map fun e => t.rowText e.2).map (· ++ "\n"))

end Table
end KeyedRows
