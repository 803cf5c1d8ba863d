/-
# Declared tables

A table has a name and declares columns. The names of the columns must be
present and distinct, and at least one column must belong to the primary key;
the keys of the rows then have one part for each column of the primary key.
-/

import KeyedRows.Failure
import KeyedRows.Row

namespace KeyedRows

/-- Why a table cannot be declared. -/
inductive SchemaFault where
  | unnamedTable
  | unnamedColumn
  | repeatedColumn (column : String)
  | noKeyColumn
deriving DecidableEq, Repr

namespace SchemaFault

/-- The wording, for a table of the given name. -/
def message (table : String) : SchemaFault → String
  | unnamedTable => "table name must not be empty"
  | unnamedColumn => s!"table `{table}`: empty column name"
  | repeatedColumn column => s!"table `{table}`: duplicate column `{column}`"
  | noKeyColumn => s!"table `{table}` declares no primary key"

def failure (table : String) (f : SchemaFault) : Failure := ⟨.validation, f.message table⟩

end SchemaFault

/-- The first column that has no name or repeats an earlier one. -/
def checkColumnNames (seen : List String) : List Column → Except SchemaFault Unit
  | [] => .ok ()
  | c :: cs =>
    if c.name.isEmpty then .error .unnamedColumn
    else if c.name ∈ seen then .error (.repeatedColumn c.name)
    else checkColumnNames (c.name :: seen) cs

/-- The names of the columns of the primary key, in the order of their declaration. -/
def keyColumns (columns : List Column) : List String :=
  (columns.filter (·.isKey)).map (·.name)

/-- A table may be declared with this name and these columns. -/
def checkSchema (name : String) (columns : List Column) : Except SchemaFault Unit := do
  if name.isEmpty then throw .unnamedTable
  checkColumnNames [] columns
  if (keyColumns columns).isEmpty then throw .noKeyColumn

/-- Why a row is refused. -/
inductive RowFault where
  | nullKey
  | incompleteKey (id : RowId)
  | keyArity (parts columns : Nat)
  | missingKeyCell (column : String)
deriving DecidableEq, Repr

namespace RowFault

/-- The wording, for a table of the given name. -/
def message (table : String) : RowFault → String
  | nullKey => s!"table `{table}`: null row key"
  | incompleteKey id =>
    let key := id.text
    s!"table `{table}`: row key {key} has a null part"
  | keyArity parts columns =>
    s!"table `{table}`: row key has {parts} parts, primary key has {columns} columns"
  | missingKeyCell column => s!"table `{table}`: primary-key column `{column}` missing or null"

def failure (table : String) (f : RowFault) : Failure := ⟨.validation, f.message table⟩

end RowFault

/-- The cell of a column is there and not null. -/
def Cells.holds (cells : Cells) (column : String) : Bool :=
  (cells.get? column).any (!·.isNull)

/-- A row that a table with the given primary key takes: the key is complete and has one part for
each key column, and the row has a cell for each of them. -/
def checkRow (keys : List String) (row : Row) : Except RowFault Unit := do
  if row.id.isNull then throw .nullKey
  if !row.id.isComplete then throw (.incompleteKey row.id)
  if row.id.size ≠ keys.length then throw (.keyArity row.id.size keys.length)
  match keys.find? (!row.cells.holds ·) with
  | some column => throw (.missingKeyCell column)
  | none => return

end KeyedRows
