/-
# The catalog of databases

A catalog finds databases by name, and a database finds tables by name. What is
found is a reference: references stay good after a name has been dropped, and
the database or table then lives on for those who hold one, out of reach of
every name. A name that is created again after it was dropped refers to a new,
empty object.

Databases and tables are therefore kept in lists that only grow, references are
places in these lists, and names map to references. Operations that may change
the catalog return the catalog after them, also when they fail.

Main statements: `table?_onTable` (an operation through a reference reaches that
table alone) and `find_onTable` (it changes no name).
-/

import KeyedRows.Catalog.Name
import KeyedRows.Table.Aggregate

namespace KeyedRows

/-- A database of a catalog, whether or not a name still leads to it. -/
structure DatabaseRef where
  place : Nat
deriving DecidableEq, Repr, Inhabited

/-- A table of a catalog, whether or not a name still leads to it. -/
structure TableRef where
  place : Nat
deriving DecidableEq, Repr, Inhabited

/-- A named set of tables. -/
structure Database where
  name : String
  tables : OrderedMap String TableRef
deriving DecidableEq

/-- The databases by name, and every database and table there has been. -/
structure Catalog where
  names : OrderedMap String DatabaseRef
  databases : List Database
  tables : List Table
  /-- The scan limits of tables to be created. -/
  limits : ScanLimits
deriving DecidableEq

/-- Why the catalog refuses. -/
inductive CatalogFault where
  | unnamedDatabase
  | noDatabase (database : String)
  | noTable (table database : String)
  /-- There is no table of this name to drop. -/
  | nothingToDrop (table : String)
  | schema (table : String) (fault : SchemaFault)
deriving DecidableEq, Repr

namespace CatalogFault

def message : CatalogFault → String
  | unnamedDatabase => "database name must not be empty"
  | noDatabase database => s!"database `{database}`"
  | noTable table database => s!"table `{table}` in database `{database}`"
  | nothingToDrop table => s!"table `{table}`"
  | schema table fault => fault.message table

def kind : CatalogFault → FailureKind
  | unnamedDatabase | schema _ _ => .validation
  | noDatabase _ | noTable _ _ | nothingToDrop _ => .notFound

def failure (f : CatalogFault) : Failure := ⟨f.kind, f.message⟩

end CatalogFault

namespace Catalog

/-- The catalog without databases. -/
def empty (limits : ScanLimits) : Catalog := ⟨∅, [], [], limits⟩

instance : Inhabited Catalog := ⟨empty default⟩

/-! ### Looking up -/

/-- The database that a reference stands for. -/
def database? (c : Catalog) (d : DatabaseRef) : Option Database := c.databases[d.place]?

/-- The table that a reference stands for. -/
def table? (c : Catalog) (t : TableRef) : Option Table := c.tables[t.place]?

/-- The database of the given name, or a refusal. -/
def findDatabase (c : Catalog) (name : String) : Except CatalogFault DatabaseRef :=
  match c.names.get? name with
  | some d => .ok d
  | none => .error (.noDatabase name)

/-- The table of the given name in a database. -/
def tableIn? (c : Catalog) (d : DatabaseRef) (name : String) : Option TableRef :=
  (c.database? d).bind (·.tables.get? name)

/-- The table of the given name in a database, or a refusal. -/
def findTable (c : Catalog) (d : DatabaseRef) (name : String) : Except CatalogFault TableRef :=
  match c.tableIn? d name with
  | some t => .ok t
  | none => .error (.noTable name (((c.database? d).map (·.name)).getD ""))

/-- The table with the given names, or a refusal. Nothing is created. -/
def find (c : Catalog) (target : TableName) : Except CatalogFault TableRef := do
  c.findTable (← c.findDatabase target.database) target.table

/-- The names of the databases, ascending. -/
def databaseNames (c : Catalog) : List String := c.names.keys

/-- The names of the tables of a database, ascending. -/
def tableNames (c : Catalog) (d : DatabaseRef) : List String :=
  ((c.database? d).map (·.tables.keys)).getD []

/-! ### Creating and dropping -/

/-- The database of the given name, which is created empty if there is none. -/
def createDatabase (c : Catalog) (name : String) : Except CatalogFault DatabaseRef × Catalog :=
  if name.isEmpty then (.error .unnamedDatabase, c)
  else
    match c.names.get? name with
    | some d => (.ok d, c)
    | none =>
      let d : DatabaseRef := ⟨c.databases.length⟩
      (.ok d, { c with
        names := c.names.insert name d
        databases := c.databases ++ [⟨name, ∅⟩] })

/-- Takes the name of a database away and returns what it referred to. -/
def dropDatabase (c : Catalog) (name : String) : Option DatabaseRef × Catalog :=
  (c.names.get? name, { c with names := c.names.erase name })

/-- Changes the names of the tables of a database. -/
def renameTables (c : Catalog) (d : DatabaseRef)
    (f : OrderedMap String TableRef → OrderedMap String TableRef) : Catalog :=
  { c with databases := c.databases.modify d.place fun db => { db with tables := f db.tables } }

/-- The table of the given name in a database. If there is none it is created with the given
columns; if there is one the columns play no part. -/
def createTable (c : Catalog) (d : DatabaseRef) (name : String) (columns : List Column) :
    Except CatalogFault TableRef × Catalog :=
  match c.tableIn? d name with
  | some t => (.ok t, c)
  | none =>
    match Table.create name columns c.limits with
    | .error fault => (.error (.schema name fault), c)
    | .ok table =>
      let t : TableRef := ⟨c.tables.length⟩
      let c := { c with tables := c.tables ++ [table] }
      (.ok t, c.renameTables d (·.insert name t))

/-- Takes the name of a table away and returns what it referred to. -/
def dropTable (c : Catalog) (d : DatabaseRef) (name : String) : Option TableRef × Catalog :=
  (c.tableIn? d name, c.renameTables d (·.erase name))

/-! ### Operations on tables -/

/-- Runs an operation on the table that a reference stands for. -/
def onTable {α : Type} (c : Catalog) (t : TableRef) (f : Table → α × Table) :
    Option α × Catalog :=
  match c.table? t with
  | none => (none, c)
  | some table =>
    let (a, table) := f table
    (some a, { c with tables := c.tables.set t.place table })

/-- **An operation through a reference reaches that table alone.** -/
theorem table?_onTable {α : Type} (c : Catalog) (t u : TableRef) (f : Table → α × Table) :
    (c.onTable t f).2.table? u =
      if u = t then (c.table? t).map fun table => (f table).2 else c.table? u := by
  rw [onTable]
  split
  · rename_i h
    split
    · rename_i hu
      subst hu
      rw [h]; rfl
    · rfl
  · rename_i table h
    obtain ⟨hlt, -⟩ := List.getElem?_eq_some_iff.1 h
    simp only [table?, List.getElem?_set]
    split
    · rename_i hp
      obtain rfl : t = u := by cases t; cases u; simp_all
      rw [table?] at h
      rw [if_pos rfl, h]
      rfl
    · rename_i hp
      rw [if_neg fun hu => hp (by rw [hu])]

/-- An operation on a table changes no name. -/
theorem find_onTable {α : Type} (c : Catalog) (t : TableRef) (f : Table → α × Table)
    (target : TableName) : (c.onTable t f).2.find target = c.find target := by
  rw [onTable]
  split <;> rfl

end Catalog
end KeyedRows
