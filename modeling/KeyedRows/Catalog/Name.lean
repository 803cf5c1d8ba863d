/-
# Names of databases and tables
-/

namespace KeyedRows

/-- The name of a database. -/
structure DatabaseName where
  name : String
deriving DecidableEq, Repr, Inhabited

/-- The name of a table inside a database. -/
structure TableName where
  database : String
  table : String
deriving DecidableEq, Repr, Inhabited

/-- The database that a table belongs to. -/
def TableName.databaseName (t : TableName) : DatabaseName := ⟨t.database⟩

end KeyedRows
