/-
# Requests and responses

A request names an operation, the table or database it is about, and carries
the operation's argument as an encoded payload. A response repeats the number
and the operation of its request and carries either a payload or a failure.

`Response.ofOutcome` and `Response.outcome` are inverse on outcomes.
-/

import KeyedRows.Catalog.Name
import KeyedRows.Wire.Data

namespace KeyedRows

/-- What a request asks for. -/
inductive Operation where
  | save
  | saveBatch
  | query
  | update
  | delete
  | aggregate
  | createDatabase
  | createTable
  | dropTable
  | ping
  | stats
deriving DecidableEq, Repr, Inhabited

namespace Operation

/-- Every operation, in the order of their numbers on the wire. -/
def all : List Operation :=
  [save, saveBatch, query, update, delete, aggregate, createDatabase, createTable, dropTable,
    ping, stats]

theorem mem_all (op : Operation) : op ∈ all := by cases op <;> decide

/-- The name of an operation. -/
def name : Operation → String
  | save => "Save"
  | saveBatch => "SaveBatch"
  | query => "Query"
  | update => "Update"
  | delete => "Delete"
  | aggregate => "Aggregate"
  | createDatabase => "CreateDatabase"
  | createTable => "CreateTable"
  | dropTable => "DropTable"
  | ping => "Ping"
  | stats => "Stats"

end Operation

structure Request where
  id : UInt64
  target : TableName
  operation : Operation
  payload : Bytes
deriving DecidableEq, Repr, Inhabited

structure Response where
  id : UInt64
  operation : Operation
  payload : Bytes
  failure : Option Failure
deriving DecidableEq, Repr, Inhabited

namespace Response

/-- The response that carries an outcome. -/
def ofOutcome (id : UInt64) (operation : Operation) : Except Failure Bytes → Response
  | .ok payload => ⟨id, operation, payload, none⟩
  | .error f => ⟨id, operation, [], some f⟩

/-- The outcome that a response carries. -/
def outcome (r : Response) : Except Failure Bytes :=
  match r.failure with
  | some f => .error f
  | none => .ok r.payload

@[simp] theorem outcome_ofOutcome (id : UInt64) (op : Operation) (o : Except Failure Bytes) :
    (ofOutcome id op o).outcome = o := by
  cases o <;> rfl

end Response

/-- The argument of an update. The filter travels as a blob of its own, so that a filter that does
not decode can be told from a patch that does not. -/
structure UpdatePayload where
  filter : Bytes
  patch : Cells
deriving DecidableEq

instance : Wire FailureKind := Wire.ofCases FailureKind.all

instance : Wire Failure := Wire.ofFields (fun f => (f.kind, f.message)) fun p => ⟨p.1, p.2⟩

instance : Wire Operation := Wire.ofCases Operation.all

instance : Wire DatabaseName := Wire.ofFields DatabaseName.name DatabaseName.mk

instance : Wire TableName := Wire.ofFields (fun t => (t.database, t.table)) fun p => ⟨p.1, p.2⟩

/-- A blob as a field of a record. -/
structure Blob where
  bytes : Bytes
deriving DecidableEq, Repr, Inhabited

instance : Wire Blob where
  write b := Wire.writeBlob b.bytes
  read := return ⟨← Wire.readBlob⟩

instance : Wire Request :=
  Wire.ofFields (fun r => (r.id, r.target, r.operation, Blob.mk r.payload))
    fun p => ⟨p.1, p.2.1, p.2.2.1, p.2.2.2.bytes⟩

instance : Wire Response :=
  Wire.ofFields (fun r => (r.id, r.operation, Blob.mk r.payload, r.failure))
    fun p => ⟨p.1, p.2.1, p.2.2.1.bytes, p.2.2.2⟩

instance : Wire UpdatePayload :=
  Wire.ofFields (fun u => (Blob.mk u.filter, u.patch)) fun p => ⟨p.1.bytes, p.2⟩

end KeyedRows
