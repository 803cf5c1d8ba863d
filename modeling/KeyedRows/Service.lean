/-
# Carrying out requests

A service carries out requests on a catalog. It serves a set of operations, and
is strict or lenient about filters: a filter that does not decode is a failure
for a strict service and passes no row for a lenient one. An empty payload is no
filter at all. Aggregates are always strict.

Carrying out a request is a computation on the catalog that may fail; what it
did to the catalog before a failure stays. Every operation decodes its payload
and finds its target before it changes anything.
-/

import KeyedRows.Catalog.Basic
import KeyedRows.Counters
import KeyedRows.Wire.Message

namespace KeyedRows

/-- Which operations are served, and how. -/
structure Service where
  operations : List Operation
  lenient : Bool
deriving DecidableEq, Repr

/-- What a report shows besides the names of the databases. -/
structure Readings where
  server : ServerCounters
  startTime : String
  uptimeSeconds : Nat
  queue : QueueCounters
deriving DecidableEq, Repr, Inhabited

namespace Service

/-- The service of all operations. -/
def standard (lenient : Bool) : Service := ⟨Operation.all, lenient⟩

/-- A computation on the catalog that may fail. -/
abbrev Run := ExceptT Failure (StateM Catalog)

/-- A payload as a value. -/
def decode {α : Type} [Wire α] (payload : Bytes) : Run α :=
  liftM ((Wire.decode payload).mapError Wire.Fault.failure)

/-- A payload as an optional filter. -/
def decodeFilter (s : Service) (payload : Bytes) : Run (Option Filter) :=
  if payload.isEmpty then return none
  else
    match Wire.decode payload with
    | .ok filter => return some filter
    | .error fault => if s.lenient then return some .nothing else throw fault.failure

/-- A step on the catalog that may be refused. -/
def step {α : Type} (f : Catalog → Except CatalogFault α × Catalog) : Run α := do
  let (result, c) := f (← get)
  set c
  liftM (result.mapError CatalogFault.failure)

/-- The table that a request is about. -/
def target (r : Request) : Run TableRef := step fun c => (c.find r.target, c)

/-- The database that a request is about. -/
def targetDatabase (r : Request) : Run DatabaseRef :=
  step fun c => (c.findDatabase r.target.database, c)

/-- An operation on a table. -/
def onTable {α : Type} (t : TableRef) (f : Table → α × Table) : Run α := do
  let (result, c) := (← get).onTable t f
  set c
  match result with
  | some a => return a
  | none => throw ⟨.internal, "no such table"⟩

def save (r : Request) : Run Bytes := do
  let row : Row ← decode r.payload
  let t ← target r
  let saved ← onTable t fun table =>
    let (saved, table') := table.save row
    (saved.mapError (·.failure table.name), table')
  return Wire.encode (← (liftM saved : Run RowId))

def saveBatch (r : Request) : Run Bytes := do
  let rows : List Row ← decode r.payload
  let t ← target r
  let outcomes ← onTable t fun table =>
    let (outcomes, table') := table.saveAll rows
    (outcomes.map fun o => o.mapError (·.failure table.name), table')
  return Wire.encode outcomes

def query (s : Service) (r : Request) : Run Bytes := do
  let filter ← s.decodeFilter r.payload
  let t ← target r
  return Wire.encode (← onTable t fun table => (table.query filter, table))

def update (s : Service) (r : Request) : Run Bytes := do
  let payload : UpdatePayload ← decode r.payload
  let filter ← s.decodeFilter payload.filter
  let t ← target r
  return Wire.encode (← onTable t fun table => table.update filter payload.patch)

def delete (s : Service) (r : Request) : Run Bytes := do
  let filter ← s.decodeFilter r.payload
  let t ← target r
  return Wire.encode (← onTable t fun table => table.delete filter)

def aggregate (r : Request) : Run Bytes := do
  let filter : Filter ← decode r.payload
  let t ← target r
  let value ← onTable t fun table =>
    ((table.aggregate filter).mapError AggregateFault.failure, table)
  return Wire.encode (← (liftM value : Run Value))

def createDatabase (r : Request) : Run Bytes := do
  let _ ← step (·.createDatabase r.target.database)
  return []

def createTable (r : Request) : Run Bytes := do
  let columns : List Column ← decode r.payload
  let d ← targetDatabase r
  let _ ← step (·.createTable d r.target.table columns)
  return []

def dropTable (r : Request) : Run Bytes := do
  let d ← targetDatabase r
  step fun c =>
    match c.dropTable d r.target.table with
    | (some _, c) => (.ok [], c)
    | (none, c) => (.error (.nothingToDrop r.target.table), c)

def stats (now : Readings) : Run Bytes := do
  let c ← get
  return Wire.encode
    (⟨now.server, now.startTime, now.uptimeSeconds, now.queue, c.databaseNames⟩ : Report)

/-- Carries out a request. The readings are those of the moment. -/
def carryOut (s : Service) (now : Readings) (r : Request) : Run Bytes :=
  if r.operation ∈ s.operations then
    match r.operation with
    | .save => save r
    | .saveBatch => saveBatch r
    | .query => s.query r
    | .update => s.update r
    | .delete => s.delete r
    | .aggregate => aggregate r
    | .createDatabase => createDatabase r
    | .createTable => createTable r
    | .dropTable => dropTable r
    | .ping => return []
    | .stats => stats now
  else throw ⟨.decode, "no operator for " ++ r.operation.name⟩

/-- The outcome of a request and the catalog after it. -/
def execute (s : Service) (now : Readings) (r : Request) (c : Catalog) :
    Except Failure Bytes × Catalog :=
  (s.carryOut now r).run.run c

end Service
end KeyedRows
