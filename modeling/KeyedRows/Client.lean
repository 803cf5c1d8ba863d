/-
# Clients

A client sends one request at a time and waits for the response with its
number. Numbers count up from one, and a request that turns out too large to be
sent has used one up. Bytes that were received and not needed stay for the next
call. Filters are encoded through a cache.
-/

import KeyedRows.Counters
import KeyedRows.FilterCache
import KeyedRows.Frame
import KeyedRows.Wire.Message

namespace KeyedRows

/-- What a client can ask for. -/
inductive Call where
  | ping
  | stats
  | createDatabase (name : String)
  | createTable (target : TableName) (columns : List Column)
  | dropTable (target : TableName)
  | save (target : TableName) (row : Row)
  | saveBatch (target : TableName) (rows : List Row)
  | query (target : TableName) (filter : Option Filter)
  | update (target : TableName) (filter : Option Filter) (patch : Cells)
  | delete (target : TableName) (filter : Option Filter)
  | aggregate (target : TableName) (filter : Filter)
  /-- Any operation with a payload that is encoded already. -/
  | request (target : TableName) (operation : Operation) (payload : Bytes)

/-- What a client gets. -/
inductive Answer where
  | done
  | report (report : Report)
  | saved (id : RowId)
  | outcomes (outcomes : List (Except Failure RowId))
  | rows (rows : List Row)
  | ids (ids : List RowId)
  | value (value : Value)
  | response (response : Response)

namespace Call

def operation : Call → Operation
  | ping => .ping
  | stats => .stats
  | createDatabase _ => .createDatabase
  | createTable _ _ => .createTable
  | dropTable _ => .dropTable
  | save _ _ => .save
  | saveBatch _ _ => .saveBatch
  | query _ _ => .query
  | update _ _ _ => .update
  | delete _ _ => .delete
  | aggregate _ _ => .aggregate
  | request _ op _ => op

def target : Call → TableName
  | ping | stats => ⟨"", ""⟩
  | createDatabase name => ⟨name, ""⟩
  | createTable t _ | dropTable t | save t _ | saveBatch t _ | query t _ | update t _ _
  | delete t _ | aggregate t _ | request t _ _ => t

/-- An optional filter as a payload: no filter is no bytes. -/
def filterBytes (cache : FilterCache) : Option Filter → Bytes × FilterCache
  | none => ([], cache)
  | some f =>
    let (buffer, cache) := cache.encode f
    (buffer.bytes, cache)

/-- The payload of a call, and the cache after its filter was encoded. -/
def payload (cache : FilterCache) : Call → Bytes × FilterCache
  | ping | stats | createDatabase _ | dropTable _ => ([], cache)
  | createTable _ columns => (Wire.encode columns, cache)
  | save _ row => (Wire.encode row, cache)
  | saveBatch _ rows => (Wire.encode rows, cache)
  | query _ filter | delete _ filter => filterBytes cache filter
  | update _ filter patch =>
    let (bytes, cache) := filterBytes cache filter
    (Wire.encode (⟨bytes, patch⟩ : UpdatePayload), cache)
  | aggregate _ filter => filterBytes cache (some filter)
  | request _ _ payload => (payload, cache)

/-- A payload as a value. -/
def read {α : Type} [Wire α] (payload : Bytes) : Except Failure α :=
  (Wire.decode payload).mapError Wire.Fault.failure

/-- What a response means to the caller. -/
def answer (call : Call) (r : Response) : Except Failure Answer :=
  match call with
  | request _ _ _ => .ok (.response r)
  | ping | createDatabase _ | createTable _ _ | dropTable _ => r.outcome.map fun _ => .done
  | stats => do return .report (← read (← r.outcome))
  | save _ _ => do return .saved (← read (← r.outcome))
  | saveBatch _ _ => do return .outcomes (← read (← r.outcome))
  | query _ _ => do return .rows (← read (← r.outcome))
  | update _ _ _ | delete _ _ => do return .ids (← read (← r.outcome))
  | aggregate _ _ => do return .value (← read (← r.outcome))

end Call

/-- A client of one connection. -/
structure Client where
  /-- The longest frame it sends or takes. -/
  limit : Nat
  /-- What was received and not used yet. -/
  inbound : Bytes
  nextId : UInt64
  cache : FilterCache
deriving DecidableEq, Repr

namespace Client

/-- A client that has just connected. -/
def create (limit : Nat) : Client := ⟨limit, [], 1, .create 256⟩

/-- The frame limit of a client that asks for none. -/
def standardLimit : Nat := 16 * 1024 * 1024

/-- The request that a call makes. -/
def requestOf (c : Client) (call : Call) : Request :=
  ⟨c.nextId, call.target, call.operation, (call.payload c.cache).1⟩

/-- The bytes to send for a call. The number of the request is used up even if it is not sent. -/
def send (c : Client) (call : Call) : Except Failure Bytes × Client :=
  let request := c.requestOf call
  let c := { c with nextId := c.nextId + 1, cache := (call.payload c.cache).2 }
  match Frame.push c.limit (Wire.encode request) [] with
  | (.ok (), frame) => (.ok frame, c)
  | (.error fault, _) => (.error fault.failure, c)

/-- Takes bytes that arrived for the call that waits for the response with number `id`. Nothing is
given while the response is not complete and the connection is open. -/
def receive (c : Client) (call : Call) (id : UInt64) (chunk : Bytes) (closed : Bool) :
    Option (Except Failure Answer) × Client :=
  match Frame.pop c.limit (c.inbound ++ chunk) with
  | (.error fault, rest) => (some (.error fault.failure), { c with inbound := rest })
  | (.ok none, rest) =>
    (if closed then some (.error ⟨.io, "connection closed by server"⟩) else none,
      { c with inbound := rest })
  | (.ok (some frame), rest) =>
    let result : Except Failure Answer := do
      let r : Response ← Call.read frame
      if r.id ≠ id then
        let got := r.id.toNat
        let wanted := id.toNat
        throw ⟨.decode, s!"response for request {got} while waiting for {wanted}"⟩
      call.answer r
    (some result, { c with inbound := rest })

end Client
end KeyedRows
