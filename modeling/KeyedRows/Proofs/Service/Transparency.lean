/-
# The wire makes no difference

A call on the rows of a table travels as a request, is carried out by a service,
and its outcome travels back as a response. What the client then has is what the
table itself would have answered, failures with their kind and message included,
and the table is what it would have become.

The work of the service is that of the call because the payload decodes to the
argument it was made of (`plan_payload`), and the client reads out of the
response what the work put into it (`answer_work`). Being strict or lenient plays
no part, since every filter decodes.

Encodings are taken to be of less than `2 ^ 64` bytes, which is more than any
memory holds.

Main statement: `exchange_eq_direct`.
-/

import KeyedRows.Proofs.Client.Reached
import KeyedRows.Proofs.Service.Atomicity

namespace KeyedRows

/-! ### Calls on the rows of a table -/

/-- A call on the rows of a table. -/
inductive TableCall where
  | save (row : Row)
  | saveBatch (rows : List Row)
  | query (filter : Option Filter)
  | update (filter : Option Filter) (patch : Cells)
  | delete (filter : Option Filter)
  | aggregate (filter : Filter)

namespace TableCall

/-- The call of a client, for the table of the given names. -/
def on (target : TableName) : TableCall → Call
  | save row => .save target row
  | saveBatch rows => .saveBatch target rows
  | query filter => .query target filter
  | update filter patch => .update target filter patch
  | delete filter => .delete target filter
  | aggregate filter => .aggregate target filter

/-- The operation that is asked for. -/
def operation : TableCall → Operation
  | save _ => .save
  | saveBatch _ => .saveBatch
  | query _ => .query
  | update _ _ => .update
  | delete _ => .delete
  | aggregate _ => .aggregate

/-- The argument as it travels. -/
def payload : TableCall → Bytes
  | save row => Wire.encode row
  | saveBatch rows => Wire.encode rows
  | query filter | delete filter => filterPayload filter
  | update filter patch => Wire.encode (⟨filterPayload filter, patch⟩ : UpdatePayload)
  | aggregate filter => filterPayload (some filter)

/-- **Every client makes the same request of a call**, but for its number. -/
theorem requestOf_on {client : Client} (h : client.Reached) (call : TableCall)
    (target : TableName) :
    client.requestOf (call.on target) =
      ⟨client.nextId, target, call.operation, call.payload⟩ := by
  have hfilter := Client.filterBytes_eq h
  cases call with
  | save | saveBatch => rfl
  | query filter | delete filter => exact congrArg (Request.mk _ _ _) (hfilter filter)
  | aggregate filter => exact congrArg (Request.mk _ _ _) (hfilter (some filter))
  | update filter patch =>
    exact congrArg (fun bytes => Request.mk _ _ _ (Wire.encode (⟨bytes, patch⟩ : UpdatePayload)))
      (hfilter filter)

/-- The call on the table itself: the answer, and the table after it. -/
def direct : TableCall → Table → Except Failure Answer × Table
  | save row, t => (((t.save row).1.mapError (·.failure t.name)).map .saved, (t.save row).2)
  | saveBatch rows, t =>
    (.ok (.outcomes ((t.saveAll rows).1.map fun o => o.mapError (·.failure t.name))),
      (t.saveAll rows).2)
  | query filter, t => (.ok (.rows (t.query filter)), t)
  | update filter patch, t => (.ok (.ids (t.update filter patch).1), (t.update filter patch).2)
  | delete filter, t => (.ok (.ids (t.delete filter).1), (t.delete filter).2)
  | aggregate filter, t =>
    (((t.aggregate filter).mapError AggregateFault.failure).map .value, t)

/-- The work that a service does for the call. -/
def work : TableCall → TableWork
  | save row => .save row
  | saveBatch rows => .saveAll rows
  | query filter => .query filter
  | update filter patch => .update filter patch
  | delete filter => .delete filter
  | aggregate filter => .aggregate filter

/-- The table becomes the same. -/
theorem work_snd (call : TableCall) (t : Table) : (call.work t).2 = (call.direct t).2 := by
  cases call <;> rfl

end TableCall

/-! ### From the request to the table -/

namespace Service

/-- A payload decodes to the value it was made of. -/
theorem decoding_encode {α : Type} [Wire α] [Wire.Lawful α] {x : α} {next : α → Plan}
    (h : (Wire.encode x).length < UInt64.size) : decoding (Wire.encode x) next = next x := by
  rw [decoding, Wire.decode_encode h]

theorem filtering_filterPayload {s : Service} {filter : Option Filter}
    {next : Option Filter → Plan} (h : (filterPayload filter).length < UInt64.size) :
    s.filtering (filterPayload filter) next = next filter := by
  rw [filtering, isEmpty_filterPayload]
  cases filter with
  | none => rfl
  | some f =>
    have hdecode : Wire.decode (filterPayload (some f)) = .ok f := Wire.decode_encode h
    rw [hdecode]
    rfl

/-- **The plan of a request is the work that was called for.** -/
theorem plan_payload (s : Service) (now : Readings) (id : UInt64) (target : TableName)
    {call : TableCall} (hserved : call.operation ∈ s.operations)
    (h : call.payload.length < UInt64.size) :
    s.plan now ⟨id, target, call.operation, call.payload⟩ = .onTarget call.work := by
  rw [plan, if_pos hserved]
  cases call with
  | save row => exact decoding_encode h
  | saveBatch rows => exact decoding_encode h
  | query filter => exact filtering_filterPayload h
  | delete filter => exact filtering_filterPayload h
  | aggregate filter => exact decoding_encode h
  | update filter patch =>
    have hwrite : TableCall.payload (.update filter patch) =
        Wire.writeBlob (filterPayload filter) ++ Wire.write patch := rfl
    have hfilter : (filterPayload filter).length < UInt64.size := by
      rw [hwrite, Wire.writeBlob] at h
      simp only [List.length_append] at h
      omega
    exact (decoding_encode h).trans (filtering_filterPayload hfilter)

end Service

/-! ### From the response to the answer -/

namespace Call

theorem read_encode {α : Type} [Wire α] [Wire.Lawful α] {x : α}
    (h : (Wire.encode x).length < UInt64.size) : read (Wire.encode x) = .ok x := by
  rw [read, Wire.decode_encode h]
  rfl

/-- What was encoded into a response is read out of it. -/
theorem read_outcome {α β : Type} [Wire α] [Wire.Lawful α] {o : Except Failure α} {f : α → β}
    {r : Response} (hr : r.outcome = o.map Wire.encode)
    (h : ∀ bytes, r.outcome = .ok bytes → bytes.length < UInt64.size) :
    (do return f (← read (α := α) (← r.outcome))) = o.map f := by
  rw [hr] at h ⊢
  cases o with
  | error failure => rfl
  | ok x =>
    show (do return f (← read (Wire.encode x))) = _
    rw [read_encode (h _ rfl)]
    rfl

end Call

/-- The outcome of the work is read as the answer of the table. -/
theorem TableCall.answer_work (call : TableCall) (target : TableName) (t : Table) {r : Response}
    (hr : r.outcome = (call.work t).1)
    (h : ∀ bytes, r.outcome = .ok bytes → bytes.length < UInt64.size) :
    (call.on target).answer r = (call.direct t).1 := by
  cases call with
  | save row => exact Call.read_outcome (f := Answer.saved) hr h
  | saveBatch rows => exact Call.read_outcome (o := .ok _) (f := Answer.outcomes) hr h
  | query filter => exact Call.read_outcome (o := .ok _) (f := Answer.rows) hr h
  | update | delete => exact Call.read_outcome (o := .ok _) (f := Answer.ids) hr h
  | aggregate filter => exact Call.read_outcome (f := Answer.value) hr h

/-- No payload is longer than its response. -/
theorem Response.length_outcome_le {r : Response} {bytes : Bytes} (h : r.outcome = .ok bytes) :
    bytes.length ≤ (Wire.encode r).length := by
  have hpayload : bytes = r.payload := by
    rw [outcome] at h
    split at h
    · contradiction
    · exact (Except.ok.inj h).symm
  have hwrite : Wire.encode r = Wire.write r.id ++
      (Wire.write r.operation ++ (Wire.writeBlob r.payload ++ Wire.write r.failure)) := rfl
  rw [hwrite, hpayload, Wire.writeBlob]
  simp only [List.length_append]
  omega

theorem Request.length_payload_le (r : Request) : r.payload.length ≤ (Wire.encode r).length := by
  have hwrite : Wire.encode r = Wire.write r.id ++
      (Wire.write r.target ++ (Wire.write r.operation ++ Wire.writeBlob r.payload)) := rfl
  rw [hwrite, Wire.writeBlob]
  simp only [List.length_append]
  omega

/-! ### There and back -/

namespace Service

/-- The response to a request. -/
def respond (s : Service) (now : Readings) (r : Request) (c : Catalog) : Response :=
  .ofOutcome r.id r.operation (s.execute now r c).1

/-- What a service makes of the bytes of a request: the response, and the catalog after it. -/
def receive (s : Service) (now : Readings) (bytes : Bytes) (c : Catalog) :
    Except Failure Response × Catalog :=
  match Wire.decode bytes with
  | .error fault => (.error fault.failure, c)
  | .ok r => (.ok (s.respond now r c), (s.execute now r c).2)

/-- A call by way of bytes: the client writes a request, the service reads it, carries it out and
writes the response, and out of that the client reads its answer. -/
def exchange (s : Service) (now : Readings) (client : Client) (call : Call) (c : Catalog) :
    Except Failure Answer × Catalog :=
  let (response, c) := s.receive now (Wire.encode (client.requestOf call)) c
  (do call.answer (← Call.read (Wire.encode (← response))), c)

theorem receive_encode {s : Service} {now : Readings} {r : Request} {c : Catalog}
    (h : (Wire.encode r).length < UInt64.size) :
    s.receive now (Wire.encode r) c = (.ok (s.respond now r c), (s.execute now r c).2) := by
  rw [receive, Wire.decode_encode h]

/-- When request and response get across, the client is answered out of the response. -/
theorem exchange_of_fits {s : Service} {now : Readings} {client : Client} {call : Call}
    {c : Catalog} (hrequest : (Wire.encode (client.requestOf call)).length < UInt64.size)
    (hresponse : (Wire.encode (s.respond now (client.requestOf call) c)).length < UInt64.size) :
    s.exchange now client call c =
      (call.answer (s.respond now (client.requestOf call) c),
        (s.execute now (client.requestOf call) c).2) := by
  rw [exchange, receive_encode hrequest]
  refine Prod.ext ?_ rfl
  show (Call.read _ >>= call.answer) = _
  rw [Call.read_encode hresponse]
  rfl

/-- On a target that is found, the work for a call does what the call on the table itself does. -/
theorem run_work_direct {c : Catalog} {target : TableName} {t : TableRef} {table : Table}
    (hfind : c.find target = .ok t) (htable : c.table? t = some table) (call : TableCall) :
    (Plan.onTarget call.work).run target c =
      ((call.work table).1, (c.onTable t call.direct).2) := by
  rw [Plan.run, Catalog.onTarget, hfind]
  simp only [Catalog.onTable, htable, call.work_snd]

/-- **The wire makes no difference.** Whatever the catalog and the target that is found in it, and
whatever the call: the client is answered what the table itself answers, failures with their kind
and message included, and the catalog becomes what the call on the table itself makes of it. In the
request no filter is no bytes, and a filter is its encoding, which is never empty. -/
theorem exchange_eq_direct {client : Client} (hclient : client.Reached) (lenient : Bool)
    (now : Readings) (call : TableCall) {c : Catalog} {target : TableName} {t : TableRef}
    {table : Table} (hfind : c.find target = .ok t) (htable : c.table? t = some table)
    (hrequest : (Wire.encode (client.requestOf (call.on target))).length < UInt64.size)
    (hresponse : (Wire.encode ((standard lenient).respond now
      (client.requestOf (call.on target)) c)).length < UInt64.size) :
    (standard lenient).exchange now client (call.on target) c =
        ((call.direct table).1, (c.onTable t call.direct).2) ∧
      client.requestOf (call.on target) =
        ⟨client.nextId, target, call.operation, call.payload⟩ ∧
      ∀ f : Filter, filterPayload (some f) ≠ [] := by
  have hrequestOf := call.requestOf_on hclient target
  refine ⟨?_, hrequestOf, fun f => Wire.write_ne_nil f⟩
  rw [exchange_of_fits hrequest hresponse]
  have hpayload := (client.requestOf (call.on target)).length_payload_le
  rw [hrequestOf] at hpayload hrequest hresponse ⊢
  -- the service finds the argument in the request, and does what the table itself would do
  have hrun : (standard lenient).execute now
      ⟨client.nextId, target, call.operation, call.payload⟩ c =
        ((call.work table).1, (c.onTable t call.direct).2) := by
    rw [execute_eq_run, plan_payload _ now _ target (Operation.mem_all _)
      (Nat.lt_of_le_of_lt hpayload hrequest)]
    exact run_work_direct hfind htable call
  -- the client finds the outcome in the response, and in that what the table answered
  have houtcome : ((standard lenient).respond now
      ⟨client.nextId, target, call.operation, call.payload⟩ c).outcome = (call.work table).1 := by
    rw [respond, hrun, Response.outcome_ofOutcome]
  have hanswer := call.answer_work target table houtcome fun bytes hbytes =>
    Nat.lt_of_le_of_lt (Response.length_outcome_le hbytes) hresponse
  rw [hanswer, hrun]

/-- Two orders, the second without its key cell. -/
def twoOrders : TableCall :=
  .saveBatch [⟨.single (.int 1), .ofList [("id", .int 1)]⟩, ⟨.single (.int 2), ∅⟩]

/-- The first order is saved and the second refused, and so the client is told. -/
theorem exchange_twoOrders :
    let client := ((Client.create 64).send (.query ⟨"shop", "orders"⟩ none)).2
    let table : Table := ⟨"orders", [⟨"id", true, .int⟩, ⟨"status", false, .str⟩], default, ∅⟩
    ((standard false).exchange default client (twoOrders.on ⟨"shop", "orders"⟩) shop =
        ((twoOrders.direct table).1, (shop.onTable ⟨0⟩ twoOrders.direct).2) ∧
      client.requestOf (twoOrders.on ⟨"shop", "orders"⟩) =
        ⟨client.nextId, ⟨"shop", "orders"⟩, twoOrders.operation, twoOrders.payload⟩ ∧
      ∀ f : Filter, filterPayload (some f) ≠ []) ∧
    (twoOrders.direct table).1 = .ok (.outcomes [.ok (.single (.int 1)),
      .error ⟨.validation, "table `orders`: primary-key column `id` missing or null"⟩]) :=
  ⟨exchange_eq_direct (.send (.create 64) _) false default twoOrders rfl rfl
    (by decide +kernel) (by decide +kernel), rfl⟩

end Service
end KeyedRows
