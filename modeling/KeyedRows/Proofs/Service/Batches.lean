/-
# A batch of rows is its saves in order

Rows can be sent to a table one request at a time or all in one request. The two
go different ways: a request for one row answers with the key or fails, a batch
answers with a list that holds, for each row, the key or the failure. Still they
do the same. Both decode their rows before they look at the catalog, both reach
the table that the names lead to, and there a batch is by definition one save
after another; in between, the catalog only ever differs in that table (`put`).

If the names lead to no table, the batch and each of the requests fail alike and
nothing changes.

Main statement: `batch_eq_saves`.
-/

import KeyedRows.Proofs.Service.Isolation
import KeyedRows.Proofs.Service.Runs
import KeyedRows.Proofs.Table.Batches
import KeyedRows.Proofs.Wire.Messages

namespace KeyedRows

/-! ### Requests that carry data -/

namespace Arrival

/-- The answer to a request. -/
def answer (a : Arrival) (c : Catalog) : Except Failure Bytes :=
  (a.service.execute a.now a.request c).1

/-- A service is asked for an operation that it serves, with a payload that decodes to the given
data. -/
structure Carries {α : Type} [Wire α] (a : Arrival) (operation : Operation) (target : TableName)
    (x : α) : Prop where
  served : operation ∈ a.service.operations
  operation_eq : a.request.operation = operation
  target_eq : a.request.target = target
  decoded : Wire.decode a.request.payload = .ok x

/-- A request that encodes its data carries it. -/
theorem carries_encode {α : Type} [Wire α] [Wire.Lawful α] {s : Service} {operation : Operation}
    (hserved : operation ∈ s.operations) (now : Readings) (id : UInt64) (target : TableName)
    {x : α} (hsize : (Wire.encode x).length < UInt64.size) :
    Carries ⟨s, now, ⟨id, target, operation, Wire.encode x⟩⟩ operation target x :=
  ⟨hserved, rfl, rfl, Wire.decode_encode hsize⟩

end Arrival

namespace Catalog

/-- The answers to requests, one after another. -/
def answers (c : Catalog) : List Arrival → List (Except Failure Bytes)
  | [] => []
  | a :: as => a.answer c :: (a.service.execute a.now a.request c).2.answers as

/-! ### Work on the target -/

/-- The catalog with another table in the place that a reference stands for. -/
def put (c : Catalog) (t : TableRef) (table : Table) : Catalog :=
  { c with tables := c.tables.set t.place table }

section Put
variable {c : Catalog} {t : TableRef} {target : TableName} {table : Table}

theorem put_self (h : c.table? t = some table) : c.put t table = c := by
  obtain ⟨hlt, hget⟩ := List.getElem?_eq_some_iff.1 h
  rw [put, ← hget, List.set_getElem_self]

theorem put_put (c : Catalog) (t : TableRef) (table table' : Table) :
    (c.put t table).put t table' = c.put t table' := by
  simp only [put, List.set_set]

theorem table?_put (h : c.table? t = some table) (table' : Table) :
    (c.put t table').table? t = some table' := by
  obtain ⟨hlt, -⟩ := List.getElem?_eq_some_iff.1 h
  exact List.getElem?_set_self hlt

/-- Putting a table changes no name. -/
theorem find_put (c : Catalog) (t : TableRef) (table : Table) (target : TableName) :
    (c.put t table).find target = c.find target := rfl

/-- Either all work on the target fails in one way, or the target is there and worked on. -/
theorem onTarget_cases (c : Catalog) (target : TableName) :
    (c.tableAt? target = none ∧
      ∃ failure, ∀ work, c.onTarget target work = (.error failure, c)) ∨
    ∃ t table, c.find target = .ok t ∧ c.table? t = some table ∧
      c.tableAt? target = some table := by
  cases hfind : c.find target with
  | error fault =>
    refine .inl ⟨tableAt?_of_not_find fun t ht => ?_, fault.failure, fun work => ?_⟩
    · rw [hfind] at ht
      contradiction
    · rw [onTarget, hfind]
  | ok t =>
    rw [tableAt?_of_find hfind]
    cases htable : c.table? t with
    | none =>
      refine .inl ⟨rfl, ⟨.internal, "no such table"⟩, fun work => ?_⟩
      simp only [onTarget, hfind, onTable, htable]
    | some table => exact .inr ⟨t, table, rfl, htable, rfl⟩

theorem onTarget_of_find (hfind : c.find target = .ok t) (htable : c.table? t = some table)
    (work : TableWork) :
    c.onTarget target work = ((work table).1, c.put t (work table).2) := by
  simp only [onTarget, hfind, onTable, htable, put]

end Put

end Catalog

/-! ### One request -/

namespace Arrival
variable {a : Arrival} {target : TableName} {row : Row} {rows : List Row}

theorem execute_save (h : a.Carries .save target row) (c : Catalog) :
    a.service.execute a.now a.request c = c.onTarget target (.save row) := by
  rw [Service.execute_eq_run, Service.plan, h.operation_eq, if_pos h.served]
  simp only [Service.decoding, h.decoded, Service.Plan.run, h.target_eq]

theorem execute_saveBatch (h : a.Carries .saveBatch target rows) (c : Catalog) :
    a.service.execute a.now a.request c = c.onTarget target (.saveAll rows) := by
  rw [Service.execute_eq_run, Service.plan, h.operation_eq, if_pos h.served]
  simp only [Service.decoding, h.decoded, Service.Plan.run, h.target_eq]

end Arrival

/-! ### Requests one after another -/

namespace Catalog
variable {c : Catalog} {target : TableName} {rows : List Row} {saves : List Arrival}

/-- **Saves in order come to what the table makes of all their rows.** -/
theorem after_saves {t : TableRef} (hfind : c.find target = .ok t) {table : Table}
    (htable : c.table? t = some table)
    (hsaves : List.Forall₂ (fun a row => a.Carries .save target row) saves rows) :
    c.after saves = c.put t (table.saveAll rows).2 ∧
      c.answers saves = rows.map fun row => (table.outcome row).map Wire.encode := by
  induction hsaves generalizing c table with
  | nil => exact ⟨(put_self htable).symm, rfl⟩
  | @cons a row as rows ha _ ih =>
    have hrun := (Arrival.execute_save ha c).trans (onTarget_of_find hfind htable _)
    -- the next request finds the same place, with the table that this one left there
    obtain ⟨hafter, hanswers⟩ := ih ((find_put c t _ target).trans hfind)
      (table?_put htable (table.save row).2)
    rw [put_put] at hafter
    rw [Table.outcome_congr (table.declaration_save row)] at hanswers
    rw [after, answers, Arrival.answer, hrun]
    exact ⟨hafter, congrArg _ hanswers⟩

/-- Where all work on the target fails, so does every save, and nothing changes. -/
theorem after_saves_of_error {failure : Failure}
    (h : ∀ work, c.onTarget target work = (.error failure, c))
    (hsaves : List.Forall₂ (fun a row => a.Carries .save target row) saves rows) :
    c.after saves = c ∧ c.answers saves = rows.map fun _ => .error failure := by
  induction hsaves with
  | nil => exact ⟨rfl, rfl⟩
  | @cons a row as rows ha _ ih =>
    have hrun := (Arrival.execute_save ha c).trans (h _)
    rw [after, answers, Arrival.answer, hrun]
    exact ⟨ih.1, congrArg _ ih.2⟩

/-- **A batch of rows is the saves of its rows in order.** Whatever the catalog holds, a request
with a list of rows leaves the catalog that the requests with one row each leave. If the names lead
to no table, the batch and every single request fail alike and nothing changes.

Otherwise the batch answers with one outcome per row, in their order, which is what the request for
the row alone is answered. A row is saved, under its own key, exactly if the key has parts, none of
them null and as many as the primary key has columns, and each of these columns has a cell that is
not null. The table is left as the accepted rows alone would leave it, and it has grown by the
number of their distinct keys that had no row before. -/
theorem batch_eq_saves {batch : Arrival} (hbatch : batch.Carries .saveBatch target rows)
    (hsaves : List.Forall₂ (fun a row => a.Carries .save target row) saves rows) (c : Catalog) :
    c.after [batch] = c.after saves ∧
    (c.tableAt? target = none →
      ∃ failure, batch.answer c = .error failure ∧
        (c.answers saves = rows.map fun _ => .error failure) ∧ c.after saves = c) ∧
    ∀ table, c.tableAt? target = some table →
      batch.answer c = .ok (Wire.encode (rows.map table.outcome)) ∧
      (c.answers saves = rows.map fun row => (table.outcome row).map Wire.encode) ∧
      (∀ row id, table.outcome row = .ok id ↔ id = row.id ∧ table.Accepts row) ∧
      ∃ left, (c.after saves).tableAt? target = some left ∧
        left = (table.saveAll (table.accepted rows)).2 ∧
        left.size = table.size +
          (table.acceptedKeys rows \ table.rows.keys.toFinset).card := by
  have hafter : c.after [batch] = (c.onTarget target (.saveAll rows)).2 :=
    congrArg Prod.snd (Arrival.execute_saveBatch hbatch c)
  have hanswer : batch.answer c = (c.onTarget target (.saveAll rows)).1 :=
    congrArg Prod.fst (Arrival.execute_saveBatch hbatch c)
  rw [hafter, hanswer]
  obtain ⟨hnone, failure, hfails⟩ | ⟨t, table, hfind, htable, hat⟩ := c.onTarget_cases target
  · obtain ⟨hsame, hanswers⟩ := after_saves_of_error hfails hsaves
    rw [hfails, hsame]
    refine ⟨rfl, fun _ => ⟨failure, rfl, hanswers, rfl⟩, fun table htable => ?_⟩
    rw [hnone] at htable
    contradiction
  · obtain ⟨hput, hanswers⟩ := after_saves hfind htable hsaves
    have hleft : (c.after saves).tableAt? target = some (table.saveAll rows).2 := by
      rw [hput, tableAt?_of_find ((find_put c t _ target).trans hfind), table?_put htable]
    have houtcomes : (TableWork.saveAll rows table).1 =
        .ok (Wire.encode (rows.map table.outcome)) := by
      rw [TableWork.saveAll, table.outcomes_saveAll, List.map_map]
      rfl
    rw [onTarget_of_find hfind htable, hput]
    refine ⟨rfl, fun hnone => ?_, fun table' htable' => ?_⟩
    · rw [hat] at hnone
      contradiction
    · obtain rfl : table = table' := Option.some.inj (hat.symm.trans htable')
      rw [← hput]
      exact ⟨houtcomes, hanswers, fun row id => Table.outcome_eq_ok_iff, _, hleft,
        (Table.saveAll_accepted rfl rows).symm, table.size_saveAll rows⟩

/-- An order that is new, one without its key cell, and the first one again, now paid. -/
def threeOrders : List Row :=
  [⟨.single (.int 1), OrderedMap.ofList [("id", .int 1)]⟩, ⟨.single (.int 2), ∅⟩,
    ⟨.single (.int 1), OrderedMap.ofList [("id", .int 1), ("status", .str "paid")]⟩]

/-- A request to the orders of a shop. -/
def ordersRequest (operation : Operation) (payload : Bytes) : Arrival :=
  ⟨.standard true, default, ⟨7, ⟨"shop", "orders"⟩, operation, payload⟩⟩

/-- The order without its key cell is refused, at its place in the batch, and the other two leave
one row. -/
theorem batch_threeOrders :
    let batch := ordersRequest .saveBatch (Wire.encode threeOrders)
    let saves := threeOrders.map fun row => ordersRequest .save (Wire.encode row)
    let target : TableName := ⟨"shop", "orders"⟩
    batch.Carries .saveBatch target threeOrders ∧
      List.Forall₂ (fun a row => a.Carries .save target row) saves threeOrders ∧
      Service.shop.after [batch] = Service.shop.after saves ∧
      (batch.answer Service.shop = .ok (Wire.encode
        ([.ok (.single (.int 1)),
          .error ⟨.validation, "table `orders`: primary-key column `id` missing or null"⟩,
          .ok (.single (.int 1))] : List (Except Failure RowId)))) ∧
      ∃ left, (Service.shop.after saves).tableAt? target = some left ∧ left.size = 1 := by
  intro batch saves target
  have hbatch : batch.Carries .saveBatch target threeOrders :=
    Arrival.carries_encode (by decide) default 7 target (by decide +kernel)
  have hsaves : List.Forall₂ (fun a row => a.Carries .save target row) saves threeOrders := by
    refine .cons ?_ (.cons ?_ (.cons ?_ .nil))
    all_goals exact Arrival.carries_encode (by decide) default 7 target (by decide)
  obtain ⟨hsame, -, hfound⟩ := batch_eq_saves hbatch hsaves Service.shop
  have hat : Service.shop.tableAt? target =
      some ⟨"orders", [⟨"id", true, .int⟩, ⟨"status", false, .str⟩], default, ∅⟩ := by decide
  obtain ⟨hanswer, -, -, left, hleft, -, hsize⟩ := hfound _ hat
  refine ⟨hbatch, hsaves, hsame, hanswer, left, hleft, hsize.trans ?_⟩
  decide

end Catalog
end KeyedRows
