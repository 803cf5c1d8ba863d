/-
# Requests one after another

A run of a service is a list of requests, each carried out on the catalog that
the one before it left. Anything that one request keeps is kept by every run
(`after_induction`). Here it is used for the form of the catalog: however
requests arrive, and whatever bytes they carry, every catalog that is reached
from the empty one is well formed.

Main statement: `wellFormed_after`.
-/

import KeyedRows.Proofs.Catalog.WellFormed
import KeyedRows.Proofs.Service.Plan

namespace KeyedRows

/-- A request with the service that takes it and the readings of that moment. -/
structure Arrival where
  service : Service
  now : Readings
  request : Request

namespace Catalog

/-- The catalog after requests, one after another. -/
def after (c : Catalog) : List Arrival → Catalog
  | [] => c
  | a :: as => (a.service.execute a.now a.request c).2.after as

/-- What every request keeps, every run keeps. -/
theorem after_induction {P : Catalog → Prop}
    (hstep : ∀ (s : Service) (now : Readings) (r : Request) (c : Catalog),
      P c → P (s.execute now r c).2)
    {c : Catalog} (hc : P c) (as : List Arrival) : P (c.after as) := by
  induction as generalizing c with
  | nil => exact hc
  | cons a as ih => exact ih (hstep a.service a.now a.request c hc)

namespace WellFormed
variable {c : Catalog}

/-- Whatever a plan does, its effect is that of operations which keep the catalog well formed. -/
theorem effect (h : c.WellFormed) {p : Service.Plan} (hp : p.IsSound) (target : TableName) :
    (p.effect target c).WellFormed := by
  cases p with
  | refuse | answer => exact h
  | onTarget work =>
    obtain ⟨a, hw⟩ := hp
    simp only [Service.Plan.effect]
    cases c.find target with
    | error fault => exact h
    | ok t =>
      refine h.onTable t fun table htable => ?_
      rw [hw.after table]
      exact ⟨htable.act a, congrArg Prod.fst (table.declaration_act a)⟩
  | createDatabase => exact h.createDatabase target.database
  | createTable columns =>
    simp only [Service.Plan.effect]
    cases c.findDatabase target.database with
    | error fault => exact h
    | ok d => exact h.createTable d target.table columns
  | dropTable =>
    simp only [Service.Plan.effect]
    cases c.findDatabase target.database with
    | error fault => exact h
    | ok d => exact h.dropTable d target.table

/-- **Every request keeps the catalog well formed.** -/
theorem execute (h : c.WellFormed) (s : Service) (now : Readings) (r : Request) :
    (s.execute now r c).2.WellFormed := by
  rw [Service.execute_eq_run, Service.Plan.run_effect]
  exact h.effect (s.plan_isSound now r) r.target

end WellFormed

/-- **Every catalog that requests lead to is well formed.** Whatever requests arrive at an empty
catalog, in whatever order and with whatever payloads: no name is empty, a name leads to what
carries it, the columns of a table are named and distinct, its primary key is the list of its key
columns in the order of their declaration and is not empty, its rows are in strictly ascending order
of their keys, and a key has one part for each key column, none of them null. -/
theorem wellFormed_after (limits : ScanLimits) (as : List Arrival) :
    let c := (empty limits).after as
    (∀ name d, c.findDatabase name = .ok d →
      name ≠ "" ∧ ∃ db, c.database? d = some db ∧ db.name = name) ∧
    (∀ d name t, c.tableIn? d name = some t →
      name ≠ "" ∧ ∃ table, c.table? t = some table ∧ table.name = name) ∧
    ∀ table ∈ c.tables,
      table.name ≠ "" ∧ (∀ column ∈ table.columns, column.name ≠ "") ∧
      (table.columns.map (·.name)).Nodup ∧
      table.primaryKey ≠ [] ∧
      table.primaryKey = (table.columns.filter (·.isKey)).map (·.name) ∧
      (table.rows.keys.Pairwise fun a b => compare a b = .lt) ∧
      table.rows.keys.Nodup ∧ table.size = table.rows.keys.length ∧
      ∀ id ∈ table.rows.keys,
        Value.null ∉ id.parts ∧ id.parts.length = table.primaryKey.length := by
  intro c
  have h : c.WellFormed :=
    after_induction (fun s now r c hc => hc.execute s now r) (wellFormed_empty limits) as
  refine ⟨fun name d hd => h.of_findDatabase hd, fun d name t ht => ?_, fun table htable => ?_⟩
  · obtain ⟨table, htable, hname, hwell⟩ := h.of_tableIn? ht
    exact ⟨hname ▸ hwell.named, table, htable, hname⟩
  · have hwell := h.tables_wellFormed table htable
    exact ⟨hwell.named, hwell.columns_named, hwell.columns_distinct, hwell.keyed, rfl,
      table.rows.keys_ascending, table.rows.keys_nodup, table.rows.size_eq_length_keys, hwell.fits⟩

end Catalog
end KeyedRows
