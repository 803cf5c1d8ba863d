/-
# A failed request changes nothing

A request can fail at many points: its payload or the filter in it may not
decode, its database or table may not be there, a row, a declaration or a name
may be refused, a sum may overflow, there may be nothing to drop. Every one of
them comes before the first change. For an operation on a table this is a fact
about the table (`TableWork.Does.refused`); each operation on the names changes
them only when it succeeds.

Main statement: `execute_error`.
-/

import KeyedRows.Proofs.Service.Plan

namespace KeyedRows
namespace Catalog

/-! ### Refused operations on the catalog -/

/-- An operation that leaves its table as it is leaves the catalog as it is. -/
theorem onTable_of_same {α : Type} {c : Catalog} {t : TableRef} {f : Table → α × Table}
    (h : ∀ table, c.table? t = some table → (f table).2 = table) : (c.onTable t f).2 = c := by
  rw [onTable]
  cases ht : c.table? t with
  | none => rfl
  | some table =>
    have hset : c.tables.set t.place (f table).2 = c.tables := by
      obtain ⟨hlt, hget⟩ := List.getElem?_eq_some_iff.1 ht
      rw [h table ht, ← hget, List.set_getElem_self]
    show ({ c with tables := c.tables.set t.place (f table).2 } : Catalog) = c
    rw [hset]

theorem createDatabase_error {c : Catalog} {name : String} {fault : CatalogFault}
    (h : (c.createDatabase name).1 = .error fault) : (c.createDatabase name).2 = c := by
  unfold createDatabase at h ⊢
  by_cases hn : name.isEmpty = true
  · rw [if_pos hn]
  · rw [if_neg hn] at h ⊢
    cases hd : c.names.get? name <;> simp [hd] at h

theorem createTable_error {c : Catalog} {d : DatabaseRef} {name : String} {columns : List Column}
    {fault : CatalogFault} (h : (c.createTable d name columns).1 = .error fault) :
    (c.createTable d name columns).2 = c := by
  unfold createTable at h ⊢
  cases ht : c.tableIn? d name with
  | some t => simp [ht] at h
  | none =>
    cases hc : Table.create name columns c.limits with
    | error fault => rfl
    | ok table => simp [ht, hc] at h

/-- Taking away a name that is not there changes nothing. -/
theorem dropTable_none {c : Catalog} {d : DatabaseRef} {name : String}
    (h : (c.dropTable d name).1 = none) : (c.dropTable d name).2 = c := by
  have hsame : c.databases.modify d.place
      (fun db => { db with tables := db.tables.erase name }) = c.databases := by
    apply List.ext_getElem?
    intro i
    rw [List.getElem?_modify]
    -- only the database that the reference stands for could lose the name
    by_cases hi : d.place = i
    · subst hi
      cases hdb : c.databases[d.place]? with
      | none => rfl
      | some db =>
        have habsent : db.tables.get? name = none := by
          simpa [dropTable, tableIn?, database?, hdb] using h
        have herase : db.tables.erase name = db.tables := by
          apply OrderedMap.ext_get?
          intro k
          rw [OrderedMap.get?_erase]
          by_cases hk : k = name
          · rw [if_pos hk, hk, habsent]
          · rw [if_neg hk]
        simp [herase]
    · simp [hi]
  show ({ c with databases := c.databases.modify d.place _ } : Catalog) = c
  rw [hsame]

end Catalog

namespace Service

/-- What is refused when its failure is worded is refused before. -/
private theorem error_of_worded {α : Type} {result : Except CatalogFault α} {f : Failure}
    (h : ((result.mapError CatalogFault.failure).map fun _ => ([] : Bytes)) = .error f) :
    ∃ fault, result = .error fault := by
  cases result with
  | error fault => exact ⟨fault, rfl⟩
  | ok => contradiction

/-- A plan that ends in a failure has no effect. -/
theorem Plan.effect_of_error {p : Plan} (hp : p.IsSound) {target : TableName} {c : Catalog}
    {f : Failure} (h : (p.run target c).1 = .error f) : p.effect target c = c := by
  cases p with
  | refuse | answer => rfl
  | onTarget work =>
    obtain ⟨a, hw⟩ := hp
    simp only [run, Catalog.onTarget] at h
    simp only [effect]
    cases hfind : c.find target with
    | error fault => rfl
    | ok t =>
      -- a refusal by the table leaves the table as it is, so it is put back unchanged
      refine Catalog.onTable_of_same fun table ht => ?_
      simp only [hfind, Catalog.onTable, ht] at h
      exact hw.refused table f h
  | createDatabase =>
    obtain ⟨fault, hc⟩ := error_of_worded h
    exact Catalog.createDatabase_error hc
  | createTable columns =>
    simp only [run] at h
    simp only [effect]
    cases hd : c.findDatabase target.database with
    | error fault => rfl
    | ok d =>
      simp only [hd] at h
      obtain ⟨fault, hc⟩ := error_of_worded h
      exact Catalog.createTable_error hc
  | dropTable =>
    simp only [run] at h
    simp only [effect]
    cases hd : c.findDatabase target.database with
    | error fault => rfl
    | ok d =>
      simp only [hd] at h
      refine Catalog.dropTable_none ?_
      rcases hdrop : c.dropTable d target.table with ⟨_ | t, c'⟩
      · rfl
      · simp [hdrop] at h

/-- **A failed request leaves the catalog as it was.** Whatever a service serves, whether or not it
is lenient, and whatever the request holds: if the outcome is a failure then every name, every
declaration and every row is the same as before. -/
theorem execute_error {s : Service} {now : Readings} {r : Request} {c : Catalog} {f : Failure}
    (h : (s.execute now r c).1 = .error f) : (s.execute now r c).2 = c := by
  rw [execute_eq_run] at h ⊢
  rw [Plan.run_effect]
  exact Plan.effect_of_error (s.plan_isSound now r) h

/-- A shop with one table of orders. -/
def shop : Catalog :=
  ⟨OrderedMap.ofList [("shop", ⟨0⟩)], [⟨"shop", OrderedMap.ofList [("orders", ⟨0⟩)]⟩],
    [⟨"orders", [⟨"id", true, .int⟩, ⟨"status", false, .str⟩], default, ∅⟩], default⟩

/-- An order without its key cell. -/
def keylessOrder : Request :=
  ⟨7, ⟨"shop", "orders"⟩, .save, Wire.encode (⟨.single (.int 1), ∅⟩ : Row)⟩

/-- The order is refused by its table, and the shop is as before. -/
theorem execute_keylessOrder :
    ((standard true).execute default keylessOrder shop).1 =
        .error ⟨.validation, "table `orders`: primary-key column `id` missing or null"⟩ ∧
      ((standard true).execute default keylessOrder shop).2 = shop := by
  have hrefused : ((standard true).execute default keylessOrder shop).1 =
      .error ⟨.validation, "table `orders`: primary-key column `id` missing or null"⟩ := rfl
  exact ⟨hrefused, execute_error hrefused⟩

end Service
end KeyedRows
