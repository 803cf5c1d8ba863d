/-
# A request touches its target alone

A request names one table, or one database. Whatever else the catalog holds stays
as it is: the tables that other names lead to, in the same database and in
others, and the tables that no name leads to any more (`AgreesOutside`). What may
happen to the target depends on the operation (`Operation.Permits`): databases
and tables are created empty and only under free names, dropping takes one name
away, work on the rows keeps the declaration, and reading changes nothing.

The first half is shown for each effect of a plan at the level of references,
and carried over to names by `Reached.find_injective`.

Main statement: `execute_isolated`.
-/

import KeyedRows.Proofs.Catalog.Reached
import KeyedRows.Proofs.Service.Atomicity

namespace KeyedRows
namespace Catalog

/-! ### Tables by name -/

/-- The table that the names lead to. -/
def tableAt? (c : Catalog) (name : TableName) : Option Table :=
  (c.find name).toOption.bind c.table?

section TableAt
variable {c : Catalog} {name : TableName}

theorem tableAt?_of_find {t : TableRef} (h : c.find name = .ok t) :
    c.tableAt? name = c.table? t := by
  rw [tableAt?, h]
  rfl

theorem tableAt?_of_not_find (h : ∀ t, c.find name ≠ .ok t) : c.tableAt? name = none := by
  rw [tableAt?]
  cases hfind : c.find name with
  | error fault => rfl
  | ok t => exact absurd hfind (h t)

end TableAt

/-! ### Outside the target -/

/-- Everything but the target is the same in both catalogs. -/
structure AgreesOutside (target : TableName) (c c' : Catalog) : Prop where
  /-- Other names lead to the same tables, with the same declarations and rows. -/
  tables : ∀ name ≠ target, c'.tableAt? name = c.tableAt? name
  /-- Tables that are held by reference stay as they are, also out of reach of every name. -/
  held : ∀ t table, c.find target ≠ .ok t → c.table? t = some table → c'.table? t = some table
  /-- There are no other databases more, and none less. -/
  databases : ∀ name ≠ target.database, (name ∈ c'.databaseNames ↔ name ∈ c.databaseNames)
  /-- Tables are created with the same limits. -/
  limits : c'.limits = c.limits

namespace AgreesOutside
variable {c c' : Catalog} {target : TableName}

theorem refl (target : TableName) (c : Catalog) : c.AgreesOutside target c :=
  ⟨fun _ _ => rfl, fun _ _ _ h => h, fun _ _ => Iff.rfl, rfl⟩

/-- Names that lead to the same references lead to the same tables, because none of these is the
target. -/
theorem of_find (hc : c.Reached)
    (hfind : ∀ name ≠ target, ∀ t, c'.find name = .ok t ↔ c.find name = .ok t)
    (hheld : ∀ t table, c.find target ≠ .ok t → c.table? t = some table → c'.table? t = some table)
    (hdatabases : ∀ name ≠ target.database, (name ∈ c'.databaseNames ↔ name ∈ c.databaseNames))
    (hlimits : c'.limits = c.limits) : c.AgreesOutside target c' := by
  refine ⟨fun name hname => ?_, hheld, hdatabases, hlimits⟩
  by_cases hfound : ∃ t, c.find name = .ok t
  · obtain ⟨t, ht⟩ := hfound
    obtain ⟨d, -, hin⟩ := find_eq_ok_iff.1 ht
    obtain ⟨table, htable, -⟩ := hc.wellFormed.of_tableIn? hin
    have hother : c.find target ≠ .ok t := fun h => hname (hc.find_injective ht h)
    rw [tableAt?_of_find ((hfind name hname t).2 ht), tableAt?_of_find ht, htable]
    exact hheld t table hother htable
  · have hnone : ∀ t, c.find name ≠ .ok t := fun t ht => hfound ⟨t, ht⟩
    rw [tableAt?_of_not_find hnone,
      tableAt?_of_not_find fun t ht => hnone t ((hfind name hname t).1 ht)]

/-- Work on the target table. -/
theorem onTable (hc : c.Reached) {t : TableRef} (ht : c.find target = .ok t) {α : Type}
    (f : Table → α × Table) : c.AgreesOutside target (c.onTable t f).2 := by
  refine of_find hc (fun name _ u => by rw [find_onTable]) (fun u table hu htable => ?_)
    (fun name _ => by rw [databaseNames, databaseNames, names_onTable]) (c.limits_onTable t f)
  have hne : u ≠ t := fun h => hu (h ▸ ht)
  rw [table?_onTable, if_neg hne, htable]

/-- A new database, which holds no table. -/
theorem addDatabase (hc : c.Reached) (hfree : c.names.get? target.database = none) :
    c.AgreesOutside target (c.addDatabase target.database) := by
  refine of_find hc (fun name _ t => ?_) (fun _ _ _ h => h) (fun name hname => ?_) rfl
  · rw [find_eq_ok_iff, find_eq_ok_iff]
    simp only [tableIn?_addDatabase, findDatabase_addDatabase]
    by_cases hnew : name.database = target.database
    · rw [hnew, if_pos rfl]
      have hnone : c.tableIn? ⟨c.databases.length⟩ name.table = none := by
        rw [tableIn?, database?, List.getElem?_eq_none (Nat.le_refl _)]
        rfl
      simp [hnone, findDatabase_eq_ok_iff, hfree]
    · rw [if_neg hnew]
  · rw [mem_databaseNames_iff, mem_databaseNames_iff, findDatabase_addDatabase, if_neg hname]

/-- A change to one name in the target's database leaves what other names lead to. -/
theorem of_tableIn? (hc : c.Reached) {d : DatabaseRef}
    (hd : c.findDatabase target.database = .ok d) (hnames : c'.names = c.names)
    (hin : ∀ e name, ¬ (e = d ∧ name = target.table) → c'.tableIn? e name = c.tableIn? e name)
    (hheld : ∀ t table, c.table? t = some table → c'.table? t = some table)
    (hlimits : c'.limits = c.limits) : c.AgreesOutside target c' := by
  have hfound : ∀ name, c'.findDatabase name = c.findDatabase name := fun name => by
    rw [findDatabase, findDatabase, hnames]
  refine of_find hc (fun name hname t => ?_) (fun t table _ h => hheld t table h)
    (fun name _ => by rw [mem_databaseNames_iff, mem_databaseNames_iff, hfound]) hlimits
  rw [find_eq_ok_iff, find_eq_ok_iff, hfound]
  refine exists_congr fun e => and_congr_right fun he => ?_
  rw [hin]
  -- the database carries the name under which it was found, so the target is the only table there
  rintro ⟨rfl, htable⟩
  obtain ⟨-, db, hdb, hdbName⟩ := hc.wellFormed.of_findDatabase hd
  obtain ⟨-, db', hdb', hdbName'⟩ := hc.wellFormed.of_findDatabase he
  rw [hdb, Option.some.injEq] at hdb'
  subst hdb'
  cases name; cases target
  simp_all

theorem addTable (hc : c.Reached) {d : DatabaseRef} (hd : c.findDatabase target.database = .ok d)
    {table : Table} (hname : table.name = target.table) :
    c.AgreesOutside target (c.addTable d table) := by
  refine of_tableIn? hc hd rfl (fun e name hne => ?_) (fun t old hold => ?_) rfl
  · rw [tableIn?_addTable, hname, if_neg hne]
  · obtain ⟨hlt, -⟩ := List.getElem?_eq_some_iff.1 hold
    rw [table?_addTable, if_neg (by omega), hold]

theorem dropTable (hc : c.Reached) {d : DatabaseRef}
    (hd : c.findDatabase target.database = .ok d) :
    c.AgreesOutside target (c.dropTable d target.table).2 :=
  of_tableIn? hc hd rfl (fun e name hne => by rw [tableIn?_dropTable, if_neg hne])
    (fun _ _ h => h) rfl

end AgreesOutside
end Catalog

namespace Service
variable {c : Catalog}

/-- Nothing that a plan does reaches beyond its target. -/
theorem Plan.effect_agreesOutside (hc : c.Reached) (p : Plan) (target : TableName) :
    c.AgreesOutside target (p.effect target c) := by
  cases p with
  | refuse | answer => exact .refl target c
  | onTarget work =>
    simp only [effect]
    cases hfind : c.find target with
    | error fault => exact .refl target c
    | ok t => exact .onTable hc hfind work
  | createDatabase =>
    simp only [effect]
    rcases c.createDatabase_cases target.database with h | ⟨hfree, h⟩ <;> rw [h]
    · exact .refl target c
    · exact .addDatabase hc hfree
  | createTable columns =>
    simp only [effect]
    cases hd : c.findDatabase target.database with
    | error fault => exact .refl target c
    | ok d =>
      rcases c.createTable_cases d target.table columns with h | ⟨-, h⟩ <;> simp only [h]
      · exact .refl target c
      · exact .addTable hc hd rfl
  | dropTable =>
    simp only [effect]
    cases hd : c.findDatabase target.database with
    | error fault => exact .refl target c
    | ok d => exact .dropTable hc hd

end Service

/-! ### The target -/

/-- The changes that an operation may make to its target. -/
def Operation.Permits (target : TableName) (payload : Bytes) (c c' : Catalog) : Operation → Prop
  /- At most one database more, of the target's name and without tables. -/
  | createDatabase =>
    c' = c ∨
      target.database ∉ c.databaseNames ∧
        (∀ name, name ∈ c'.databaseNames ↔ name = target.database ∨ name ∈ c.databaseNames) ∧
        ∃ d, c'.findDatabase target.database = .ok d ∧ c'.tableNames d = []
  /- At most one table more, under a name that was free and without rows. -/
  | createTable =>
    c'.databaseNames = c.databaseNames ∧
      (c' = c ∨
        c.tableAt? target = none ∧
          ∃ columns, Wire.decode payload = .ok columns ∧
            c'.tableAt? target = some ⟨target.table, columns, c.limits, ∅⟩)
  /- At most the target goes. -/
  | dropTable =>
    c'.databaseNames = c.databaseNames ∧ (c' = c ∨ c'.tableAt? target = none)
  /- At most the rows of the target change. -/
  | save | saveBatch | update | delete =>
    c'.databaseNames = c.databaseNames ∧
      (c'.tableAt? target).map (·.declaration) = (c.tableAt? target).map (·.declaration)
  | query | aggregate | ping | stats => c' = c

/-- No operation has to change anything. -/
theorem Operation.Permits.refl (op : Operation) (target : TableName) (payload : Bytes)
    (c : Catalog) : op.Permits target payload c c := by
  cases op with
  | createDatabase => exact .inl rfl
  | createTable | dropTable => exact ⟨rfl, .inl rfl⟩
  | save | saveBatch | update | delete => exact ⟨rfl, rfl⟩
  | query | aggregate | ping | stats => rfl

namespace Service
variable {c : Catalog} {target : TableName}

/-- Work that does what an action does keeps names and declaration. -/
theorem effect_onTarget {work : TableWork} {a : Table.Action} (hwork : work.Does a) :
    let c' := (Plan.onTarget work).effect target c
    c'.databaseNames = c.databaseNames ∧
      (c'.tableAt? target).map (·.declaration) = (c.tableAt? target).map (·.declaration) := by
  simp only [Plan.effect]
  cases hfind : c.find target with
  | error fault => exact ⟨rfl, rfl⟩
  | ok t =>
    have hfind' : (c.onTable t work).2.find target = .ok t :=
      (Catalog.find_onTable ..).trans hfind
    constructor
    · exact congrArg OrderedMap.keys (c.names_onTable t work)
    · show ((c.onTable t work).2.tableAt? target).map _ = _
      rw [Catalog.tableAt?_of_find hfind', Catalog.tableAt?_of_find hfind, Catalog.table?_onTable,
        if_pos rfl, Option.map_map]
      refine congrArg (Option.map · (c.table? t)) (funext fun table => ?_)
      show (work table).2.declaration = _
      rw [hwork.after, table.declaration_act]

/-- Work that does what a reading action does changes nothing. -/
theorem effect_onTarget_of_reads {work : TableWork} {a : Table.Action} (hwork : work.Does a)
    (hreads : a.reads = true) : (Plan.onTarget work).effect target c = c := by
  simp only [Plan.effect]
  cases c.find target with
  | error fault => rfl
  | ok t =>
    refine Catalog.onTable_of_same fun table _ => ?_
    rw [hwork.after, Table.act_of_reads hreads]

theorem permits_createDatabase (target : TableName) (payload : Bytes) (c : Catalog) :
    Operation.createDatabase.Permits target payload c (Plan.createDatabase.effect target c) := by
  simp only [Plan.effect]
  rcases c.createDatabase_cases target.database with h | ⟨hfree, h⟩ <;> rw [h]
  · exact .inl rfl
  · refine .inr ⟨fun hmem => ?_, fun name => ?_, ⟨c.databases.length⟩, ?_, ?_⟩
    · obtain ⟨d, hd⟩ := Catalog.mem_databaseNames_iff.1 hmem
      rw [Catalog.findDatabase_eq_ok_iff, hfree] at hd
      contradiction
    · rw [Catalog.mem_databaseNames_iff, Catalog.mem_databaseNames_iff,
        Catalog.findDatabase_addDatabase]
      by_cases hname : name = target.database <;> simp [hname]
    · rw [Catalog.findDatabase_addDatabase, if_pos rfl]
    · rw [Catalog.tableNames, Catalog.database?, Catalog.addDatabase, List.getElem?_concat_length]
      rfl

theorem permits_createTable (hc : c.Reached) {payload : Bytes} {columns : List Column}
    (hdecode : Wire.decode payload = .ok columns) :
    Operation.createTable.Permits target payload c
      ((Plan.createTable columns).effect target c) := by
  simp only [Plan.effect]
  cases hd : c.findDatabase target.database with
  | error fault => exact .refl ..
  | ok d =>
    rcases c.createTable_cases d target.table columns with h | ⟨hfree, h⟩ <;> simp only [h]
    · exact .refl ..
    obtain ⟨-, db, hdb, -⟩ := hc.wellFormed.of_findDatabase hd
    have hnone : ∀ t, c.find target ≠ .ok t := by
      intro t ht
      obtain ⟨e, he, hin⟩ := Catalog.find_eq_ok_iff.1 ht
      rw [hd, Except.ok.injEq] at he
      rw [← he, hfree] at hin
      contradiction
    have hnew : (c.addTable d ⟨target.table, columns, c.limits, ∅⟩).find target =
        .ok ⟨c.tables.length⟩ := by
      refine Catalog.find_eq_ok_iff.2 ⟨d, hd, ?_⟩
      rw [Catalog.tableIn?_addTable, if_pos ⟨rfl, rfl⟩, hdb]
      rfl
    refine ⟨rfl, .inr ⟨Catalog.tableAt?_of_not_find hnone, columns, hdecode, ?_⟩⟩
    rw [Catalog.tableAt?_of_find hnew, Catalog.table?_addTable, if_pos rfl]

theorem permits_dropTable (target : TableName) (payload : Bytes) (c : Catalog) :
    Operation.dropTable.Permits target payload c (Plan.dropTable.effect target c) := by
  simp only [Plan.effect]
  cases hd : c.findDatabase target.database with
  | error fault => exact .refl ..
  | ok d =>
    refine ⟨rfl, .inr (Catalog.tableAt?_of_not_find fun t ht => ?_)⟩
    obtain ⟨e, he, hin⟩ := Catalog.find_eq_ok_iff.1 ht
    have hed : d = e := Except.ok.inj (hd.symm.trans he)
    rw [Catalog.tableIn?_dropTable, if_pos ⟨hed.symm, rfl⟩] at hin
    contradiction

/-- **What a plan does to its target the operation permits.** -/
theorem permits_plan (hc : c.Reached) (s : Service) (now : Readings) (r : Request) :
    r.operation.Permits r.target r.payload c ((s.plan now r).effect r.target c) := by
  unfold plan
  by_cases hmem : r.operation ∉ s.operations
  · rw [if_neg hmem]
    exact .refl ..
  rw [if_pos (Decidable.not_not.1 hmem)]
  let Fits (op : Operation) (p : Plan) : Prop :=
    op.Permits r.target r.payload c (p.effect r.target c)
  -- a payload or filter that is refused leaves everything as it is
  have hrefuse : ∀ op f, Fits op (.refuse f) := fun op _ => .refl op ..
  cases hop : r.operation with
  | save =>
    exact decoding_induction (P := Fits .save) (hrefuse _) fun row _ =>
      effect_onTarget (TableWork.save_does row)
  | saveBatch =>
    exact decoding_induction (P := Fits .saveBatch) (hrefuse _) fun rows _ =>
      effect_onTarget (TableWork.saveAll_does rows)
  | update =>
    exact decoding_induction (P := Fits .update) (hrefuse _) fun u _ =>
      filtering_induction (P := Fits .update) (hrefuse _) fun filter =>
        effect_onTarget (TableWork.update_does filter u.patch)
  | delete =>
    exact filtering_induction (P := Fits .delete) (hrefuse _) fun filter =>
      effect_onTarget (TableWork.delete_does filter)
  | query =>
    exact filtering_induction (P := Fits .query) (hrefuse _) fun filter =>
      effect_onTarget_of_reads (TableWork.query_does filter) rfl
  | aggregate =>
    exact decoding_induction (P := Fits .aggregate) (hrefuse _) fun filter _ =>
      effect_onTarget_of_reads (TableWork.aggregate_does filter) rfl
  | createDatabase => exact permits_createDatabase ..
  | createTable =>
    exact decoding_induction (P := Fits .createTable) (hrefuse _) fun _ hdecode =>
      permits_createTable hc hdecode
  | dropTable => exact permits_dropTable ..
  | ping | stats => exact .refl ..

/-- **A request changes nothing outside its target.** Whatever catalog operations have led to, and
whatever the request holds: every other table keeps its declaration and its rows, no other database
comes or goes, and to the target itself happens at most what the operation is for. -/
theorem execute_isolated (hc : c.Reached) (lenient : Bool) (now : Readings) (r : Request) :
    let c' := ((standard lenient).execute now r c).2
    c.AgreesOutside r.target c' ∧ r.operation.Permits r.target r.payload c c' := by
  intro c'
  have heffect : c' = ((standard lenient).plan now r).effect r.target c := by
    show ((standard lenient).execute now r c).2 = _
    rw [execute_eq_run, Plan.run_effect]
  rw [heffect]
  exact ⟨Plan.effect_agreesOutside hc _ r.target, permits_plan hc _ now r⟩

/-- A shop with a table of orders and a table of customers, of one row each. -/
def market : Catalog :=
  let c := ((Catalog.empty default).createDatabase "shop").2
  let c := (c.createTable ⟨0⟩ "orders" [⟨"id", true, .int⟩]).2
  let c := (c.createTable ⟨0⟩ "customers" [⟨"name", true, .str⟩]).2
  let c := (c.onTable ⟨0⟩ (·.act (.save ⟨.single (.int 1), .ofList [("id", .int 1)]⟩))).2
  (c.onTable ⟨1⟩ (·.act (.save ⟨.single (.str "Ann"), .ofList [("name", .str "Ann")]⟩))).2

theorem reached_market : market.Reached :=
  .act (.act (.createTable (.createTable (.createDatabase (.empty _) _) _ _ _) _ _ _) _ _) _ _

/-- Deletes every order. -/
def clearOrders : Request := ⟨7, ⟨"shop", "orders"⟩, .delete, []⟩

/-- The orders go, and the customers stay. -/
theorem execute_clearOrders :
    let c' := ((standard false).execute default clearOrders market).2
    (market.AgreesOutside clearOrders.target c' ∧
      clearOrders.operation.Permits clearOrders.target clearOrders.payload market c') ∧
    (market.tableAt? ⟨"shop", "orders"⟩).map (·.size) = some 1 ∧
      (c'.tableAt? ⟨"shop", "orders"⟩).map (·.size) = some 0 ∧
      (c'.tableAt? ⟨"shop", "customers"⟩).map (·.size) = some 1 :=
  ⟨execute_isolated reached_market false default clearOrders,
    by decide +kernel, by decide +kernel, by decide +kernel⟩

end Service
end KeyedRows
