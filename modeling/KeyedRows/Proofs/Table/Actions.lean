/-
# Actions on a table

The operations of a table as data, so that what happens to a table is a list of
actions. An action may change the rows of a table and nothing else of it.

Main statements: `declaration_act` (name, columns and limits stay), `save_cases`
(a row is either refused and changes nothing, or written), `get?_write`,
`get?_update` and `get?_delete` (the row of one key after each operation that
writes).
-/

import KeyedRows.Proofs.Table.Acceptance
import KeyedRows.Table.Aggregate

namespace KeyedRows
namespace Table

/-- An operation on a table, with its argument. -/
inductive Action where
  | save (row : Row)
  | saveAll (rows : List Row)
  | update (filter : Option Filter) (patch : Cells)
  | delete (filter : Option Filter)
  | query (filter : Option Filter)
  | get (id : RowId)
  | aggregate (filter : Filter)

/-- What an action answers. -/
inductive Outcome where
  | saved (outcome : Except RowFault RowId)
  | savedAll (outcomes : List (Except RowFault RowId))
  | ids (ids : List RowId)
  | rows (rows : List Row)
  | row (row : Option Row)
  | value (value : Except AggregateFault Value)

/-- The action only reads. -/
def Action.reads : Action → Bool
  | query _ | get _ | aggregate _ => true
  | save _ | saveAll _ | update _ _ | delete _ => false

/-- Carries out an action: its answer and the table after it. -/
def act (t : Table) : Action → Outcome × Table
  | .save row => (.saved (t.save row).1, (t.save row).2)
  | .saveAll rows => (.savedAll (t.saveAll rows).1, (t.saveAll rows).2)
  | .update filter patch => (.ids (t.update filter patch).1, (t.update filter patch).2)
  | .delete filter => (.ids (t.delete filter).1, (t.delete filter).2)
  | .query filter => (.rows (t.query filter), t)
  | .get id => (.row (t.get? id), t)
  | .aggregate filter => (.value (t.aggregate filter), t)

/-- The table after actions, one after another. -/
def after (t : Table) : List Action → Table
  | [] => t
  | a :: as => (t.act a).2.after as

theorem act_of_reads {a : Action} (h : a.reads = true) (t : Table) : (t.act a).2 = t := by
  cases a <;> first | rfl | contradiction

/-- A table is only created with an acceptable declaration, and it begins without rows. -/
theorem create_cases {name : String} {columns : List Column} {limits : ScanLimits} {t : Table}
    (h : create name columns limits = .ok t) :
    checkSchema name columns = .ok () ∧ t = ⟨name, columns, limits, ∅⟩ := by
  rw [create] at h
  cases hc : checkSchema name columns with
  | error fault => simp [hc, bind, Except.bind] at h
  | ok => exact ⟨rfl, by simpa [hc, bind, Except.bind, pure, Except.pure, eq_comm] using h⟩

/-! ### What stays -/

/-- What a table declares: all of it but the rows. -/
def declaration (t : Table) : String × List Column × ScanLimits := (t.name, t.columns, t.limits)

/-- A row is refused and changes nothing, or it is written. -/
theorem save_cases (t : Table) (row : Row) :
    (∃ fault, t.save row = (.error fault, t)) ∨
      (checkRow t.primaryKey row = .ok () ∧
        t.save row = (.ok row.id, t.write row.id row.cells)) := by
  rw [save]
  cases h : checkRow t.primaryKey row with
  | error fault => exact .inl ⟨fault, rfl⟩
  | ok => exact .inr ⟨rfl, rfl⟩

theorem declaration_save (t : Table) (row : Row) :
    (t.save row).2.declaration = t.declaration := by
  obtain ⟨_, h⟩ | ⟨_, h⟩ := t.save_cases row
  · rw [h]
  · rw [h]
    rfl

theorem declaration_saveAll (t : Table) (rows : List Row) :
    (t.saveAll rows).2.declaration = t.declaration := by
  induction rows generalizing t with
  | nil => rfl
  | cons row rows ih =>
    calc (t.saveAll (row :: rows)).2.declaration
      _ = ((t.save row).2.saveAll rows).2.declaration := rfl
      _ = (t.save row).2.declaration := ih _
      _ = t.declaration := t.declaration_save row

/-- **An action changes the rows alone.** -/
theorem declaration_act (t : Table) (a : Action) : (t.act a).2.declaration = t.declaration := by
  cases a with
  | save row => exact t.declaration_save row
  | saveAll rows => exact t.declaration_saveAll rows
  | update | delete | query | get | aggregate => rfl

theorem declaration_after (t : Table) (as : List Action) :
    (t.after as).declaration = t.declaration := by
  induction as generalizing t with
  | nil => rfl
  | cons a as ih => exact (ih _).trans (t.declaration_act a)

/-- Tables of one declaration have one primary key. -/
theorem primaryKey_eq_of_declaration {t u : Table} (h : t.declaration = u.declaration) :
    t.primaryKey = u.primaryKey :=
  congrArg (fun d : String × List Column × ScanLimits => keyColumns d.2.1) h

/-- **The declaration and the rows make up a table.** -/
theorem eq_of_declaration {t u : Table} (h : t.declaration = u.declaration)
    (hrows : ∀ k, t.rows.get? k = u.rows.get? k) : t = u := by
  obtain ⟨name, columns, limits, rows⟩ := t
  obtain ⟨name', columns', limits', rows'⟩ := u
  obtain ⟨rfl, hrest⟩ := Prod.mk.inj h
  obtain ⟨rfl, rfl⟩ := Prod.mk.inj hrest
  obtain rfl : rows = rows' := OrderedMap.ext_get? hrows
  rfl

/-! ### The row of one key -/

/-- Writing changes the row of its key: the cells go over the old ones. -/
theorem get?_write (t : Table) (id k : RowId) (cells : Cells) :
    (t.write id cells).rows.get? k =
      if k = id then some (((t.rows.get? id).getD ∅).overlay cells) else t.rows.get? k :=
  OrderedMap.get?_insert ..

/-- Updating patches the row of a key if it matches. -/
theorem get?_update (t : Table) (filter : Option Filter) (patch : Cells) (k : RowId) :
    (t.update filter patch).2.rows.get? k =
      (t.rows.get? k).map fun cells => if passes filter cells then cells.overlay patch else cells :=
  OrderedMap.get?_mapValues ..

/-- Deleting takes the row of a key away if it matches. -/
theorem get?_delete (t : Table) (filter : Option Filter) (k : RowId) :
    (t.delete filter).2.rows.get? k = (t.rows.get? k).filter fun cells => !passes filter cells :=
  OrderedMap.get?_filter ..

end Table
end KeyedRows
