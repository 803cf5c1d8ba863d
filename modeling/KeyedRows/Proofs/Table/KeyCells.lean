/-
# The cells of the primary key

Saving asks for a cell in every column of the primary key, and for a value in
it. Updating asks for nothing: a patch is written as it is, into key columns as
into others. So a stored row always has a cell in every key column, because no
action takes a cell away and keeps the row, but the cell may have become null.
It is null exactly if the write that decided it was an update with null.

Main statement: `keyCell_after_create`; `orders_lose_key` is a table that stored
a null in a key column.
-/

import KeyedRows.Proofs.Table.History

namespace KeyedRows

/-- A save brings a value for each of these columns. -/
def RowEvent.Keyed (keys : List String) : RowEvent → Prop
  | saved cells => ∀ k ∈ keys, cells.holds k = true
  | patched _ | deleted => True

namespace Table

/-- Only rows with their key cells are accepted. -/
theorem keyed_ofSave {t : Table} {row : Row} {id : RowId} {e : RowEvent}
    (h : RowEvent.ofSave id row (t.save row).1 = some e) : e.Keyed t.primaryKey := by
  obtain ⟨_, hs⟩ | ⟨hok, hs⟩ := t.save_cases row
  · simp [hs, RowEvent.ofSave] at h
  · simp only [hs, RowEvent.ofSave, Option.ite_none_right_eq_some, Option.some.injEq] at h
    obtain ⟨-, rfl⟩ := h
    exact (checkRow_eq_ok_iff.1 hok).2.2

theorem keyed_saveAll {t : Table} {rows : List Row} {id : RowId} :
    ∀ e ∈ t.events id (.saveAll rows), e.Keyed t.primaryKey := by
  induction rows generalizing t with
  | nil => simp [events]
  | cons row rows ih =>
    intro e he
    rw [events_saveAll_cons, List.mem_append, Option.mem_toList] at he
    rcases he with he | he
    · exact keyed_ofSave he
    · have := ih e he
      rwa [primaryKey_eq_of_declaration (t.declaration_save row)] at this

theorem keyed_events {t : Table} {a : Action} {id : RowId} :
    ∀ e ∈ t.events id a, e.Keyed t.primaryKey := by
  intro e he
  cases a with
  | save row => exact keyed_ofSave (Option.mem_toList.1 he)
  | saveAll rows => exact keyed_saveAll e he
  | update filter patch =>
    simp only [events, List.mem_ite_nil_right, List.mem_singleton] at he
    obtain ⟨-, rfl⟩ := he
    trivial
  | delete filter =>
    simp only [events, List.mem_ite_nil_right, List.mem_singleton] at he
    obtain ⟨-, rfl⟩ := he
    trivial
  | query | get | aggregate => simp [events] at he

/-- Every save in the history of a row brought its key cells. -/
theorem keyed_history {t : Table} {as : List Action} {id : RowId} :
    ∀ e ∈ t.history id as, e.Keyed t.primaryKey := by
  induction as generalizing t with
  | nil => simp [history]
  | cons a as ih =>
    intro e he
    rcases List.mem_append.1 he with he | he
    · exact keyed_events e he
    · have := ih e he
      rwa [primaryKey_eq_of_declaration (t.declaration_act a)] at this

end Table

/-- What happened since the last deletion is part of all that happened. -/
theorem mem_of_mem_sinceDeletion {events : List RowEvent} {e : RowEvent}
    (h : e ∈ sinceDeletion events) : e ∈ events :=
  List.mem_reverse.1 ((List.takeWhile_sublist _).subset h)

/-- A row was saved since the last deletion, and that save brought the key cells. -/
theorem Reflects.exists_keyCell {cells : Cells} {events : List RowEvent} {keys : List String}
    (h : Reflects (some cells) events) (hkeyed : ∀ e ∈ events, e.Keyed keys) {k : String}
    (hk : k ∈ keys) : ∃ v, cells.get? k = some v := by
  -- the row is there, so it was saved; from then on the cell can change but not go
  have hsave : ∃ e ∈ sinceDeletion events, e.isSave = true := by
    refine Classical.byContradiction fun hno => ?_
    refine Option.some_ne_none cells (h.absent.2 fun e he => ?_)
    exact Bool.eq_false_iff.2 fun hs => hno ⟨e, he, hs⟩
  obtain ⟨e, he, hs⟩ := hsave
  cases e with
  | saved saved =>
    obtain ⟨v, hv, -⟩ := Cells.holds_iff.1 (hkeyed _ (mem_of_mem_sinceDeletion he) k hk)
    have hcell : (sinceDeletion events).findSome? (·.cell? k) ≠ none := by
      intro hnone
      have := List.findSome?_eq_none_iff.1 hnone _ he
      rw [RowEvent.cell?, hv] at this
      contradiction
    rw [← h.cell k] at hcell
    exact Option.ne_none_iff_exists'.1 hcell
  | patched | deleted => contradiction

/-- A null in a key column was put there by an update, and nothing wrote to the cell after it. -/
theorem Reflects.keyCell_null_iff {cells : Cells} {events : List RowEvent} {keys : List String}
    (h : Reflects (some cells) events) (hkeyed : ∀ e ∈ events, e.Keyed keys) {k : String}
    (hk : k ∈ keys) :
    cells.get? k = some .null ↔ ∃ later patch earlier,
      sinceDeletion events = later ++ .patched patch :: earlier ∧
        patch.get? k = some .null ∧ ∀ e ∈ later, e.cell? k = none := by
  have hcell : cells.get? k = (sinceDeletion events).findSome? (·.cell? k) := h.cell k
  rw [hcell, List.findSome?_eq_some_iff]
  constructor
  · rintro ⟨later, e, earlier, hsplit, hnull, hlater⟩
    cases e with
    | saved saved =>
      have hmem : RowEvent.saved saved ∈ sinceDeletion events := by simp [hsplit]
      obtain ⟨v, hv, hne⟩ := Cells.holds_iff.1 (hkeyed _ (mem_of_mem_sinceDeletion hmem) k hk)
      rw [RowEvent.cell?, hv, Option.some.injEq] at hnull
      exact absurd hnull hne
    | patched patch => exact ⟨later, patch, earlier, hsplit, hnull, hlater⟩
    | deleted => contradiction
  · rintro ⟨later, patch, earlier, hsplit, hnull, hlater⟩
    exact ⟨later, .patched patch, earlier, hsplit, hnull, hlater⟩

namespace Table

/-- **A stored row has a cell in every key column.** The cell is null exactly if the last write to
it since the row was last deleted was an update with null in that column. -/
theorem keyCell_after_create {name : String} {columns : List Column} {limits : ScanLimits}
    {t : Table} (h : create name columns limits = .ok t) (as : List Action) {id : RowId}
    {row : Row} (hrow : (t.after as).get? id = some row) {k : String}
    (hk : k ∈ (t.after as).primaryKey) :
    ∃ v, row.get? k = some v ∧
      (v = .null ↔ ∃ later patch earlier,
        sinceDeletion (t.history id as) = later ++ .patched patch :: earlier ∧
          patch.get? k = some .null ∧ ∀ e ∈ later, e.cell? k = none) := by
  obtain ⟨cells, hcells, rfl⟩ := Option.map_eq_some_iff.1 hrow
  have hr := reflects_of_create h id as
  rw [hcells] at hr
  rw [primaryKey_eq_of_declaration (t.declaration_after as)] at hk
  obtain ⟨v, hv⟩ := hr.exists_keyCell keyed_history hk
  refine ⟨v, hv, ?_⟩
  rw [← hr.keyCell_null_iff keyed_history hk, hv, Option.some.injEq]

/-- An order is saved, and its key cell is then set to null. -/
def nullingKey : List Action :=
  [.save ⟨.single (.int 1), OrderedMap.ofList [("id", .int 1)]⟩,
    .update none (OrderedMap.ofList [("id", .null)])]

/-- A stored row can have a null in a column of the primary key. -/
theorem orders_lose_key :
    create orders.name orders.columns orders.limits = .ok orders ∧
      ¬ ∀ id row, (orders.after nullingKey).get? id = some row →
        ∀ k ∈ (orders.after nullingKey).primaryKey, row.cells.holds k = true := by
  refine ⟨rfl, fun hall => ?_⟩
  have hrow : (orders.after nullingKey).get? (.single (.int 1)) =
      some ⟨.single (.int 1), OrderedMap.ofList [("id", .null)]⟩ := by decide
  exact absurd (hall _ _ hrow "id" (by decide)) (by decide)

/-- The row whose key cell was set to null still has the cell, and the update is to blame. -/
theorem keyCell_orders_nulled :
    create orders.name orders.columns orders.limits = .ok orders ∧
      (orders.after nullingKey).get? (.single (.int 1)) =
        some ⟨.single (.int 1), OrderedMap.ofList [("id", .null)]⟩ ∧
      "id" ∈ (orders.after nullingKey).primaryKey ∧
      ∃ later patch earlier,
        sinceDeletion (orders.history (.single (.int 1)) nullingKey) =
            later ++ .patched patch :: earlier ∧
          patch.get? "id" = some .null ∧ ∀ e ∈ later, e.cell? "id" = none := by
  have hc : create orders.name orders.columns orders.limits = .ok orders := rfl
  have hrow : (orders.after nullingKey).get? (.single (.int 1)) =
      some ⟨.single (.int 1), OrderedMap.ofList [("id", .null)]⟩ := by decide
  have hk : "id" ∈ (orders.after nullingKey).primaryKey := by decide
  refine ⟨hc, hrow, hk, ?_⟩
  obtain ⟨v, hv, hnull⟩ := keyCell_after_create hc nullingKey hrow hk
  refine hnull.1 ?_
  rw [show Row.get? _ "id" = some .null by decide, Option.some.injEq] at hv
  exact hv.symm

end Table
end KeyedRows
