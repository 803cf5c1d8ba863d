/-
# The history of a row

What a row holds is decided by what happened to it. Seen from one key, a list of
actions is a list of events: a row with the key was accepted, or an update or a
deletion matched the row as it was at that moment. Refused rows, filters that do
not match and actions that read make no event.

The events since the last deletion say everything: there is a row exactly if one
of them is a save, and each of its cells holds the value that was written to it
last. The invariant is `Reflects`; every event keeps it (`Reflects.saved`,
`Reflects.patched`, `Reflects.deleted`), hence every action (`reflects_act`) and
every list of actions (`reflects_after`).

Main statement: `get?_after_create`.
-/

import KeyedRows.Proofs.Table.Actions

namespace KeyedRows

/-- Something that happened to the row of one key. -/
inductive RowEvent where
  /-- A row with the key was accepted. -/
  | saved (cells : Cells)
  /-- An update matched the row. -/
  | patched (patch : Cells)
  /-- A deletion matched the row. -/
  | deleted
deriving DecidableEq

namespace RowEvent

/-- The event brings the row about if there is none. -/
def isSave : RowEvent → Bool
  | saved _ => true
  | patched _ | deleted => false

/-- The value that the event writes to a column. -/
def cell? (column : String) : RowEvent → Option Value
  | saved cells => cells.get? column
  | patched patch => patch.get? column
  | deleted => none

/-- The event that saving a row is for a key: there is none for other keys and for refused rows. -/
def ofSave (id : RowId) (row : Row) : Except RowFault RowId → Option RowEvent
  | .ok _ => if row.id = id then some (saved row.cells) else none
  | .error _ => none

end RowEvent

/-- What happened since the last deletion, the latest first. -/
def sinceDeletion (events : List RowEvent) : List RowEvent :=
  events.reverse.takeWhile (· ≠ .deleted)

@[simp] theorem sinceDeletion_saved (events : List RowEvent) (cells : Cells) :
    sinceDeletion (events ++ [.saved cells]) = .saved cells :: sinceDeletion events := by
  simp [sinceDeletion]

@[simp] theorem sinceDeletion_patched (events : List RowEvent) (patch : Cells) :
    sinceDeletion (events ++ [.patched patch]) = .patched patch :: sinceDeletion events := by
  simp [sinceDeletion]

@[simp] theorem sinceDeletion_deleted (events : List RowEvent) :
    sinceDeletion (events ++ [.deleted]) = [] := by
  simp [sinceDeletion]

namespace Table

/-- The filter matches the row of the key as it is now. -/
def matching (t : Table) (id : RowId) (filter : Option Filter) : Bool :=
  (t.get? id).any fun row => passes filter row.cells

theorem matching_eq (t : Table) (id : RowId) (filter : Option Filter) :
    t.matching id filter = (t.rows.get? id).any (passes filter) := by
  rw [matching, get?, Option.any_map]

/-- What an action is for the row of one key. -/
def events (t : Table) (id : RowId) : Action → List RowEvent
  | .save row => (RowEvent.ofSave id row (t.save row).1).toList
  | .saveAll rows => (rows.zip (t.saveAll rows).1).filterMap fun e => RowEvent.ofSave id e.1 e.2
  | .update filter patch => if t.matching id filter then [.patched patch] else []
  | .delete filter => if t.matching id filter then [.deleted] else []
  | .query _ | .get _ | .aggregate _ => []

theorem events_saveAll_cons (t : Table) (id : RowId) (row : Row) (rows : List Row) :
    t.events id (.saveAll (row :: rows)) =
      (RowEvent.ofSave id row (t.save row).1).toList ++
        (t.save row).2.events id (.saveAll rows) := by
  simp only [events, saveAll, List.zip_cons_cons, List.filterMap_cons]
  cases RowEvent.ofSave id row (t.save row).1 <;> rfl

/-- What actions are for the row of one key, the earliest first. -/
def history (t : Table) (id : RowId) : List Action → List RowEvent
  | [] => []
  | a :: as => t.events id a ++ (t.act a).2.history id as

end Table

/-- The cells of a row, if there is one, are those that its events left. -/
structure Reflects (cells? : Option Cells) (events : List RowEvent) : Prop where
  absent : cells? = none ↔ ∀ e ∈ sinceDeletion events, e.isSave = false
  cell : ∀ column, cells?.bind (·.get? column) = (sinceDeletion events).findSome? (·.cell? column)

namespace Reflects

theorem nil : Reflects none [] := by
  constructor <;> simp [sinceDeletion]

theorem saved {cells? : Option Cells} {events : List RowEvent} (h : Reflects cells? events)
    (cells : Cells) :
    Reflects (some ((cells?.getD ∅).overlay cells)) (events ++ [.saved cells]) where
  absent := by simp [RowEvent.isSave]
  cell column := by
    have hold : (cells?.getD ∅).get? column = cells?.bind (·.get? column) := by
      cases cells? <;> rfl
    rw [sinceDeletion_saved, List.findSome?_cons, ← h.cell column, Option.bind_some,
      Cells.get?_overlay, hold]
    cases hc : cells.get? column <;> simp [RowEvent.cell?, hc]

theorem patched {cells : Cells} {events : List RowEvent} (h : Reflects (some cells) events)
    (patch : Cells) : Reflects (some (cells.overlay patch)) (events ++ [.patched patch]) where
  absent := by
    have := h.absent
    simpa [RowEvent.isSave] using this
  cell column := by
    rw [sinceDeletion_patched, List.findSome?_cons, ← h.cell column, Option.bind_some,
      Option.bind_some, Cells.get?_overlay]
    cases hc : patch.get? column <;> simp [RowEvent.cell?, hc]

theorem deleted (events : List RowEvent) : Reflects none (events ++ [.deleted]) := by
  constructor <;> simp

end Reflects

namespace Table

/-- An accepted row of the key is an event, any other row leaves the row of the key as it is. -/
theorem reflects_save {t : Table} {id : RowId} {past : List RowEvent}
    (h : Reflects (t.rows.get? id) past) (row : Row) :
    Reflects ((t.save row).2.rows.get? id)
      (past ++ (RowEvent.ofSave id row (t.save row).1).toList) := by
  obtain ⟨fault, hs⟩ | ⟨-, hs⟩ := t.save_cases row
  · simpa [hs, RowEvent.ofSave] using h
  · rw [hs, get?_write]
    by_cases hid : row.id = id
    · subst hid
      simpa [RowEvent.ofSave] using h.saved row.cells
    · simpa [RowEvent.ofSave, hid, Ne.symm hid] using h

theorem reflects_saveAll {t : Table} {id : RowId} {past : List RowEvent}
    (h : Reflects (t.rows.get? id) past) (rows : List Row) :
    Reflects ((t.saveAll rows).2.rows.get? id) (past ++ t.events id (.saveAll rows)) := by
  induction rows generalizing t past with
  | nil => simpa [events, saveAll] using h
  | cons row rows ih =>
    rw [events_saveAll_cons, ← List.append_assoc]
    exact ih (reflects_save h row)

/-- **Every action keeps rows and events in step.** -/
theorem reflects_act {t : Table} {id : RowId} {past : List RowEvent}
    (h : Reflects (t.rows.get? id) past) (a : Action) :
    Reflects ((t.act a).2.rows.get? id) (past ++ t.events id a) := by
  cases a with
  | save row => exact reflects_save h row
  | saveAll rows => exact reflects_saveAll h rows
  | update filter patch =>
    rw [act, get?_update, events, matching_eq]
    cases hc : t.rows.get? id with
    | none => simpa [hc] using h
    | some cells =>
      rw [hc] at h
      by_cases hp : passes filter cells = true
      · simpa [hp] using h.patched patch
      · simpa [hp] using h
  | delete filter =>
    rw [act, get?_delete, events, matching_eq]
    cases hc : t.rows.get? id with
    | none => simpa [hc] using h
    | some cells =>
      rw [hc] at h
      by_cases hp : passes filter cells = true
      · simpa [hp, Option.filter] using Reflects.deleted past
      · simpa [hp, Option.filter] using h
  | query | get | aggregate => simpa [act, events] using h

/-- A list of actions keeps rows and events in step. -/
theorem reflects_after {t : Table} {id : RowId} {past : List RowEvent}
    (h : Reflects (t.rows.get? id) past) (as : List Action) :
    Reflects ((t.after as).rows.get? id) (past ++ t.history id as) := by
  induction as generalizing t past with
  | nil => simpa [after, history] using h
  | cons a as ih =>
    rw [after, history, ← List.append_assoc]
    exact ih (reflects_act h a)

/-- In a table that began without rows, rows and events are in step. -/
theorem reflects_of_create {name : String} {columns : List Column} {limits : ScanLimits}
    {t : Table} (h : create name columns limits = .ok t) (id : RowId) (as : List Action) :
    Reflects ((t.after as).rows.get? id) (t.history id as) := by
  obtain ⟨-, rfl⟩ := create_cases h
  have hnew : Reflects ((⟨name, columns, limits, ∅⟩ : Table).rows.get? id) [] := Reflects.nil
  exact reflects_after hnew as

/-- **A row is what happened to it since it was last deleted.** After any actions on a new table
there is no row under a key exactly if no row with the key was accepted since the last deletion
that matched it; otherwise each of its cells holds the value written to it last, and is absent if
there was none. Refused rows and actions that read change nothing at all. -/
theorem get?_after_create {name : String} {columns : List Column} {limits : ScanLimits}
    {t : Table} (h : create name columns limits = .ok t) (as : List Action) (id : RowId) :
    ((t.after as).get? id = none ↔
        ∀ e ∈ sinceDeletion (t.history id as), e.isSave = false) ∧
      (∀ row, (t.after as).get? id = some row → row.id = id ∧ ∀ column,
        row.get? column = (sinceDeletion (t.history id as)).findSome? (·.cell? column)) ∧
      (∀ row fault, ((t.after as).save row).1 = .error fault →
        ((t.after as).save row).2 = t.after as) ∧
      ∀ a : Action, a.reads = true → ((t.after as).act a).2 = t.after as := by
  have hr := reflects_of_create h id as
  refine ⟨?_, ?_, ?_, fun a ha => act_of_reads ha _⟩
  · rw [get?, Option.map_eq_none_iff]
    exact hr.absent
  · intro row hrow
    obtain ⟨cells, hcells, rfl⟩ := Option.map_eq_some_iff.1 hrow
    refine ⟨rfl, fun column => ?_⟩
    have hcell := hr.cell column
    rw [hcells] at hcell
    exact hcell
  · intro row fault hf
    obtain ⟨_, hs⟩ | ⟨-, hs⟩ := (t.after as).save_cases row
    · rw [hs]
    · rw [hs] at hf
      contradiction

/-- A table of orders with an integer key and a status. -/
def orders : Table := ⟨"orders", [⟨"id", true, .int⟩, ⟨"status", false, .str⟩], default, ∅⟩

/-- Order 1 is opened, closed, deleted and saved again without a status, by a batch. The batch begins
with a row for it that is refused, and has a row of order 2 with a status. -/
def reopening : List Action :=
  let key (n : Int64) : Cells := OrderedMap.ofList [("id", .int n)]
  [.save ⟨.single (.int 1), (key 1).insert "status" (.str "open")⟩,
    .update none (OrderedMap.ofList [("status", .str "closed")]),
    .delete (some (.ofConditions [.compare ⟨.eq, "status", .str "closed"⟩])),
    .saveAll [⟨.single (.int 1), OrderedMap.ofList [("status", .str "lost")]⟩,
      ⟨.single (.int 2), (key 2).insert "status" (.str "open")⟩, ⟨.single (.int 1), key 1⟩],
    .query none]

/-- The status from before the deletion does not come back. Of the batch only the last row counts: the
first is refused, and the second is another order's. -/
theorem get?_orders_reopened :
    create orders.name orders.columns orders.limits = .ok orders ∧
      ∃ row, (orders.after reopening).get? (.single (.int 1)) = some row ∧
        row.get? "id" = some (.int 1) ∧ row.get? "status" = none := by
  have hc : create orders.name orders.columns orders.limits = .ok orders := rfl
  obtain ⟨habsent, hcell, -⟩ := get?_after_create hc reopening (.single (.int 1))
  have hrecent : sinceDeletion (orders.history (.single (.int 1)) reopening) =
      [.saved (OrderedMap.ofList [("id", .int 1)])] := by decide
  rw [hrecent] at habsent hcell
  have hsome : (orders.after reopening).get? (.single (.int 1)) ≠ none := by
    intro hnone
    exact absurd (habsent.1 hnone) (by decide)
  obtain ⟨row, hrow⟩ := Option.ne_none_iff_exists'.1 hsome
  refine ⟨hc, row, hrow, ?_, ?_⟩
  · rw [(hcell row hrow).2 "id"]; rfl
  · rw [(hcell row hrow).2 "status"]; rfl

end Table
end KeyedRows
