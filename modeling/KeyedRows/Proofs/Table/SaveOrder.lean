/-
# In which order rows are saved

Two saves get into each other's way only where they write different values to
one cell, that is, to the same column of the same key. Rows that agree on the
cells they share can be saved in any order: whether a row is accepted depends on
the row and on the declared columns alone, accepted rows are written over one
another cell by cell, and overlays that agree commute.

From the commutation of two saves follows that of a whole list, and that a row
which was saved once is absorbed: saving it again, after any other rows of the
list, changes nothing.

Main statement: `saveAll_order`.
-/

import KeyedRows.Proofs.Table.Scan

namespace KeyedRows

/-- Rows with one key have the same value wherever both have a cell. -/
def Row.Agrees (r s : Row) : Prop :=
  r.id = s.id → ∀ column v w, r.get? column = some v → s.get? column = some w → v = w

/-- It is enough to look at the cells that the first row has. -/
theorem Row.agrees_iff {r s : Row} :
    r.Agrees s ↔ (r.id = s.id → ∀ e ∈ r.cells.entries, ∀ w ∈ s.get? e.1, e.2 = w) := by
  refine imp_congr_right fun _ => ⟨fun h e he w hw => ?_, fun h column v w hv hw => ?_⟩
  · exact h e.1 e.2 w (OrderedMap.get?_eq_some_iff.2 he) hw
  · exact h (column, v) (OrderedMap.get?_eq_some_iff.1 hv) w hw

instance (r s : Row) : Decidable (r.Agrees s) := decidable_of_iff _ Row.agrees_iff.symm

namespace Table

/-! ### Outcomes -/

/-- A row is accepted or refused for what it is and what the table declares. -/
theorem outcome_of_declaration {t u : Table} (h : u.declaration = t.declaration) (row : Row) :
    (u.save row).1 = (t.save row).1 := by
  rw [save, save, primaryKey_eq_of_declaration h]
  cases checkRow t.primaryKey row <;> rfl

/-- The rows that were saved before play no part in an outcome. -/
theorem outcomes_saveAll (t : Table) (rows : List Row) :
    (t.saveAll rows).1 = rows.map fun row => (t.save row).1 := by
  induction rows generalizing t with
  | nil => rfl
  | cons row rows ih =>
    have hrest : ((t.save row).2.saveAll rows).1 = rows.map fun r => (t.save r).1 := by
      rw [ih]
      exact List.map_congr_left fun r _ => outcome_of_declaration (t.declaration_save row) r
    rw [saveAll, List.map_cons, ← hrest]

/-- A list of rows is saved by saving one row after another. -/
theorem saveAll_eq_foldl (t : Table) (rows : List Row) :
    (t.saveAll rows).2 = rows.foldl (fun u row => (u.save row).2) t := by
  induction rows generalizing t with
  | nil => rfl
  | cons row rows ih => exact ih _

theorem after_saves (t : Table) (rows : List Row) :
    t.after (rows.map .save) = (t.saveAll rows).2 := by
  induction rows generalizing t with
  | nil => rfl
  | cons row rows ih => exact ih _

/-! ### Two saves -/

/-- Writes to different keys commute, and writes to one key that agree. -/
theorem write_comm (t : Table) {r s : Row} (h : r.Agrees s) :
    (t.write r.id r.cells).write s.id s.cells = (t.write s.id s.cells).write r.id r.cells := by
  refine eq_of_declaration rfl fun k => ?_
  simp only [get?_write]
  by_cases hid : r.id = s.id
  · have hcells : ∀ c v w, r.cells.get? c = some v → s.cells.get? c = some w → v = w := h hid
    by_cases hk : k = s.id
    · simp only [hid, hk, if_true, Option.getD_some, Cells.overlay_right_comm _ hcells]
    · simp only [hid, if_neg hk]
  · by_cases hr : k = r.id
    · simp only [hr, if_true, if_neg hid]
    · simp only [if_neg hr, if_neg (Ne.symm hid)]

/-- Writing a row twice is writing it once. -/
theorem write_write (t : Table) (id : RowId) (cells : Cells) :
    (t.write id cells).write id cells = t.write id cells := by
  refine eq_of_declaration rfl fun k => ?_
  simp only [get?_write, if_true, Option.getD_some, Cells.overlay_overlay_self]
  by_cases hk : k = id
  · simp only [if_pos hk]
  · simp only [if_neg hk]

/-- A row that is refused is refused by every table of the declaration, and changes none. -/
theorem save_of_error {t u : Table} (hu : u.declaration = t.declaration) {row : Row}
    {fault : RowFault} (h : checkRow t.primaryKey row = .error fault) : (u.save row).2 = u := by
  rw [← primaryKey_eq_of_declaration hu] at h
  rw [save, h]

/-- A row that is accepted is accepted by every table of the declaration, and written. -/
theorem save_of_ok {t u : Table} (hu : u.declaration = t.declaration) {row : Row}
    (h : checkRow t.primaryKey row = .ok ()) : (u.save row).2 = u.write row.id row.cells := by
  rw [← primaryKey_eq_of_declaration hu] at h
  rw [save, h]

/-- **Two saves that agree commute.** -/
theorem save_comm (t : Table) {r s : Row} (h : r.Agrees s) :
    ((t.save r).2.save s).2 = ((t.save s).2.save r).2 := by
  have hdr : (t.save r).2.declaration = t.declaration := t.declaration_save r
  have hds : (t.save s).2.declaration = t.declaration := t.declaration_save s
  cases hr : checkRow t.primaryKey r with
  | error fault => rw [save_of_error rfl hr, save_of_error hds hr]
  | ok =>
    cases hs : checkRow t.primaryKey s with
    | error fault => rw [save_of_error rfl hs, save_of_error hdr hs]
    | ok =>
      rw [save_of_ok hdr hs, save_of_ok hds hr, save_of_ok rfl hr, save_of_ok rfl hs,
        t.write_comm h]

/-- Saving a row twice is saving it once. -/
theorem save_save (t : Table) (row : Row) : ((t.save row).2.save row).2 = (t.save row).2 := by
  have hd : (t.save row).2.declaration = t.declaration := t.declaration_save row
  cases hrow : checkRow t.primaryKey row with
  | error fault => rw [save_of_error hd hrow]
  | ok => rw [save_of_ok hd hrow, save_of_ok rfl hrow, t.write_write]

/-! ### Whole lists -/

/-- **Rows that agree can be saved in any order.** -/
theorem saveAll_perm {rows order : List Row} (hperm : order.Perm rows)
    (h : ∀ r ∈ rows, ∀ s ∈ rows, r.Agrees s) (t : Table) :
    (t.saveAll order).2 = (t.saveAll rows).2 := by
  rw [saveAll_eq_foldl, saveAll_eq_foldl]
  refine hperm.foldl_eq' (fun r hr s hs u => ?_) t
  exact u.save_comm (h r (hperm.mem_iff.1 hr) s (hperm.mem_iff.1 hs))

/-- What a table has absorbed it still has after rows that agree with it. -/
theorem absorbed_saveAll {t : Table} {row : Row} (habsorbed : (t.save row).2 = t) {rows : List Row}
    (h : ∀ r ∈ rows, r.Agrees row) : ((t.saveAll rows).2.save row).2 = (t.saveAll rows).2 := by
  induction rows generalizing t with
  | nil => exact habsorbed
  | cons r rows ih =>
    obtain ⟨hr, hrows⟩ := List.forall_mem_cons.1 h
    have hkept : ((t.save r).2.save row).2 = (t.save r).2 := by
      rw [t.save_comm hr, habsorbed]
    exact ih hkept hrows

/-- **Each row of a saved list is absorbed.** -/
theorem absorbed_of_mem {rows : List Row} (h : ∀ r ∈ rows, ∀ s ∈ rows, r.Agrees s) {row : Row}
    (hrow : row ∈ rows) (t : Table) :
    ((t.saveAll rows).2.save row).2 = (t.saveAll rows).2 := by
  induction rows generalizing t with
  | nil => exact absurd hrow List.not_mem_nil
  | cons r rows ih =>
    have hrest : ∀ r ∈ rows, ∀ s ∈ rows, r.Agrees s := fun a ha b hb =>
      h a (List.mem_cons_of_mem _ ha) b (List.mem_cons_of_mem _ hb)
    rcases List.mem_cons.1 hrow with rfl | hmem
    · exact absorbed_saveAll (t.save_save row) fun a ha =>
        h a (List.mem_cons_of_mem _ ha) row List.mem_cons_self
    · exact ih hrest hmem _

/-- Rows that a table has absorbed are saved again without any change. -/
theorem saveAll_of_absorbed {t : Table} {rows : List Row}
    (h : ∀ row ∈ rows, (t.save row).2 = t) : (t.saveAll rows).2 = t := by
  induction rows with
  | nil => rfl
  | cons row rows ih =>
    obtain ⟨hrow, hrows⟩ := List.forall_mem_cons.1 h
    rw [saveAll]
    simp only [hrow, ih hrows]

/-- A table that has absorbed an accepted row holds each of its cells. -/
theorem get?_of_absorbed {t : Table} {row : Row} (hok : (t.save row).1 = .ok row.id)
    (habsorbed : (t.save row).2 = t) :
    ∃ stored, t.get? row.id = some stored ∧
      ∀ column v, row.get? column = some v → stored.get? column = some v := by
  obtain ⟨fault, hs⟩ | ⟨-, hs⟩ := t.save_cases row
  · rw [hs] at hok
    contradiction
  · have hwrite : t.write row.id row.cells = t := by rwa [hs] at habsorbed
    have hrow : t.rows.get? row.id =
        some (((t.rows.get? row.id).getD ∅).overlay row.cells) := by
      have hwritten := t.get?_write row.id row.id row.cells
      rwa [if_pos rfl, hwrite] at hwritten
    refine ⟨⟨row.id, ((t.rows.get? row.id).getD ∅).overlay row.cells⟩, ?_, fun column v hv => ?_⟩
    · exact Option.map_eq_some_iff.2 ⟨_, hrow, rfl⟩
    · rw [Row.get?] at hv
      rw [Row.get?, Cells.get?_overlay, hv, Option.some_or]

/-- **Rows that do not conflict are saved in any order, and once is enough.** Let rows with one key
agree on every column they share. However they are ordered, one by one or as a list, they lead to
the same table; a row has the outcome it would have alone, wherever it stands; the table holds every
cell of every accepted row; and to save the rows again, in any order, changes nothing. -/
theorem saveAll_order {rows order : List Row} (h : ∀ r ∈ rows, ∀ s ∈ rows, r.Agrees s)
    (hperm : order.Perm rows) (t : Table) :
    (t.saveAll order).2 = (t.saveAll rows).2 ∧
      t.after (order.map .save) = (t.saveAll rows).2 ∧
      (t.saveAll order).1 = order.map (fun row => (t.save row).1) ∧
      (∀ before row later, order = before ++ row :: later →
        ((t.after (before.map .save)).save row).1 = (t.save row).1) ∧
      (∀ row ∈ order, (t.save row).1 = .ok row.id →
        ∃ stored, (t.saveAll rows).2.get? row.id = some stored ∧
          ∀ column v, row.get? column = some v → stored.get? column = some v) ∧
      (t.saveAll rows).2.saveAll order = ((t.saveAll order).1, (t.saveAll rows).2) := by
  have hsame : (t.saveAll order).2 = (t.saveAll rows).2 := saveAll_perm hperm h t
  have hdecl : (t.saveAll rows).2.declaration = t.declaration := t.declaration_saveAll rows
  have habsorbed : ∀ row ∈ order, ((t.saveAll rows).2.save row).2 = (t.saveAll rows).2 :=
    fun row hrow => absorbed_of_mem h (hperm.mem_iff.1 hrow) t
  have hagain : ((t.saveAll rows).2.saveAll order).1 = (t.saveAll order).1 := by
    rw [outcomes_saveAll, outcomes_saveAll]
    exact List.map_congr_left fun row _ => outcome_of_declaration hdecl row
  refine ⟨hsame, (t.after_saves order).trans hsame, t.outcomes_saveAll order,
    fun before row _ _ => ?_, fun row hrow hok => ?_, ?_⟩
  · exact outcome_of_declaration (t.declaration_after _) row
  · refine get?_of_absorbed ?_ (habsorbed row hrow)
    rw [outcome_of_declaration hdecl, hok]
  · exact Prod.ext hagain (saveAll_of_absorbed habsorbed)

/-- Scores that come in: a new player in two parts, a row without its key cell, and a correction. -/
def incoming : List Row :=
  [⟨.single (.int 4), OrderedMap.ofList [("player", .int 4), ("points", .int 9)]⟩,
    ⟨.single (.int 5), OrderedMap.ofList [("points", .int 5)]⟩,
    ⟨.single (.int 4), OrderedMap.ofList [("player", .int 4), ("team", .str "red")]⟩,
    ⟨.single (.int 2), OrderedMap.ofList [("player", .int 2), ("points", .int 6)]⟩]

/-- The incoming scores may as well be saved backwards: the new player has both parts, and the row
without its key cell is refused in either order. -/
theorem saveAll_incoming_reversed :
    (∀ r ∈ incoming, ∀ s ∈ incoming, r.Agrees s) ∧ incoming.reverse.Perm incoming ∧
      (scores.saveAll incoming.reverse).2 = (scores.saveAll incoming).2 ∧
      (scores.saveAll incoming.reverse).1 = [.ok (.single (.int 2)), .ok (.single (.int 4)),
        .error (.missingKeyCell "player"), .ok (.single (.int 4))] ∧
      ∃ stored, (scores.saveAll incoming).2.get? (.single (.int 4)) = some stored ∧
        stored.get? "points" = some (.int 9) ∧ stored.get? "team" = some (.str "red") := by
  have hagree : ∀ r ∈ incoming, ∀ s ∈ incoming, r.Agrees s := by decide
  have hperm : incoming.reverse.Perm incoming := List.reverse_perm incoming
  obtain ⟨hsame, -, houtcomes, -, hheld, -⟩ := saveAll_order hagree hperm scores
  let whole : Row := ⟨.single (.int 4), OrderedMap.ofList [("player", .int 4), ("points", .int 9)]⟩
  let team : Row := ⟨.single (.int 4), OrderedMap.ofList [("player", .int 4), ("team", .str "red")]⟩
  obtain ⟨stored, hstored, hpoints⟩ := hheld whole (by decide) rfl
  obtain ⟨stored', hstored', hteam⟩ := hheld team (by decide) rfl
  obtain rfl : stored = stored' := Option.some.inj (hstored.symm.trans hstored')
  refine ⟨hagree, hperm, hsame, ?_, stored, hstored, hpoints "points" _ rfl, hteam "team" _ rfl⟩
  rw [houtcomes]
  rfl

end Table
end KeyedRows
