/-
# What a table accepts

A declaration and a row are checked by a sequence of tests, of which the first
that fails decides the fault. Here the two checks are read as conditions: which
declarations and which rows pass.

Main statements: `checkSchema_eq_ok_iff` (names are there and distinct, and some
column belongs to the primary key) and `checkRow_eq_ok_iff` (the key is complete
and of the right length, and every key column has a cell that is not null).
-/

import KeyedRows.Table.Basic

namespace KeyedRows

theorem Value.isNull_iff {v : Value} : v.isNull = true ↔ v = .null := by
  cases v <;> simp [isNull]

/-- A complete key has a part, and none of its parts is null. -/
theorem RowId.isComplete_iff {id : RowId} :
    id.isComplete = true ↔ id.parts ≠ [] ∧ Value.null ∉ id.parts := by
  simp only [isComplete, Bool.and_eq_true, Bool.not_eq_true', List.isEmpty_eq_false_iff,
    List.any_eq_false, Value.isNull_iff, ne_eq, and_congr_right_iff]
  exact fun _ => ⟨fun h hn => h _ hn rfl, fun h v hv he => h (he ▸ hv)⟩

/-- A key whose parts are all null is not complete. -/
theorem RowId.isNull_eq_false {id : RowId} (h : id.isComplete = true) : id.isNull = false := by
  obtain ⟨hne, hnull⟩ := isComplete_iff.1 h
  obtain ⟨v, hv⟩ := List.exists_mem_of_ne_nil _ hne
  refine Bool.eq_false_iff.2 fun hall => hnull ?_
  rw [isNull, List.all_eq_true] at hall
  exact Value.isNull_iff.1 (hall v hv) ▸ hv

/-- The cell of a column is there and not null. -/
theorem Cells.holds_iff {cells : Cells} {column : String} :
    cells.holds column = true ↔ ∃ v, cells.get? column = some v ∧ v ≠ .null := by
  rw [holds]
  cases cells.get? column with
  | none => simp
  | some v => simp [← Value.isNull_iff]

/-- A check that throws goes no further. -/
private theorem throw_bind {ε α β : Type} (e : ε) (k : α → Except ε β) :
    (throw e >>= k) = .error e := rfl

/-- **The rows that a table takes.** -/
theorem checkRow_eq_ok_iff {keys : List String} {row : Row} :
    checkRow keys row = .ok () ↔
      row.id.isComplete = true ∧ row.id.size = keys.length ∧
        ∀ k ∈ keys, row.cells.holds k = true := by
  have hfind : keys.find? (!row.cells.holds ·) = none ↔ ∀ k ∈ keys, row.cells.holds k = true := by
    simp [List.find?_eq_none]
  rw [checkRow, ← hfind]
  by_cases hc : row.id.isComplete = true
  · rw [RowId.isNull_eq_false hc, hc]
    by_cases hs : row.id.size = keys.length
    · cases keys.find? (!row.cells.holds ·) with
      | none => simp [hs, pure, Except.pure]
      | some k => simp [hs, throw, throwThe, MonadExceptOf.throw]
    · simp [hs, throw_bind]
  · cases row.id.isNull <;> simp [hc, throw_bind]

/-- Columns pass if none is unnamed, repeats another or repeats a name seen before. -/
theorem checkColumnNames_eq_ok_iff {seen : List String} {columns : List Column} :
    checkColumnNames seen columns = .ok () ↔
      (∀ c ∈ columns, c.name ≠ "") ∧ (∀ c ∈ columns, c.name ∉ seen) ∧
        (columns.map (·.name)).Nodup := by
  induction columns generalizing seen with
  | nil => simp [checkColumnNames]
  | cons c cs ih =>
    simp only [checkColumnNames, String.isEmpty_iff, List.forall_mem_cons, List.map_cons,
      List.nodup_cons, List.mem_map, not_exists, not_and]
    by_cases he : c.name = ""
    · simp [he]
    by_cases hs : c.name ∈ seen
    · simp [he, hs]
    rw [if_neg he, if_neg hs, ih]
    simp only [List.mem_cons, not_or]
    constructor
    · rintro ⟨hnamed, hnew, hnd⟩
      exact ⟨⟨he, hnamed⟩, ⟨hs, fun d hd => (hnew d hd).2⟩, fun d hd => (hnew d hd).1, hnd⟩
    · rintro ⟨⟨-, hnamed⟩, ⟨-, hnew⟩, hne, hnd⟩
      exact ⟨hnamed, fun d hd => ⟨hne d hd, hnew d hd⟩, hnd⟩

/-- **The declarations that a table can have.** -/
theorem checkSchema_eq_ok_iff {name : String} {columns : List Column} :
    checkSchema name columns = .ok () ↔
      name ≠ "" ∧ (∀ c ∈ columns, c.name ≠ "") ∧ (columns.map (·.name)).Nodup ∧
        keyColumns columns ≠ [] := by
  rw [checkSchema]
  by_cases hn : name = ""
  · simp [hn, throw_bind]
  have hne : name.isEmpty = false := by simpa using hn
  have hnames : checkColumnNames [] columns = .ok () ↔
      (∀ c ∈ columns, c.name ≠ "") ∧ (columns.map (·.name)).Nodup := by
    simp [checkColumnNames_eq_ok_iff]
  cases hc : checkColumnNames [] columns with
  | error fault =>
    have hbad := mt hnames.2 (by simp [hc])
    simp only [hne, Bool.false_eq_true, if_false]
    exact ⟨fun h => by simp [bind, Except.bind] at h, fun h => absurd ⟨h.2.1, h.2.2.1⟩ hbad⟩
  | ok =>
    obtain ⟨hnamed, hnd⟩ := hnames.1 hc
    simp only [hne, Bool.false_eq_true, if_false]
    cases hk : keyColumns columns with
    | nil => simp [bind, Except.bind, throw, throwThe, MonadExceptOf.throw]
    | cons k ks => simpa [bind, Except.bind, pure, Except.pure, hn, hnd] using hnamed

end KeyedRows
