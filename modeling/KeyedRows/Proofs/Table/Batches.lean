/-
# Batches of rows

A batch is saved row by row, and a row that is refused takes nothing from the
others. What the rows come to can therefore be read off the rows that the table
accepts, taken by themselves: they alone decide which table is left, and their
keys, each counted once, decide by how many rows it has grown.

What a table accepts (`Accepts`) depends on the row and on the declaration, so it
may be asked of the table before the batch.

Main statements: `outcome_eq_ok_iff`, `saveAll_accepted` and `size_saveAll`.
-/

import Mathlib.Data.Finset.Card
import KeyedRows.Proofs.Table.SaveOrder

namespace KeyedRows
namespace Table

/-- What a table asks of a row. -/
structure Accepts (t : Table) (row : Row) : Prop where
  keyed : row.id.parts ≠ []
  complete : Value.null ∉ row.id.parts
  length_parts : row.id.parts.length = t.primaryKey.length
  holds_key : ∀ column ∈ t.primaryKey, ∃ v, row.get? column = some v ∧ v ≠ .null

variable {t u : Table} {row : Row}

theorem checkRow_iff_accepts : checkRow t.primaryKey row = .ok () ↔ t.Accepts row := by
  rw [checkRow_eq_ok_iff, RowId.isComplete_iff]
  simp only [Cells.holds_iff]
  constructor
  · rintro ⟨⟨hkeyed, hcomplete⟩, hlength, hholds⟩
    exact ⟨hkeyed, hcomplete, hlength, hholds⟩
  · rintro ⟨hkeyed, hcomplete, hlength, hholds⟩
    exact ⟨⟨hkeyed, hcomplete⟩, hlength, hholds⟩

instance (t : Table) (row : Row) : Decidable (t.Accepts row) :=
  match h : checkRow t.primaryKey row with
  | .ok () => isTrue (checkRow_iff_accepts.1 h)
  | .error _ => isFalse fun haccepts => by
      rw [checkRow_iff_accepts.2 haccepts] at h
      contradiction

/-- Tables of one declaration accept the same rows. -/
theorem accepts_congr (h : u.declaration = t.declaration) : u.Accepts row ↔ t.Accepts row := by
  rw [← checkRow_iff_accepts, ← checkRow_iff_accepts, primaryKey_eq_of_declaration h]

theorem save_of_accepts (h : t.Accepts row) :
    t.save row = (.ok row.id, t.write row.id row.cells) := by
  rw [save, checkRow_iff_accepts.2 h]

theorem save_of_not_accepts (h : ¬ t.Accepts row) : (t.save row).2 = t := by
  obtain ⟨fault, hs⟩ | ⟨hok, -⟩ := t.save_cases row
  · rw [hs]
  · exact absurd (checkRow_iff_accepts.1 hok) h

/-! ### Outcomes -/

/-- What a client is told about a row that it saves. -/
def outcome (t : Table) (row : Row) : Except Failure RowId :=
  (t.save row).1.mapError (·.failure t.name)

/-- **A row is saved exactly if it has what the table asks for, and under its own key.** -/
theorem outcome_eq_ok_iff {id : RowId} : t.outcome row = .ok id ↔ id = row.id ∧ t.Accepts row := by
  unfold outcome
  constructor
  · intro hok
    obtain ⟨fault, hs⟩ | ⟨haccepted, hs⟩ := t.save_cases row
    · rw [hs] at hok
      contradiction
    · rw [hs] at hok
      exact ⟨(Except.ok.inj hok).symm, checkRow_iff_accepts.1 haccepted⟩
  · rintro ⟨rfl, haccepts⟩
    rw [save_of_accepts haccepts]
    rfl

/-- The outcome is the same with every table of the declaration. -/
theorem outcome_congr (h : u.declaration = t.declaration) : u.outcome = t.outcome := by
  funext row
  have hname : u.name = t.name := congrArg Prod.fst h
  rw [outcome, outcome, outcome_of_declaration h, hname]

/-! ### The accepted rows -/

/-- The rows of a batch that the table accepts, in their order. -/
def accepted (t : Table) (rows : List Row) : List Row := rows.filter (t.Accepts ·)

/-- The keys of these rows, each of them once. -/
def acceptedKeys (t : Table) (rows : List Row) : Finset RowId :=
  ((t.accepted rows).map (·.id)).toFinset

theorem after_saveAll_cons (t : Table) (row : Row) (rows : List Row) :
    (t.saveAll (row :: rows)).2 = ((t.save row).2.saveAll rows).2 := rfl

/-- **Refused rows might as well be left out of a batch.** What is accepted is asked of one table of
the declaration throughout, while the rows go into one table after another. -/
theorem saveAll_accepted (h : u.declaration = t.declaration) (rows : List Row) :
    (u.saveAll (t.accepted rows)).2 = (u.saveAll rows).2 := by
  unfold accepted
  induction rows generalizing u with
  | nil => rfl
  | cons row rows ih =>
    by_cases hrow : t.Accepts row
    · rw [List.filter_cons_of_pos (by simpa using hrow)]
      exact ih ((u.declaration_save row).trans h)
    · have hsame : (u.save row).2 = u := save_of_not_accepts (mt (accepts_congr h).1 hrow)
      rw [List.filter_cons_of_neg (by simpa using hrow), ih h, after_saveAll_cons, hsame]

/-- A key has a row after a batch if it had one before or if it is that of an accepted row. -/
theorem mem_keys_saveAll (h : u.declaration = t.declaration) (rows : List Row) (id : RowId) :
    id ∈ (u.saveAll rows).2.rows.keys ↔ id ∈ u.rows.keys ∨ id ∈ t.acceptedKeys rows := by
  unfold acceptedKeys accepted
  rw [List.mem_toFinset, List.mem_map]
  induction rows generalizing u with
  | nil => simp [saveAll]
  | cons row rows ih =>
    have hrest := ih ((u.declaration_save row).trans h)
    rw [after_saveAll_cons, hrest]
    by_cases hrow : t.Accepts row
    · have hkeys : id ∈ (u.save row).2.rows.keys ↔ id = row.id ∨ id ∈ u.rows.keys := by
        rw [save_of_accepts ((accepts_congr h).2 hrow), OrderedMap.mem_keys_iff,
          OrderedMap.mem_keys_iff, get?_write]
        by_cases hid : id = row.id <;> simp [hid]
      rw [hkeys, List.filter_cons_of_pos (by simpa using hrow)]
      simp only [List.mem_cons, exists_eq_or_imp, eq_comm (a := id)]
      tauto
    · rw [save_of_not_accepts (mt (accepts_congr h).1 hrow),
        List.filter_cons_of_neg (by simpa using hrow)]

/-- The rows of a table are as many as its keys. -/
theorem size_eq_card (t : Table) : t.size = t.rows.keys.toFinset.card := by
  rw [List.toFinset_card_of_nodup t.rows.keys_nodup]
  exact t.rows.size_eq_length_keys

/-- **A batch adds one row for each accepted key that had none.** -/
theorem size_saveAll (t : Table) (rows : List Row) :
    (t.saveAll rows).2.size = t.size + (t.acceptedKeys rows \ t.rows.keys.toFinset).card := by
  have hkeys : (t.saveAll rows).2.rows.keys.toFinset =
      t.acceptedKeys rows ∪ t.rows.keys.toFinset := by
    ext id
    rw [List.mem_toFinset, mem_keys_saveAll rfl, Finset.mem_union, List.mem_toFinset, or_comm]
  rw [size_eq_card, size_eq_card, hkeys, ← Finset.card_sdiff_add_card, Nat.add_comm]

end Table
end KeyedRows
