/-
# Well-formed tables

A table is well formed if its declaration is one that may be made and every key
it stores has a part for each key column, none of them null. Only saving brings
in new keys, and it checks them; the declaration never changes.

That the keys are ascending is part of what a map is (`OrderedMap.ascending`)
and so holds of every table.

Main statements: `wellFormed_create` and `WellFormed.act`.
-/

import KeyedRows.Proofs.Table.Actions

namespace KeyedRows

/-- The key has a part for each of the key columns, and none is null. -/
def RowId.Fits (id : RowId) (keys : List String) : Prop :=
  Value.null ∉ id.parts ∧ id.parts.length = keys.length

namespace Table

/-- The declaration may be made, and the stored keys fit it. -/
structure WellFormed (t : Table) : Prop where
  named : t.name ≠ ""
  columns_named : ∀ c ∈ t.columns, c.name ≠ ""
  columns_distinct : (t.columns.map (·.name)).Nodup
  keyed : t.primaryKey ≠ []
  fits : ∀ id ∈ t.rows.keys, id.Fits t.primaryKey

/-- **A new table is well formed.** -/
theorem wellFormed_create {name : String} {columns : List Column} {limits : ScanLimits} {t : Table}
    (h : create name columns limits = .ok t) : t.WellFormed := by
  obtain ⟨hcheck, rfl⟩ := create_cases h
  obtain ⟨hnamed, hcolumns, hdistinct, hkeyed⟩ := checkSchema_eq_ok_iff.1 hcheck
  exact ⟨hnamed, hcolumns, hdistinct, hkeyed, fun _ hid => absurd hid List.not_mem_nil⟩

namespace WellFormed
variable {t : Table}

/-- A table stays well formed under its declaration as long as the keys that come in fit. -/
theorem of_declaration (h : t.WellFormed) {u : Table} (hu : u.declaration = t.declaration)
    (hkeys : ∀ id ∈ u.rows.keys, id ∈ t.rows.keys ∨ id.Fits t.primaryKey) : u.WellFormed := by
  obtain ⟨hname, hcolumns, -⟩ := Prod.mk.inj hu |>.imp_right Prod.mk.inj
  have hprimary : u.primaryKey = t.primaryKey := primaryKey_eq_of_declaration hu
  refine ⟨hname ▸ h.named, hcolumns ▸ h.columns_named, hcolumns ▸ h.columns_distinct,
    hprimary ▸ h.keyed, fun id hid => ?_⟩
  rw [hprimary]
  rcases hkeys id hid with hold | hfits
  · exact h.fits id hold
  · exact hfits

/-- A row is only written if its key fits. -/
theorem save (h : t.WellFormed) (row : Row) : (t.save row).2.WellFormed := by
  obtain ⟨_, hs⟩ | ⟨hcheck, hs⟩ := t.save_cases row
  · rw [hs]
    exact h
  · rw [hs]
    obtain ⟨hcomplete, hsize, -⟩ := checkRow_eq_ok_iff.1 hcheck
    refine h.of_declaration rfl fun id hid => ?_
    rw [OrderedMap.mem_keys_iff, get?_write] at hid
    by_cases he : id = row.id
    · subst he
      exact .inr ⟨(RowId.isComplete_iff.1 hcomplete).2, hsize⟩
    · rw [if_neg he] at hid
      exact .inl (OrderedMap.mem_keys_iff.2 hid)

theorem saveAll (h : t.WellFormed) (rows : List Row) : (t.saveAll rows).2.WellFormed := by
  induction rows generalizing t with
  | nil => exact h
  | cons row rows ih => exact ih (h.save row)

theorem update (h : t.WellFormed) (filter : Option Filter) (patch : Cells) :
    (t.update filter patch).2.WellFormed := by
  refine h.of_declaration rfl fun id hid => ?_
  rw [OrderedMap.mem_keys_iff, get?_update, Option.isSome_map] at hid
  exact .inl (OrderedMap.mem_keys_iff.2 hid)

theorem delete (h : t.WellFormed) (filter : Option Filter) : (t.delete filter).2.WellFormed := by
  refine h.of_declaration rfl fun id hid => ?_
  rw [OrderedMap.mem_keys_iff, get?_delete] at hid
  refine .inl (OrderedMap.mem_keys_iff.2 ?_)
  obtain ⟨cells, hcells⟩ := Option.isSome_iff_exists.1 hid
  rw [(Option.filter_eq_some_iff.1 hcells).1]
  rfl

/-- **Every action keeps a table well formed.** -/
theorem act (h : t.WellFormed) (a : Action) : (t.act a).2.WellFormed := by
  cases a with
  | save row => exact h.save row
  | saveAll rows => exact h.saveAll rows
  | update filter patch => exact h.update filter patch
  | delete filter => exact h.delete filter
  | query | get | aggregate => exact h

end WellFormed
end Table
end KeyedRows
