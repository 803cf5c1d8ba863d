/-
# What an update does

An update lists the rows that match, and only then writes. So the rows it
patches are those that matched the table as it was, even if the patch writes to
the columns that the filter reads or to key columns: keys are not cells, and no
row moves, comes or goes.

A second update with the same filter and patch can match fewer rows than the
first, never others: the rows that were not patched still do not match. Those it
matches hold the patch already.

Main statement: `update_patches`.
-/

import KeyedRows.Proofs.Table.Matching

namespace KeyedRows
namespace Table

/-- One table is the other with a patch written over the rows of the given keys. -/
structure Patched (t : Table) (ids : List RowId) (patch : Cells) (u : Table) : Prop where
  declaration : u.declaration = t.declaration
  keys : u.rows.keys = t.rows.keys
  patched : ∀ id ∈ ids, ∃ old new, t.get? id = some old ∧ u.get? id = some new ∧
    ∀ column, new.get? column = (patch.get? column).or (old.get? column)
  untouched : ∀ id, id ∉ ids → u.get? id = t.get? id

/-- **An update writes the patch over the rows that it lists, and nothing else.** -/
theorem patched_update (t : Table) (filter : Option Filter) (patch : Cells) :
    t.Patched (t.matchingIds filter) patch (t.update filter patch).2 where
  declaration := rfl
  keys := OrderedMap.keys_mapValues ..
  patched id hid := by
    rw [mem_matchingIds, matching_eq, Option.any_eq_true] at hid
    obtain ⟨cells, hcells, hpass⟩ := hid
    refine ⟨⟨id, cells⟩, ⟨id, cells.overlay patch⟩, ?_, ?_, Cells.get?_overlay cells patch⟩
    · rw [get?, hcells, Option.map_some]
    · rw [get?, get?_update, hcells, Option.map_some, Option.map_some, if_pos hpass]
  untouched id hid := by
    rw [get?, get?_update, get?]
    cases hrow : t.rows.get? id with
    | none => rfl
    | some cells =>
      rw [mem_matchingIds_of_get? hrow] at hid
      rw [Option.map_some, if_neg hid]

/-- A row that matches after an update matched before. -/
theorem matching_of_update {t : Table} {filter : Option Filter} {patch : Cells} {id : RowId}
    (h : (t.update filter patch).2.matching id filter = true) : t.matching id filter = true := by
  rw [matching_eq, get?_update] at h
  rw [matching_eq]
  cases hrow : t.rows.get? id with
  | none => simp [hrow] at h
  | some cells =>
    by_cases hpass : passes filter cells = true
    · exact hpass
    · simp [hrow, hpass] at h

/-- The rows that match after an update are some of those that it patched, in the same order. -/
theorem matchingIds_update_sublist (t : Table) (filter : Option Filter) (patch : Cells) :
    ((t.update filter patch).2.matchingIds filter).Sublist (t.matchingIds filter) := by
  let before (id : RowId) : Bool := t.matching id filter
  let after (id : RowId) : Bool := (t.update filter patch).2.matching id filter
  have hboth : t.rows.keys.filter after = (t.rows.keys.filter before).filter after := by
    rw [List.filter_filter]
    refine List.filter_congr fun id _ => ?_
    cases hafter : after id with
    | false => rfl
    | true => exact (matching_of_update hafter).symm
  rw [matchingIds_eq_filter, matchingIds_eq_filter, (t.patched_update filter patch).keys]
  change (t.rows.keys.filter after).Sublist (t.rows.keys.filter before)
  rw [hboth]
  exact List.filter_sublist

/-- Writing the same patch under the same filter again changes nothing. -/
theorem update_update (t : Table) (filter : Option Filter) (patch : Cells) :
    ((t.update filter patch).2.update filter patch).2 = (t.update filter patch).2 := by
  refine eq_of_declaration rfl fun k => ?_
  rw [get?_update, get?_update, Option.map_map]
  refine Option.map_congr fun cells _ => ?_
  rw [Function.comp_apply]
  by_cases hpass : passes filter cells = true
  · rw [if_pos hpass, Cells.overlay_overlay_self, ite_self]
  · rw [if_neg hpass, if_neg hpass]

/-- **An update patches the rows that matched before it.** It returns the keys of these rows, each
once and in the order of the keys. Each of the rows is its old cells with the patch written over
them, in every column of the patch and no other, whether or not the table declares it; the other
rows, the keys and their order stay. To patch the rows one after another comes to the same. Updating
again leaves the table as it is, and returns no other keys than before. -/
theorem update_patches (t : Table) (filter : Option Filter) (patch : Cells) :
    let ids := (t.update filter patch).1
    let u := (t.update filter patch).2
    t.Selects filter ids ∧ t.Patched ids patch u ∧ u.size = t.size ∧
      t.update filter patch = t.changeRows (fun cells => some (cells.overlay patch)) ids ∧
      (u.update filter patch).2 = u ∧ (u.update filter patch).1.Sublist ids := by
  intro ids u
  have hpatched : t.Patched ids patch u := t.patched_update filter patch
  have hsize : u.size = t.size := by
    rw [size, OrderedMap.size_eq_length_keys, hpatched.keys, ← OrderedMap.size_eq_length_keys, size]
  exact ⟨t.selects_matchingIds filter, hpatched, hsize, t.update_eq_changeRows filter patch,
    t.update_update filter patch, t.matchingIds_update_sublist filter patch⟩

/-- The patch writes to the filtered column, to the key column and to a column that is not declared:
both matching rows are patched under their old keys, and then none matches. -/
example :
    let patch : Cells :=
      OrderedMap.ofList [("note", .str "void"), ("player", .null), ("points", .int 0)]
    let u := (scores.update (some sevenUp) patch).2
    (scores.update (some sevenUp) patch).1 = [.single (.int 1), .single (.int 3)] ∧
      u.get? (.single (.int 3)) = some ⟨.single (.int 3), patch⟩ ∧
      u.rows.keys = scores.rows.keys ∧ u.update (some sevenUp) patch = ([], u) := by
  decide

end Table
end KeyedRows
