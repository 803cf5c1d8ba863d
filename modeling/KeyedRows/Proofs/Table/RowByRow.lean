/-
# Row by row

An update and a deletion are defined for all matching rows at once. They can as
well be carried out one row after another: the keys of the matching rows are
listed first, then each key is looked up again and its row changed or taken
away; a key whose row is gone by then is passed over.

The rows do not get into each other's way. A listed key occurs once, and
changing its row leaves the rows of the other keys alone, so each of them is
found as it was when it was matched, even where a change writes to the columns
that the filter reads.

Main statements: `changeRows_distinct`, and from it `update_eq_changeRows` and
`delete_eq_changeRows`.
-/

import KeyedRows.Proofs.Table.Scan

namespace KeyedRows
namespace Table

/-- Changes the row of one key, or takes it away, if there is one. -/
def changeRow (change : Cells → Option Cells) (t : Table) (id : RowId) : Option Table :=
  (t.rows.get? id).map fun cells =>
    match change cells with
    | some cells => { t with rows := t.rows.insert id cells }
    | none => { t with rows := t.rows.erase id }

/-- Changes the rows of keys one after another. The answer are the keys whose row was there when
their turn came. -/
def changeRows (change : Cells → Option Cells) (t : Table) : List RowId → List RowId × Table
  | [] => ([], t)
  | id :: ids =>
    match t.changeRow change id with
    | some u => (id :: (u.changeRows change ids).1, (u.changeRows change ids).2)
    | none => t.changeRows change ids

/-- A row that is there is changed, and the rows of other keys are not. -/
theorem changeRow_of_get? {t : Table} {id : RowId} {cells : Cells} (change : Cells → Option Cells)
    (h : t.rows.get? id = some cells) :
    ∃ u, t.changeRow change id = some u ∧ u.declaration = t.declaration ∧
      ∀ k, u.rows.get? k = if k = id then change cells else t.rows.get? k := by
  rw [changeRow, h, Option.map_some]
  cases change cells with
  | some cells => exact ⟨_, rfl, rfl, fun k => OrderedMap.get?_insert ..⟩
  | none => exact ⟨_, rfl, rfl, fun k => OrderedMap.get?_erase ..⟩

/-- **Distinct keys are changed each on its own.** If every key has a row at the start, every one is
found, and its row is changed as it was at the start. -/
theorem changeRows_distinct (change : Cells → Option Cells) {ids : List RowId} (hnodup : ids.Nodup)
    {t : Table} (hthere : ∀ id ∈ ids, (t.rows.get? id).isSome) :
    ∃ u, t.changeRows change ids = (ids, u) ∧ u.declaration = t.declaration ∧
      ∀ k, u.rows.get? k = if k ∈ ids then (t.rows.get? k).bind change else t.rows.get? k := by
  induction ids generalizing t with
  | nil => exact ⟨t, rfl, rfl, fun k => by simp⟩
  | cons id ids ih =>
    obtain ⟨hfresh, hnodup⟩ := List.nodup_cons.1 hnodup
    obtain ⟨cells, hcells⟩ := Option.isSome_iff_exists.1 (hthere id List.mem_cons_self)
    obtain ⟨v, hv, hvdecl, hvrows⟩ := changeRow_of_get? change hcells
    -- the keys that are left are other keys, so their rows are still there
    have hothers : ∀ k ∈ ids, v.rows.get? k = t.rows.get? k := by
      intro k hk
      have hne : k ≠ id := fun he => hfresh (he ▸ hk)
      rw [hvrows, if_neg hne]
    have hleft : ∀ k ∈ ids, (v.rows.get? k).isSome := by
      intro k hk
      rw [hothers k hk]
      exact hthere k (List.mem_cons_of_mem _ hk)
    obtain ⟨u, hu, hudecl, hurows⟩ := ih hnodup hleft
    refine ⟨u, ?_, hudecl.trans hvdecl, fun k => ?_⟩
    · rw [changeRows, hv]
      simp only [hu]
    · rw [hurows]
      by_cases hk : k ∈ ids
      · rw [if_pos hk, if_pos (List.mem_cons_of_mem _ hk), hothers k hk]
      · rw [if_neg hk, hvrows]
        by_cases hid : k = id
        · subst hid
          rw [if_pos rfl, if_pos List.mem_cons_self, hcells, Option.bind_some]
        · rw [if_neg hid, if_neg (by simp [hid, hk])]

/-- Changing the matching rows one after another is changing them all at once. -/
theorem changeRows_matching (change : Cells → Option Cells) (t : Table) (filter : Option Filter)
    (u : Table) (hdecl : u.declaration = t.declaration)
    (hrows : ∀ k, u.rows.get? k =
      (t.rows.get? k).bind fun cells => if passes filter cells then change cells else some cells) :
    t.changeRows change (t.matchingIds filter) = (t.matchingIds filter, u) := by
  have hthere : ∀ id ∈ t.matchingIds filter, (t.rows.get? id).isSome := by
    intro id hid
    rw [matchingIds_eq_filter] at hid
    exact OrderedMap.mem_keys_iff.1 (List.mem_filter.1 hid).1
  obtain ⟨v, hv, hvdecl, hvrows⟩ :=
    changeRows_distinct change (t.matchingIds_nodup filter) hthere
  have hsame : v = u := by
    refine eq_of_declaration (hvdecl.trans hdecl.symm) fun k => ?_
    rw [hvrows, hrows]
    cases hk : t.rows.get? k with
    | none => simp
    | some cells =>
      simp only [Option.bind_some, mem_matchingIds_of_get? hk]
  rw [hv, hsame]

/-- **Updating row by row.** No row is patched twice or missed because of an earlier write. -/
theorem update_eq_changeRows (t : Table) (filter : Option Filter) (patch : Cells) :
    t.update filter patch =
      t.changeRows (fun cells => some (cells.overlay patch)) (t.matchingIds filter) := by
  refine (changeRows_matching _ t filter (t.update filter patch).2 rfl fun k => ?_).symm
  rw [get?_update]
  cases t.rows.get? k with
  | none => rfl
  | some cells => cases h : passes filter cells <;> simp [h]

/-- **Deleting row by row.** Every matching row is still there when its turn comes. -/
theorem delete_eq_changeRows (t : Table) (filter : Option Filter) :
    t.delete filter = t.changeRows (fun _ => none) (t.matchingIds filter) := by
  refine (changeRows_matching _ t filter (t.delete filter).2 rfl fun k => ?_).symm
  rw [get?_delete]
  cases t.rows.get? k with
  | none => rfl
  | some cells => cases h : passes filter cells <;> simp [h, Option.filter]

end Table
end KeyedRows
