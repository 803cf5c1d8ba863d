/-
# Which rows an operation takes

Queries, updates, deletions and aggregates match rows in one and the same way,
and what a filter projects plays no part in it. With conditions all four take
the rows that pass; without conditions, updates, deletions and aggregates take
every row, where a query stops at the limit of the table.

A deletion takes its rows away and leaves the others as they are, so that there
is nothing left to match and a second deletion finds nothing.

Main statement: `matching_agrees`.
-/

import KeyedRows.Proofs.Table.RowByRow

namespace KeyedRows
namespace Table

/-- The keys are those of the rows that the filter matches, in ascending order. -/
structure Selects (t : Table) (filter : Option Filter) (ids : List RowId) : Prop where
  ascending : ids.Pairwise fun a b => compare a b = .lt
  mem_iff : ∀ id, id ∈ ids ↔ t.matching id filter = true

/-- One table is the other without the rows of the given keys. -/
structure Removed (t : Table) (ids : List RowId) (u : Table) : Prop where
  declaration : u.declaration = t.declaration
  row : ∀ id, u.get? id = if id ∈ ids then none else t.get? id
  size : u.size + ids.length = t.size

variable {t : Table} {filter : Option Filter}

theorem selects_matchingIds (t : Table) (filter : Option Filter) :
    t.Selects filter (t.matchingIds filter) :=
  ⟨t.matchingIds_ascending filter, fun _ => mem_matchingIds⟩

/-! ### Without conditions -/

/-- A filter that asks nothing passes all cells. -/
theorem passes_of_no_conditions (h : ∀ f ∈ filter, f.conditions = []) (cells : Cells) :
    passes filter cells = true := by
  cases filter with
  | none => rfl
  | some f => rw [passes, Option.all_some, Filter.test, h f rfl, List.all_nil]

/-- Without conditions every key of the table is listed, however many there are. -/
theorem matchingIds_of_no_conditions (t : Table) (h : ∀ f ∈ filter, f.conditions = []) :
    t.matchingIds filter = t.rows.keys := by
  rw [matchingIds, t.scan_of_forall (passes_of_no_conditions h), List.map_map]
  rfl

/-- Without conditions an aggregate is taken of the cells of all rows. -/
theorem aggregate_of_no_conditions (t : Table) {f : Filter} (h : f.conditions = [])
    (p : Projection) :
    t.aggregate { f with projection := some p } = p.of (t.rows.entries.map (·.2)) := by
  have hpass : ∀ cells, passes (some f) cells = true := passes_of_no_conditions (by simp [h])
  change p.of ((t.scan (passes (some f))).map (·.cells)) = _
  rw [t.scan_of_forall hpass, List.map_map]
  rfl

/-! ### With conditions -/

/-- A query with conditions returns the rows whose keys an update or a deletion lists. -/
theorem ids_query_of_conditions {f : Filter} (h : f.conditions ≠ []) :
    (t.query (some f)).map (·.id) = t.matchingIds (some f) := by
  rw [query_of_conditions h]
  rfl

/-- An aggregate is taken of the rows that the query with the same conditions returns. -/
theorem aggregate_of_conditions {f : Filter} (h : f.conditions ≠ []) (p : Projection) :
    t.aggregate { f with projection := some p } = p.of ((t.query (some f)).map (·.cells)) := by
  rw [query_of_conditions h]
  rfl

/-- Counting the column `*` counts the matching rows, whatever their cells. -/
theorem count_of_conditions {f : Filter} (h : f.conditions ≠ []) :
    t.aggregate { f with projection := some ⟨.count, "*"⟩ } =
      .ok (.int (.ofNat (t.matchingIds (some f)).length)) := by
  rw [aggregate_of_conditions h, ← ids_query_of_conditions h, List.length_map, Projection.of]
  simp only [if_true, List.length_map]

/-! ### After a deletion -/

/-- A deletion leaves no row that its filter matches. -/
theorem matchingIds_delete (t : Table) (filter : Option Filter) :
    (t.delete filter).2.matchingIds filter = [] := by
  rw [List.eq_nil_iff_forall_not_mem]
  intro id hid
  rw [mem_matchingIds, matching_eq, get?_delete, Option.any_eq_true] at hid
  obtain ⟨cells, hcells, hpass⟩ := hid
  have hleft := (Option.filter_eq_some_iff.1 hcells).2
  simp [hpass] at hleft

/-- Where no row matches, a deletion changes nothing. -/
theorem delete_of_no_match (h : t.matchingIds filter = []) : t.delete filter = ([], t) := by
  rw [delete_eq_changeRows, h]
  rfl

/-- A table has the rows that a deletion leaves and those that it takes. -/
theorem size_delete (t : Table) (filter : Option Filter) :
    (t.delete filter).2.size + (t.delete filter).1.length = t.size := by
  let taken (e : RowId × Cells) : Bool := passes filter e.2
  have hleft : (t.delete filter).2.size = (t.rows.entries.filter fun e => !taken e).length := rfl
  have htaken : (t.delete filter).1.length = (t.rows.entries.filter taken).length := by
    change (t.matchingIds filter).length = _
    rw [matchingIds, List.length_map, scan_eq_passing, passing, List.length_map]
  have hsplit := List.length_eq_countP_add_countP taken (l := t.rows.entries)
  rw [hleft, htaken, Nat.add_comm, ← List.countP_eq_length_filter, ← List.countP_eq_length_filter,
    size, OrderedMap.size, hsplit]
  simp

/-- **A deletion takes away the rows that it lists, and nothing else.** -/
theorem removed_delete (t : Table) (filter : Option Filter) :
    t.Removed (t.delete filter).1 (t.delete filter).2 where
  declaration := rfl
  row id := by
    rw [get?, get?_delete, get?]
    change _ = if id ∈ t.matchingIds filter then _ else _
    cases hrow : t.rows.get? id with
    | none => simp
    | some cells =>
      simp only [mem_matchingIds_of_get? hrow]
      by_cases hp : passes filter cells = true <;> simp [hp, Option.filter]
  size := t.size_delete filter

/-! ### Agreement -/

/-- **The operations that match rows agree on which rows they take.** Deleting and updating take the
rows that match, each once and in the order of the keys. With conditions these are the rows that a
query returns and an aggregate is taken of, whatever the filters project. Without conditions
deleting, updating and aggregates take every row of the table, beyond the limit of full scans.

A deletion, carried out row by row or at once, removes the rows it takes and leaves the others
alone. Its conditions then match nothing, and deleting by them again changes nothing. -/
theorem matching_agrees (t : Table) :
    (∀ filter, t.Selects filter (t.delete filter).1 ∧
      ∀ patch, (t.update filter patch).1 = (t.delete filter).1) ∧
    (∀ f : Filter, f.conditions ≠ [] →
      (∀ p : Option Projection, let g : Filter := { f with projection := p }
        (t.query (some g)).map (·.id) = (t.delete (some f)).1 ∧
          t.delete (some g) = t.delete (some f) ∧
          ∀ patch, t.update (some g) patch = t.update (some f) patch) ∧
      (∀ p : Projection, t.aggregate { f with projection := some p } =
        p.of ((t.query (some f)).map (·.cells))) ∧
      (∃ count : Int64,
        t.aggregate { f with projection := some ⟨.count, "*"⟩ } = .ok (.int count) ∧
          count = .ofNat (t.delete (some f)).1.length ∧
          ((t.delete (some f)).1.length < 1 <<< 63 →
            count.toInt = (t.delete (some f)).1.length)) ∧
      (t.delete (some f)).2.query (some f) = []) ∧
    (∀ filter : Option Filter, (∀ f ∈ filter, f.conditions = []) →
      (t.delete filter).1 = t.rows.keys ∧ ∀ patch, (t.update filter patch).1 = t.rows.keys) ∧
    (∀ (f : Filter) (p : Projection), f.conditions = [] →
      t.aggregate { f with projection := some p } = p.of (t.rows.entries.map (·.2))) ∧
    ∀ filter, t.Removed (t.delete filter).1 (t.delete filter).2 ∧
      t.delete filter = t.changeRows (fun _ => none) (t.delete filter).1 ∧
      (t.delete filter).2.delete filter = ([], (t.delete filter).2) := by
  refine ⟨fun filter => ⟨t.selects_matchingIds filter, fun _ => rfl⟩, fun f hf => ?_,
    fun filter hfilter => ?_, fun f p hf => t.aggregate_of_no_conditions hf p,
    fun filter => ⟨t.removed_delete filter, t.delete_eq_changeRows filter,
      delete_of_no_match (t.matchingIds_delete filter)⟩⟩
  · refine ⟨fun p => ⟨ids_query_of_conditions hf, rfl, fun _ => rfl⟩,
      fun p => aggregate_of_conditions hf p,
      ⟨_, count_of_conditions hf, rfl, Int64.toInt_ofNat_of_lt⟩, ?_⟩
    rw [← List.map_eq_nil_iff, ids_query_of_conditions hf, matchingIds_delete]
  · have hkeys := t.matchingIds_of_no_conditions hfilter
    exact ⟨hkeys, fun _ => hkeys⟩

/-- Two of the three scores are seven or more. They are counted and deleted under a filter that
projects something else, and a deletion without a filter takes all three. -/
theorem matching_scores :
    sevenUp.conditions ≠ [] ∧
      (scores.delete (some sevenUp)).1 = [.single (.int 1), .single (.int 3)] ∧
      (scores.delete (some sevenUp)).1.length < 1 <<< 63 ∧
      (∃ count : Int64,
        scores.aggregate { sevenUp with projection := some ⟨.count, "*"⟩ } = .ok (.int count) ∧
          count.toInt = 2) ∧
      (scores.delete (some sevenUp)).2.query (some sevenUp) = [] ∧
      (scores.delete (some sevenUp)).2.size + 2 = scores.size ∧
      (scores.delete none).1 = scores.rows.keys := by
  obtain ⟨-, hconditions, hnone, -, hdelete⟩ := scores.matching_agrees
  have hf : sevenUp.conditions ≠ [] := List.cons_ne_nil _ _
  obtain ⟨-, -, ⟨count, hcount, -, hexact⟩, hempty⟩ := hconditions sevenUp hf
  have hids : (scores.delete (some sevenUp)).1 = [.single (.int 1), .single (.int 3)] := by decide
  have hfew : (scores.delete (some sevenUp)).1.length < 1 <<< 63 := by
    rw [hids]
    decide
  have htwo : count.toInt = 2 := by
    rw [hexact hfew, hids]
    rfl
  obtain ⟨⟨-, -, hsize⟩, -⟩ := hdelete (some sevenUp)
  rw [hids] at hsize
  exact ⟨hf, hids, hfew, ⟨count, hcount, htwo⟩, hempty, hsize, (hnone none (by simp)).1⟩

end Table
end KeyedRows
