/-
# What a scan finds

A scan goes through the rows in the order of their keys. It may be cut into
pieces that are scanned apart; joined in their order, the pieces give the same
answer as one pass. What it finds are the rows of the table that pass the test,
each of them once and in the order of the keys.

A query with conditions is such a scan, whatever the size of the table. A query
without conditions is the head of the scan that passes every row, and nothing
else is ever cut short.

Main statements: `mem_scan` and `scan_ascending`, which together say what a scan
is, and `query_exact`.
-/

import KeyedRows.Proofs.Table.History

namespace KeyedRows

namespace Table

/-! ### Rows and entries -/

/-- A row is in the table under its own key if it is one of the entries. -/
theorem get?_id_iff {t : Table} {row : Row} :
    t.get? row.id = some row ↔ (row.id, row.cells) ∈ t.rows.entries := by
  rw [get?, Option.map_eq_some_iff, ← OrderedMap.get?_eq_some_iff]
  constructor
  · rintro ⟨cells, hcells, hrow⟩
    rwa [← congrArg Row.cells hrow]
  · intro hcells
    exact ⟨row.cells, hcells, rfl⟩

theorem mem_passing {test : Cells → Bool} {entries : List (RowId × Cells)} {row : Row} :
    row ∈ passing test entries ↔ (row.id, row.cells) ∈ entries ∧ test row.cells = true := by
  rw [passing, List.mem_map]
  constructor
  · rintro ⟨e, he, rfl⟩
    exact List.mem_filter.1 he
  · intro h
    exact ⟨(row.id, row.cells), List.mem_filter.2 h, rfl⟩

/-- The pieces that entries are cut into, scanned apart and joined in order. -/
theorem passing_flatten (test : Cells → Bool) (pieces : List (List (RowId × Cells))) :
    passing test pieces.flatten = (pieces.map (passing test)).flatten := by
  simp only [passing, List.filter_flatten, List.map_flatten, List.map_map]
  rfl

/-- A test that nothing fails keeps every entry. -/
theorem passing_of_forall {test : Cells → Bool} (h : ∀ cells, test cells = true)
    (entries : List (RowId × Cells)) :
    passing test entries = entries.map fun e => ⟨e.1, e.2⟩ := by
  rw [passing, List.filter_eq_self.2 fun e _ => h e.2]

/-! ### Scans -/

/-- **A scan finds the rows of the table that pass.** -/
theorem mem_scan {t : Table} {test : Cells → Bool} {row : Row} :
    row ∈ t.scan test ↔ t.get? row.id = some row ∧ test row.cells = true := by
  rw [scan_eq_passing, mem_passing, get?_id_iff]

/-- The row is one of the table, and the filter passes it. -/
def Matches (t : Table) (f : Filter) (row : Row) : Prop :=
  t.get? row.id = some row ∧ f.test row.cells = true

theorem matches_iff_mem_scan {t : Table} {f : Filter} {row : Row} :
    t.Matches f row ↔ row ∈ t.scan f.test := mem_scan.symm

/-- **What a scan finds is in the order of the keys.** -/
theorem scan_ascending (t : Table) (test : Cells → Bool) :
    (t.scan test).Pairwise fun a b => compare a.id b.id = .lt := by
  rw [scan_eq_passing, passing, List.pairwise_map]
  exact t.rows.ascending.filter _

/-- Rows in strictly ascending order of their keys are different rows. -/
theorem nodup_of_ascending {rows : List Row}
    (h : rows.Pairwise fun a b => compare a.id b.id = .lt) : rows.Nodup := by
  refine h.imp fun {a b} hlt he => ?_
  subst he
  simp [Std.ReflCmp.compare_self] at hlt

/-- Where a table splits its scans makes no difference. -/
theorem scan_limits (t : Table) (limits : ScanLimits) (test : Cells → Bool) :
    scan { t with limits := limits } test = t.scan test := by
  rw [scan_eq_passing, scan_eq_passing]

/-- A test that nothing fails finds all rows. -/
theorem scan_of_forall (t : Table) {test : Cells → Bool} (h : ∀ cells, test cells = true) :
    t.scan test = t.rows.entries.map fun e => ⟨e.1, e.2⟩ := by
  rw [scan_eq_passing, passing_of_forall h]

theorem length_scan_all (t : Table) : (t.scan Filter.all.test).length = t.size := by
  rw [t.scan_of_forall Filter.test_all, List.length_map]
  rfl

/-- A full scan is the head of the scan that passes every row. -/
theorem firstRows_eq_take (t : Table) (n : Nat) :
    t.firstRows n = (t.scan Filter.all.test).take n := by
  rw [firstRows, passing_of_forall fun _ => rfl, t.scan_of_forall Filter.test_all, List.map_take]

/-! ### The keys of the matching rows -/

/-- The keys that are listed are those of the table whose row matches. -/
theorem matchingIds_eq_filter (t : Table) (filter : Option Filter) :
    t.matchingIds filter = t.rows.keys.filter fun id => t.matching id filter := by
  have hentry : ∀ e ∈ t.rows.entries, passes filter e.2 = t.matching e.1 filter := by
    intro e he
    rw [matching_eq, OrderedMap.get?_eq_some_iff.2 he, Option.any_some]
  rw [matchingIds, scan_eq_passing, passing, List.map_map, List.filter_congr hentry,
    OrderedMap.keys, List.filter_map]
  rfl

theorem mem_matchingIds {t : Table} {filter : Option Filter} {id : RowId} :
    id ∈ t.matchingIds filter ↔ t.matching id filter = true := by
  rw [matchingIds_eq_filter, List.mem_filter, OrderedMap.mem_keys_iff]
  refine ⟨fun h => h.2, fun h => ⟨?_, h⟩⟩
  rw [matching_eq, Option.any_eq_true] at h
  obtain ⟨cells, hcells, -⟩ := h
  exact Option.isSome_of_eq_some hcells

/-- The key of a row that is there is listed if its cells pass. -/
theorem mem_matchingIds_of_get? {t : Table} {filter : Option Filter} {id : RowId} {cells : Cells}
    (h : t.rows.get? id = some cells) :
    id ∈ t.matchingIds filter ↔ passes filter cells = true := by
  rw [mem_matchingIds, matching_eq, h, Option.any_some]

theorem matchingIds_ascending (t : Table) (filter : Option Filter) :
    (t.matchingIds filter).Pairwise fun a b => compare a b = .lt := by
  rw [matchingIds_eq_filter]
  exact t.rows.keys_ascending.filter _

theorem matchingIds_nodup (t : Table) (filter : Option Filter) : (t.matchingIds filter).Nodup := by
  rw [matchingIds_eq_filter]
  exact t.rows.keys_nodup.filter _

/-! ### Queries -/

theorem query_of_conditions {t : Table} {f : Filter} (h : f.conditions ≠ []) :
    t.query (some f) = t.scan f.test := by
  have hsome : f.isUnconditioned = false := List.isEmpty_eq_false_iff.2 h
  rw [query, hsome]
  rfl

/-- The query of all rows is not a full scan. -/
theorem query_all (t : Table) : t.query (some .all) = t.scan Filter.all.test :=
  query_of_conditions (List.cons_ne_nil _ _)

/-- A query without conditions is a full scan, whether there is no filter or one that asks nothing
of a row. -/
theorem query_of_no_conditions {t : Table} {filter : Option Filter}
    (h : ∀ f ∈ filter, f.conditions = []) : t.query filter = t.firstRows t.limits.fullScan := by
  cases filter with
  | none => rfl
  | some f =>
    have hnone : f.isUnconditioned = true := List.isEmpty_iff.2 (h f rfl)
    rw [query, hnone]
    rfl

/-- **What a query returns.** A filter with conditions returns the rows of the table that pass it,
all of them, each once and in the order of the keys, in whatever pieces the table is scanned.
Without conditions the answer is the head of the query for all rows, as long as the table is or as
the limit on full scans allows. The number of rows from which scans are split plays no part. -/
theorem query_exact (t : Table) :
    (∀ f : Filter, f.conditions ≠ [] →
      (t.query (some f)).Pairwise (fun a b => compare a.id b.id = .lt) ∧
      (t.query (some f)).Nodup ∧
      (∀ row, row ∈ t.query (some f) ↔ t.get? row.id = some row ∧ f.test row.cells = true) ∧
      ∀ pieces : List (List (RowId × Cells)), pieces.flatten = t.rows.entries →
        (pieces.map (passing f.test)).flatten = t.query (some f)) ∧
    (t.query (some .all)).length = t.size ∧
    (∀ filter : Option Filter, (∀ f ∈ filter, f.conditions = []) →
      t.query filter = (t.query (some .all)).take (min t.limits.fullScan t.size)) ∧
    ∀ (threshold : Nat) (filter : Option Filter),
      query { t with limits := { t.limits with parallelThreshold := threshold } } filter =
        t.query filter := by
  refine ⟨fun f hf => ?_, ?_, fun filter hfilter => ?_, fun threshold filter => ?_⟩
  · rw [query_of_conditions hf]
    refine ⟨t.scan_ascending _, nodup_of_ascending (t.scan_ascending _), fun row => mem_scan,
      fun pieces hpieces => ?_⟩
    rw [← passing_flatten, hpieces, scan_eq_passing]
  · rw [query_all, length_scan_all]
  · rw [query_of_no_conditions hfilter, firstRows_eq_take, query_all, ← length_scan_all,
      List.take_eq_take_min]
  · cases filter with
    | none => rfl
    | some f =>
      rw [query, query, scan_limits]
      rfl

/-- Three scores, in a table that returns no more than two rows to a full scan and splits scans from
two rows on. -/
def scores : Table :=
  ⟨"scores", [⟨"player", true, .int⟩, ⟨"points", false, .int⟩], ⟨2, 2⟩, OrderedMap.ofList
    [(.single (.int 3), OrderedMap.ofList [("player", .int 3), ("points", .int 7)]),
      (.single (.int 1), OrderedMap.ofList [("player", .int 1), ("points", .int 7)]),
      (.single (.int 2), OrderedMap.ofList [("player", .int 2), ("points", .null)])]⟩

/-- The filter for seven points or more, with a projection that queries leave alone. -/
def sevenUp : Filter := ⟨[.compare ⟨.ge, "points", .int 7⟩], some ⟨.max, "points"⟩⟩

/-- The limit holds for the query that asks nothing and not for the one that asks for points: this
finds the last row, and passes over the row whose points are null. -/
theorem query_scores :
    sevenUp.conditions ≠ [] ∧
      (∃ row ∈ scores.query (some sevenUp), row.id = .single (.int 3)) ∧
      (∀ row ∈ scores.query (some sevenUp), row.id ≠ .single (.int 2)) ∧
      (scores.query (some .all)).length = 3 ∧
      scores.query none = (scores.query (some .all)).take 2 := by
  obtain ⟨hconditions, hall, hfull, -⟩ := scores.query_exact
  have hf : sevenUp.conditions ≠ [] := List.cons_ne_nil _ _
  obtain ⟨-, -, hmem, -⟩ := hconditions sevenUp hf
  refine ⟨hf, ?_, fun row hrow hid => ?_, hall, hfull none (by simp)⟩
  · refine ⟨⟨.single (.int 3), OrderedMap.ofList [("player", .int 3), ("points", .int 7)]⟩, ?_, rfl⟩
    exact (hmem _).2 ⟨by decide, by decide⟩
  · obtain ⟨hget, htest⟩ := (hmem row).1 hrow
    have hnull : scores.get? (.single (.int 2)) =
        some ⟨.single (.int 2), OrderedMap.ofList [("player", .int 2), ("points", .null)]⟩ := by
      decide
    rw [hid, hnull, Option.some.injEq] at hget
    rw [← hget] at htest
    exact absurd htest (by decide)

end Table
end KeyedRows
