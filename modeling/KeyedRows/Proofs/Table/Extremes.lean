/-
# The ends of a column

The least and the greatest value of a column are taken by the total order, while
the conditions of a filter compare by the partial one. The two can disagree about
what is equal: a filter takes the zeros for equal, an integer for its nearest
double, and compares nothing with a NaN. They never disagree about what is
strictly less or greater (`Value.compare_of_compare?`). So nothing that a filter
could ask for lies beyond the greatest value of a column or below the least.

One proof serves both ends: `wanted` is the outcome of a comparison that makes
the later value the better one.

Main statement: `extremes_agree`.
-/

import KeyedRows.Proofs.Table.Matching

namespace KeyedRows

open Std

/-! ### Strict comparisons -/

theorem Double.compare_of_compare? {x y : Double} {o : Ordering} (h : x.compare? y = some o)
    (ho : o ≠ .eq) : compare x y = o := by
  cases o with
  | eq => exact absurd rfl ho
  | lt => exact compare?_eq_some_lt h
  | gt =>
    have hback : y.compare? x = some .lt := by
      rw [compare?] at h ⊢
      rw [Bool.or_comm]
      split at h
      · contradiction
      · rw [Option.some.injEq] at h
        rw [if_neg ‹_›, OrientedOrd.eq_swap, h]
        rfl
    rw [OrientedOrd.eq_swap, compare?_eq_some_lt hback]
    rfl

/-- **A filter that finds one value less or greater than another agrees with the total order.** -/
theorem Value.compare_of_compare? {u v : Value} {o : Ordering} (h : u.compare? v = some o)
    (ho : o ≠ .eq) : compare u v = o := by
  rw [compare_def]
  cases u <;> cases v <;> simp only [compare?, reduceCtorEq, Option.some.injEq] at h
  case int.float a b =>
    rw [order, Double.compare_of_compare? h ho]
    cases o <;> first | rfl | contradiction
  case float.int a b =>
    rw [order, Double.compare_of_compare? h ho]
    cases o <;> first | rfl | contradiction
  case float.float a b => exact Double.compare_of_compare? h ho
  all_goals exact h

/-! ### The value that comes last -/

section Lists
variable {wanted : Ordering} {u v w : Value}

/-- Not to come behind is transitive, and so is not to come before. -/
theorem compare_ne_trans (hwanted : wanted ≠ .eq) (huv : compare u v ≠ wanted)
    (hvw : compare v w ≠ wanted) : compare u w ≠ wanted := by
  cases wanted with
  | eq => exact absurd rfl hwanted
  | lt =>
    have huv : (compare u v).isGE := Ordering.isGE_iff_ne_lt.2 huv
    have hvw : (compare v w).isGE := Ordering.isGE_iff_ne_lt.2 hvw
    exact Ordering.isGE_iff_ne_lt.1 (TransOrd.isGE_trans huv hvw)
  | gt =>
    have huv : (compare u v).isLE := Ordering.isLE_iff_ne_gt.2 huv
    have hvw : (compare v w).isLE := Ordering.isLE_iff_ne_gt.2 hvw
    exact Ordering.isLE_iff_ne_gt.1 (TransOrd.isLE_trans huv hvw)

theorem compare_ne_swap (hwanted : wanted ≠ .eq) (huv : compare u v = wanted) :
    compare v u ≠ wanted := by
  rw [OrientedOrd.eq_swap, huv]
  cases wanted with
  | eq => exact absurd rfl hwanted
  | lt => decide
  | gt => decide

/-- The extreme of a list is one of its members. -/
theorem mem_of_extreme {vs : List Value} (h : extreme wanted vs = some v) : v ∈ vs := by
  cases vs with
  | nil => contradiction
  | cons u vs =>
    rw [extreme, Option.some.injEq] at h
    subst h
    induction vs generalizing u with
    | nil => exact List.mem_singleton_self u
    | cons w vs ih =>
      rw [List.foldl_cons]
      -- the best of the first two takes the place of both
      split
      · exact List.mem_cons_of_mem u (ih w)
      · rcases List.mem_cons.1 (ih u) with hsame | hmem
        · rw [hsame]
          exact List.mem_cons_self
        · exact List.mem_cons_of_mem u (List.mem_cons_of_mem w hmem)

/-- No member of a list comes beyond its extreme. -/
theorem compare_extreme_ne (hwanted : wanted ≠ .eq) {vs : List Value}
    (h : extreme wanted vs = some v) : ∀ w ∈ vs, compare w v ≠ wanted := by
  cases vs with
  | nil => contradiction
  | cons u vs =>
    rw [extreme, Option.some.injEq] at h
    subst h
    induction vs generalizing u with
    | nil =>
      intro w hw
      rw [List.mem_singleton.1 hw, List.foldl_nil, ReflOrd.compare_self]
      exact hwanted.symm
    | cons x vs ih =>
      rw [List.foldl_cons]
      -- whichever of the first two is dropped does not come beyond the one that is kept
      split
      · rename_i hx
        intro w hw
        rcases List.mem_cons.1 hw with rfl | hw
        · exact compare_ne_trans hwanted (compare_ne_swap hwanted hx) (ih x x List.mem_cons_self)
        · exact ih x w hw
      · rename_i hx
        intro w hw
        rcases List.mem_cons.1 hw with rfl | hw
        · exact ih w w List.mem_cons_self
        rcases List.mem_cons.1 hw with rfl | hw
        · exact compare_ne_trans hwanted hx (ih u u List.mem_cons_self)
        · exact ih u w (List.mem_cons_of_mem u hw)

theorem extreme_eq_none_iff {vs : List Value} : extreme wanted vs = none ↔ vs = [] := by
  cases vs <;> simp [extreme]

end Lists

/-! ### Columns -/

namespace Table

/-- The values that a column has in the matching rows, without the nulls, in the order of the
keys. -/
def columnValues (t : Table) (f : Filter) (column : String) : List Value :=
  (((t.scan f.test).map (·.cells)).filterMap (·.get? column)).filter (!·.isNull)

theorem mem_columnValues {t : Table} {f : Filter} {column : String} {v : Value} :
    v ∈ t.columnValues f column ↔
      v ≠ .null ∧ ∃ row, t.Matches f row ∧ row.get? column = some v := by
  have hnull : v.isNull = true ↔ v = .null := Value.isNull_iff
  simp only [matches_iff_mem_scan]
  rw [columnValues, List.mem_filter, List.mem_filterMap, Bool.not_eq_true', ← Bool.not_eq_true,
    hnull, and_comm]
  refine and_congr_right fun _ => ⟨?_, ?_⟩
  · rintro ⟨cells, hcells, hv⟩
    obtain ⟨row, hrow, rfl⟩ := List.mem_map.1 hcells
    exact ⟨row, hrow, hv⟩
  · rintro ⟨row, hrow, hv⟩
    exact ⟨row.cells, List.mem_map_of_mem hrow, hv⟩

/-- A value stands at the end of a column over the rows that match, in the direction that `wanted`
says, and `beyond` is the relation that asks for more. -/
structure IsExtreme (t : Table) (f : Filter) (column : String) (wanted : Ordering)
    (beyond : Relation) (v : Value) : Prop where
  /-- It is null exactly if no matching row has a cell that is not null. -/
  null_iff : v = .null ↔
    ∀ row, t.Matches f row → ∀ w, row.get? column = some w → w = .null
  /-- Otherwise it is the cell of a matching row. -/
  taken : v ≠ .null → ∃ row, t.Matches f row ∧ row.get? column = some v
  /-- No matching row has a cell that comes beyond it in the total order. -/
  outermost : ∀ row, t.Matches f row → ∀ w, row.get? column = some w → w ≠ .null →
    compare w v ≠ wanted
  /-- No matching row passes the condition that asks for a cell beyond it. -/
  nothing_beyond : t.query
    (some { f with conditions := f.conditions ++ [.compare ⟨beyond, column, v⟩] }) = []

/-- A filter with one more condition passes what both pass. -/
theorem scan_eq_nil_of_more {t : Table} {f : Filter} {c : Condition}
    (h : ∀ row, t.Matches f row → c.test row.cells = false) :
    t.query (some { f with conditions := f.conditions ++ [.compare c] }) = [] := by
  rw [query_of_conditions (List.append_ne_nil_of_right_ne_nil _ (List.cons_ne_nil _ _)),
    List.eq_nil_iff_forall_not_mem]
  intro row hrow
  obtain ⟨hget, htest⟩ := mem_scan.1 hrow
  rw [Filter.test, List.all_append, Bool.and_eq_true, List.all_cons, Expr.test] at htest
  have hc := h row ⟨hget, htest.1⟩
  rw [hc] at htest
  exact absurd htest.2 Bool.false_ne_true

theorem isExtreme_of_extreme (t : Table) (f : Filter) (column : String) {wanted : Ordering}
    {beyond : Relation} (hwanted : wanted ≠ .eq)
    (hbeyond : ∀ o, beyond.holds o = true → o = wanted) :
    t.IsExtreme f column wanted beyond
      ((extreme wanted (t.columnValues f column)).getD .null) := by
  cases hextreme : extreme wanted (t.columnValues f column) with
  | none =>
    have hnone : ∀ v, v ∉ t.columnValues f column := by
      rw [extreme_eq_none_iff.1 hextreme]
      exact fun v => List.not_mem_nil
    have hnull : ∀ row, t.Matches f row → ∀ w, row.get? column = some w → w = .null := by
      intro row hrow w hw
      refine Decidable.byContradiction fun hne => ?_
      exact hnone w (mem_columnValues.2 ⟨hne, row, hrow, hw⟩)
    rw [Option.getD_none]
    refine ⟨⟨fun _ => hnull, fun _ => rfl⟩, fun hne => absurd rfl hne,
      fun row hrow w hw hne => absurd (hnull row hrow w hw) hne,
      scan_eq_nil_of_more fun row _ => ?_⟩
    -- nothing compares with null
    have hincomparable : ∀ w : Value, w.compare? .null = none := by
      intro w
      cases w <;> rfl
    rw [Condition.test]
    cases row.cells.get? column <;> simp [hincomparable]
  | some v =>
    obtain ⟨hne, row, hrow, hcell⟩ := mem_columnValues.1 (mem_of_extreme hextreme)
    have hlast : ∀ row, t.Matches f row → ∀ w, row.get? column = some w → w ≠ .null →
        compare w v ≠ wanted := by
      intro row hrow w hw hwne
      exact compare_extreme_ne hwanted hextreme w (mem_columnValues.2 ⟨hwne, row, hrow, hw⟩)
    rw [Option.getD_some]
    refine ⟨⟨fun h => absurd h hne, fun h => absurd (h row hrow v hcell) hne⟩,
      fun _ => ⟨row, hrow, hcell⟩, hlast, scan_eq_nil_of_more fun row hrow => ?_⟩
    rw [Condition.test]
    cases hw : row.cells.get? column with
    | none => rfl
    | some w =>
      rw [Option.bind_some]
      cases hcompare : w.compare? v with
      | none => rfl
      | some o =>
        -- a cell that passed would come beyond the outermost one
        refine Bool.eq_false_iff.2 fun hholds => ?_
        have ho : o = wanted := hbeyond o hholds
        have hwne : w ≠ .null := by
          rintro rfl
          contradiction
        refine hlast row hrow w hw hwne ?_
        rw [Value.compare_of_compare? hcompare (ho ▸ hwanted), ho]

/-- **Least and greatest agree with the conditions of filters.** The greatest value of a column is
null exactly if no matching row has a cell there that is not null. Otherwise it is the cell of a
matching row as it stands, it is the last of these cells in the total order, and no row matches the
filter with the condition added that asks for a greater cell. It is the same with the least value.
The column may hold values of any kinds, integers too large to be doubles, both zeros and NaNs. -/
theorem extremes_agree (t : Table) (f : Filter) (column : String) :
    (∃ greatest, t.aggregate { f with projection := some ⟨.max, column⟩ } = .ok greatest ∧
      t.IsExtreme f column .gt .gt greatest) ∧
    ∃ least, t.aggregate { f with projection := some ⟨.min, column⟩ } = .ok least ∧
      t.IsExtreme f column .lt .lt least := by
  constructor
  · refine ⟨_, rfl, t.isExtreme_of_extreme f column (by decide) fun o ho => ?_⟩
    rwa [Relation.holds, beq_iff_eq] at ho
  · refine ⟨_, rfl, t.isExtreme_of_extreme f column (by decide) fun o ho => ?_⟩
    rwa [Relation.holds, beq_iff_eq] at ho

/-- A column with both zeros, an integer zero and a text. The zeros are equal to a filter, and still
the least of the numbers is `-0`. -/
example :
    let t : Table := ⟨"marks", [⟨"id", true, .int⟩], default, OrderedMap.ofList
      [(.single (.int 1), .ofList [("x", .int 0)]), (.single (.int 2), .ofList [("x", .float ⟨0⟩)]),
        (.single (.int 3), .ofList [("x", .float .negZero)]),
        (.single (.int 4), .ofList [("x", .str "none")])]⟩
    t.aggregate ⟨[], some ⟨.min, "x"⟩⟩ = .ok (.float .negZero) ∧
      t.aggregate ⟨[], some ⟨.max, "x"⟩⟩ = .ok (.str "none") ∧
      t.aggregate ⟨[.compare ⟨.le, "x", .int 0⟩], some ⟨.max, "x"⟩⟩ = .ok (.float ⟨0⟩) := by
  refine ⟨?_, ?_, ?_⟩
  · rfl
  · rfl
  · rfl

end Table
end KeyedRows
