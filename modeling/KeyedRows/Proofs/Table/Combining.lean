/-
# Answers to combined conditions

One more condition takes rows away from an answer and changes nothing else: what
is left are the rows that satisfy it, in their old order (`query_push`). So the
conditions of a filter combine like sets of rows, whatever other filters they
are put behind:

| added to a filter | leaves, of its rows |
| --- | --- |
| conditions that it has | all |
| `and es` | what every one of `es` leaves |
| `or es` | those that satisfy one of `es`, or several |
| `lt`, `eq`, `gt` | three parts that share no row |
| `ne`, `le`, `ge` | two of these parts |
| `or [lt, ge]` | all three |

There is no complement. A cell that is missing, null or not comparable with the
value fails all six relations, so the three parts together are the rows with a
comparable cell and not all rows. What makes the parts fit together is that each
relation is a set of outcomes of one and the same comparison
(`merges_compared`).

That repeated conditions can be dropped holds of every operation that takes a
filter, and of filters without conditions too: none is left where there was
none, and at least one where there was one, so a query never comes under the
limit on full scans by it, or out of it.

Main statements: `query_combined` and `dedup_keeps`.
-/

import KeyedRows.Proofs.Filter.Distinct
import KeyedRows.Proofs.Table.Scan
import Mathlib.Data.List.Nodup

namespace KeyedRows

/-! ### Conditions -/

/-- How the cell of a column compares with a value, if it is there and comparable. -/
def Cells.compared? (cells : Cells) (column : String) (v : Value) : Option Ordering :=
  (cells.get? column).bind (·.compare? v)

/-- A relation is a set of outcomes of the comparison. -/
theorem Expr.test_compare (c : Condition) (cells : Cells) :
    (Expr.compare c).test cells =
      (cells.compared? c.column c.value).any c.relation.holds := by
  unfold Expr.test Condition.test
  change _ = ((cells.get? c.column).bind (·.compare? c.value)).any c.relation.holds
  cases (cells.get? c.column).bind (·.compare? c.value) <;> rfl

namespace Filter
variable {f g : Filter}

/-- The filter with one more condition. -/
def push (f : Filter) (e : Expr) : Filter := { f with conditions := f.conditions ++ [e] }

theorem push_conditions_ne_nil (f : Filter) (e : Expr) : (f.push e).conditions ≠ [] := by
  simp [push]

@[simp] theorem test_push (f : Filter) (e : Expr) (cells : Cells) :
    (f.push e).test cells = (f.test cells && e.test cells) := by
  simp [push, test]

theorem conditions_foldl_push (f : Filter) (es : List Expr) :
    (es.foldl push f).conditions = f.conditions ++ es := by
  induction es generalizing f with
  | nil => rw [List.foldl_nil, List.append_nil]
  | cons e es ih => rw [List.foldl_cons, ih, push, List.append_assoc, List.singleton_append]

theorem test_foldl_push (f : Filter) (es : List Expr) (cells : Cells) :
    (es.foldl push f).test cells = (f.test cells && es.all (·.test cells)) := by
  rw [test, conditions_foldl_push, List.all_append, ← test]

/-- Neither the order of the conditions nor how often they come up makes a difference. -/
theorem test_of_same_conditions (h : ∀ e, e ∈ g.conditions ↔ e ∈ f.conditions) (cells : Cells) :
    g.test cells = f.test cells := by
  rw [Bool.eq_iff_iff, test, test, List.all_eq_true, List.all_eq_true]
  exact forall_congr' fun e => by rw [h]

end Filter

namespace Table
variable {t : Table} {f g : Filter}

/-! ### One more condition -/

/-- Rows that are found and pass another test are found by both tests at once. -/
theorem filter_scan (t : Table) (test more : Cells → Bool) :
    (t.scan test).filter (fun row => more row.cells) =
      t.scan fun cells => test cells && more cells := by
  rw [scan_eq_passing, scan_eq_passing, passing, passing, List.filter_map, List.filter_filter]
  congr 2
  funext e
  exact Bool.and_comm ..

/-- Filters with conditions that pass the same cells have the same answer. -/
theorem query_congr (hf : f.conditions ≠ []) (hg : g.conditions ≠ [])
    (h : ∀ cells, g.test cells = f.test cells) : t.query (some g) = t.query (some f) := by
  rw [query_of_conditions hf, query_of_conditions hg, funext h]

/-- **One more condition leaves the rows that satisfy it.** -/
theorem query_push (hf : f.conditions ≠ []) (e : Expr) :
    t.query (some (f.push e)) = (t.query (some f)).filter fun row => e.test row.cells := by
  rw [query_of_conditions (f.push_conditions_ne_nil e), query_of_conditions hf, filter_scan]
  congr 1
  funext cells
  exact f.test_push e cells

/-- Conditions one by one are one conjunction. -/
theorem query_push_and (hf : f.conditions ≠ []) (es : List Expr) :
    t.query (some (f.push (.and es))) = t.query (some (es.foldl .push f)) := by
  have hboth : (es.foldl Filter.push f).conditions ≠ [] := by
    rw [Filter.conditions_foldl_push]
    exact List.append_ne_nil_of_left_ne_nil hf _
  refine query_congr hboth (f.push_conditions_ne_nil _) fun cells => ?_
  rw [Filter.test_push, Expr.test_and, Filter.test_foldl_push]

/-! ### Parts of an answer -/

/-- The rows are those of the parts, all of them, in the order of the keys. -/
structure Merges (parts : List (List Row)) (rows : List Row) : Prop where
  ascending : rows.Pairwise fun a b => compare a.id b.id = .lt
  perm : rows.Perm parts.flatten

namespace Merges
variable {parts : List (List Row)} {rows : List Row}

/-- Parts that are merged share no row, and none comes up twice in a part. -/
theorem disjoint (h : Merges parts rows) :
    (∀ part ∈ parts, part.Nodup) ∧ parts.Pairwise List.Disjoint :=
  List.nodup_flatten.1 (h.perm.nodup_iff.1 (nodup_of_ascending h.ascending))

/-- There is one way to merge parts. -/
theorem iff_eq (h : Merges parts rows) (merged : List Row) :
    Merges parts merged ↔ merged = rows := by
  constructor
  · intro h'
    refine (h'.perm.trans h.perm.symm).eq_of_pairwise (fun a b _ _ hab hba => ?_) h'.ascending
      h.ascending
    rw [Std.OrientedCmp.gt_of_lt hab] at hba
    contradiction
  · rintro rfl
    exact h

end Merges

/-- If what passes a test passes one of several others, and no more than one, the rows that pass are
those of the others. -/
theorem perm_flatten_filter {α : Type} (rows : List α) {tests : List (α → Bool)} {test : α → Bool}
    (h : ∀ row, tests.countP (· row) = (test row).toNat) :
    (rows.filter test).Perm (tests.map fun part => rows.filter part).flatten := by
  induction tests generalizing test with
  | nil =>
    have hnone : ∀ row, test row = false := fun row => Bool.toNat_eq_zero.1 (h row).symm
    rw [List.filter_eq_nil_iff.2 fun row _ => by simp [hnone row]]
    rfl
  | cons first tests ih =>
    -- what the first part leaves over falls into the others
    let left (row : α) : Bool := test row && !first row
    have hcount : ∀ row, tests.countP (· row) + (first row).toNat = (test row).toNat := by
      intro row
      rw [← h row, List.countP_cons]
      cases first row <;> rfl
    have hleft : ∀ row, tests.countP (· row) = (left row).toNat := by
      intro row
      have hrow := hcount row
      cases hf : first row <;> cases ht : test row <;> simp_all [left]
    have hfirst : ∀ row, (first row && test row) = first row := by
      intro row
      have hrow := hcount row
      cases hf : first row <;> cases ht : test row <;> simp_all
    have hsplit := List.filter_append_perm first (rows.filter test)
    simp only [List.filter_filter, hfirst] at hsplit
    rw [List.map_cons, List.flatten_cons]
    refine hsplit.symm.trans (.append_left _ ?_)
    convert ih hleft using 2
    funext row
    exact Bool.and_comm ..

/-! ### Comparisons with one value -/

/-- The rows whose cell compares with the value in one of the given ways. -/
def comparing (rows : List Row) (column : String) (v : Value) (ways : Ordering → Bool) : List Row :=
  rows.filter fun row => (row.cells.compared? column v).any ways

/-- **Ways to compare that are split into parts split the rows.** -/
theorem merges_compared {rows : List Row}
    (hrows : rows.Pairwise fun a b => compare a.id b.id = .lt) (column : String) (v : Value)
    (parts : List (Ordering → Bool)) (ways : Ordering → Bool)
    (h : ∀ o, parts.countP (· o) = (ways o).toNat) :
    Merges (parts.map (comparing rows column v)) (comparing rows column v ways) where
  ascending := hrows.filter _
  perm := by
    let tests := parts.map fun part (row : Row) => (row.cells.compared? column v).any part
    have hperm : (comparing rows column v ways).Perm
        (tests.map fun test => rows.filter test).flatten := by
      refine perm_flatten_filter rows fun row => ?_
      rw [List.countP_map]
      cases hrow : row.cells.compared? column v with
      | none => simp [Function.comp_def, hrow]
      | some o => simpa [Function.comp_def, hrow] using h o
    rwa [List.map_map] at hperm

theorem query_push_compare (hf : f.conditions ≠ []) (r : Relation) (column : String) (v : Value) :
    t.query (some (f.push (.compare ⟨r, column, v⟩))) =
      comparing (t.query (some f)) column v r.holds := by
  rw [query_push hf]
  exact List.filter_congr fun row _ => Expr.test_compare ⟨r, column, v⟩ row.cells

/-- Less, or not less: the cell is comparable. -/
theorem query_push_comparable (hf : f.conditions ≠ []) (column : String) (v : Value) :
    t.query (some (f.push (.or [.compare ⟨.lt, column, v⟩, .compare ⟨.ge, column, v⟩]))) =
      comparing (t.query (some f)) column v fun _ => true := by
  rw [query_push hf]
  refine List.filter_congr fun row _ => ?_
  rw [Expr.test_or]
  simp only [List.any_cons, List.any_nil, Expr.test_compare]
  cases row.cells.compared? column v with
  | none => rfl
  | some o => cases o <;> rfl

theorem mem_comparing_all {rows : List Row} {column : String} {v : Value} {row : Row} :
    row ∈ comparing rows column v (fun _ => true) ↔
      row ∈ rows ∧ ∃ w, row.get? column = some w ∧ (w.compare? v).isSome := by
  rw [comparing, List.mem_filter, Cells.compared?, Row.get?]
  cases row.cells.get? column with
  | none => simp
  | some w => cases hw : w.compare? v <;> simp [hw]

/-! ### Combined conditions -/

/-- **Conditions combine like sets of rows.** Behind a filter with conditions, the order of the
conditions and how often they come up make no difference; a conjunction is its members one by one; a
disjunction leaves the rows that satisfy some member, each once and in the order of the keys.

For each column and value, the rows whose cell is less, equal and greater are three parts without a
common row. Merged in the order of the keys they are the answer to "less, or not less", which is the
rows with a cell that is there and comparable; and the answers for the other three relations are two
parts each, merged. -/
theorem query_combined (t : Table) {f : Filter} (hf : f.conditions ≠ []) :
    (∀ g : Filter, (∀ e, e ∈ g.conditions ↔ e ∈ f.conditions) →
      t.query (some g) = t.query (some f)) ∧
    (∀ es : List Expr,
      t.query (some (f.push (.and es))) = t.query (some (es.foldl .push f))) ∧
    (∀ es : List Expr, let found := t.query (some (f.push (.or es)))
      (∀ row, row ∈ found ↔ row ∈ t.query (some f) ∧ ∃ e ∈ es, e.test row.cells = true) ∧
        found.Pairwise (fun a b => compare a.id b.id = .lt) ∧ found.Nodup) ∧
    ∀ (column : String) (v : Value),
      let found (r : Relation) := t.query (some (f.push (.compare ⟨r, column, v⟩)))
      let either := t.query
        (some (f.push (.or [.compare ⟨.lt, column, v⟩, .compare ⟨.ge, column, v⟩])))
      [found .lt, found .eq, found .gt].Pairwise List.Disjoint ∧
        (∀ row, row ∈ either ↔ row ∈ t.query (some f) ∧
          ∃ w, row.get? column = some w ∧ (w.compare? v).isSome) ∧
        ∀ merged, (Merges [found .lt, found .eq, found .gt] merged ↔ merged = either) ∧
          (Merges [found .lt, found .gt] merged ↔ merged = found .ne) ∧
          (Merges [found .eq, found .gt] merged ↔ merged = found .ge) ∧
          (Merges [found .lt, found .eq] merged ↔ merged = found .le) := by
  have hrows : (t.query (some f)).Pairwise fun a b => compare a.id b.id = .lt := by
    rw [query_of_conditions hf]
    exact t.scan_ascending _
  refine ⟨fun g hg => ?_, query_push_and hf, fun es => ?_, fun column v => ?_⟩
  · have hgs : g.conditions ≠ [] := by
      obtain ⟨e, he⟩ := List.exists_mem_of_ne_nil _ hf
      exact List.ne_nil_of_mem ((hg e).2 he)
    exact query_congr hf hgs (Filter.test_of_same_conditions hg)
  · simp only [query_push hf, Expr.test_or]
    have hascending := hrows.filter fun row => es.any (·.test row.cells)
    refine ⟨fun row => ?_, hascending, nodup_of_ascending hascending⟩
    rw [List.mem_filter, List.any_eq_true]
  · simp only [query_push_compare hf, query_push_comparable hf]
    have hthree := merges_compared hrows column v
      [Relation.lt.holds, Relation.eq.holds, Relation.gt.holds] (fun _ => true) (by decide)
    have hne := merges_compared hrows column v
      [Relation.lt.holds, Relation.gt.holds] Relation.ne.holds (by decide)
    have hge := merges_compared hrows column v
      [Relation.eq.holds, Relation.gt.holds] Relation.ge.holds (by decide)
    have hle := merges_compared hrows column v
      [Relation.lt.holds, Relation.eq.holds] Relation.le.holds (by decide)
    exact ⟨hthree.disjoint.2, fun row => mem_comparing_all, fun merged =>
      ⟨hthree.iff_eq merged, hne.iff_eq merged, hge.iff_eq merged, hle.iff_eq merged⟩⟩

/-- Six gauges: readings of both kinds of number, a NaN, a null, a text, and one without reading. -/
def gauges : Table :=
  ⟨"gauges", [⟨"no", true, .int⟩, ⟨"level", false, .any⟩], ⟨2, 4⟩, OrderedMap.ofList
    [(.single (.int 1), OrderedMap.ofList [("no", .int 1), ("level", .int 5)]),
      (.single (.int 2), OrderedMap.ofList [("no", .int 2), ("level", .float ⟨0x7ff8000000000000⟩)]),
      (.single (.int 3), OrderedMap.ofList [("no", .int 3), ("level", .int 4)]),
      (.single (.int 4), OrderedMap.ofList [("no", .int 4), ("level", .null)]),
      (.single (.int 5), OrderedMap.ofList [("no", .int 5), ("level", .float ⟨0x4014000000000000⟩)]),
      (.single (.int 6), OrderedMap.ofList [("no", .int 6)])]⟩

/-- Of the gauges from the second on, one reads less than five and one reads five, as a float. The
others cannot be compared, so that neither "less" nor "not less" finds them. -/
theorem query_gauges :
    let f : Filter := .ofConditions [.compare ⟨.ge, "no", .int 2⟩]
    let found (r : Relation) := gauges.query (some (f.push (.compare ⟨r, "level", .int 5⟩)))
    f.conditions ≠ [] ∧
      gauges.query (some ⟨f.conditions ++ f.conditions, none⟩) = gauges.query (some f) ∧
      ((gauges.query (some f)).map (·.id) = [2, 3, 4, 5, 6].map fun i => .single (.int i)) ∧
      ((found .lt).map (·.id) = [.single (.int 3)] ∧ (found .eq).map (·.id) = [.single (.int 5)] ∧
        found .gt = []) ∧
      ((found .le).map (·.id)).Perm [.single (.int 3), .single (.int 5)] := by
  intro f found
  have hf : f.conditions ≠ [] := List.cons_ne_nil _ _
  obtain ⟨hsame, -, -, hparts⟩ := gauges.query_combined hf
  obtain ⟨-, -, hmerges⟩ := hparts "level" (.int 5)
  have hlt : (found .lt).map (·.id) = [.single (.int 3)] := by decide
  have heq : (found .eq).map (·.id) = [.single (.int 5)] := by decide
  refine ⟨hf, hsame _ fun e => by simp, by decide, ⟨hlt, heq, by decide⟩, ?_⟩
  have hmerged := ((hmerges (found .le)).2.2.2.2 rfl).perm.map (·.id)
  rw [List.flatten_cons, List.flatten_cons, List.flatten_nil, List.append_nil, List.map_append]
    at hmerged
  rwa [hlt, heq] at hmerged

/-! ### Repeated conditions -/

/-- Operations that match rows see no repetitions. -/
theorem passes_dedup (f : Filter) : passes (some f.dedup) = passes (some f) := by
  funext cells
  rw [passes, Option.all_some, passes, Option.all_some, f.test_dedup]

theorem query_dedup (t : Table) (f : Filter) : t.query (some f.dedup) = t.query (some f) := by
  by_cases hf : f.conditions = []
  · have hdedup : f.dedup.conditions = [] := Filter.dedup_conditions_eq_nil.2 hf
    rw [query_of_no_conditions (by simpa using hdedup), query_of_no_conditions (by simpa using hf)]
  · exact query_congr hf (mt Filter.dedup_conditions_eq_nil.1 hf) f.test_dedup

/-- **Dropping repeated conditions keeps the meaning.** The projection stays, and of the conditions
the first occurrences, as one pass with a set of seen conditions keeps them. Conditions are the same
if they are equal, floats bit for bit. Doing it again changes nothing; there are conditions
afterwards if there were before; and no operation on a table can tell the two filters apart, neither
by its answer nor by the table that it leaves. -/
theorem dedup_keeps (f : Filter) :
    f.dedup.projection = f.projection ∧
    (f.dedup.conditions = Filter.retainUnseen [] f.conditions ∧
      ∀ es, FirstOccurrences f.conditions es ↔ es = f.dedup.conditions) ∧
    (∀ d e : Expr, d.same e ↔ d = e) ∧
    (∀ (r : Relation) (column : String) (x y : Double),
      (Expr.compare ⟨r, column, .float x⟩).same (.compare ⟨r, column, .float y⟩) ↔
        x.bits = y.bits) ∧
    f.dedup.dedup = f.dedup ∧
    f.dedup.isUnconditioned = f.isUnconditioned ∧
    ∀ t : Table,
      t.act (.query (some f.dedup)) = t.act (.query (some f)) ∧
      (∀ patch, t.act (.update (some f.dedup) patch) = t.act (.update (some f) patch)) ∧
      t.act (.delete (some f.dedup)) = t.act (.delete (some f)) ∧
      t.act (.aggregate f.dedup) = t.act (.aggregate f) := by
  have hunconditioned : f.dedup.isUnconditioned = f.isUnconditioned := by
    rw [Bool.eq_iff_iff, Filter.isUnconditioned, Filter.isUnconditioned, List.isEmpty_iff,
      List.isEmpty_iff, Filter.dedup_conditions_eq_nil]
  refine ⟨rfl, f.dedup_conditions, fun d e => Expr.same_iff, fun r column x y => ?_, f.dedup_dedup,
    hunconditioned, fun t => ⟨?_, fun patch => ?_, ?_, ?_⟩⟩
  · rw [Expr.same_iff]
    cases x
    cases y
    simp
  · simp only [act, query_dedup]
  · simp only [act, update, matchingIds, passes_dedup]
  · simp only [act, delete, matchingIds, passes_dedup]
  · have haggregate : t.aggregate f.dedup = t.aggregate f := by
      rw [aggregate, aggregate, funext f.test_dedup]
      rfl
    simp only [act, haggregate]

/-- An integer, the float that equals it and a NaN are three conditions; the second NaN is the same as
the first. -/
example :
    let level (v : Value) : Expr := .compare ⟨.eq, "level", v⟩
    let one := level (.int 1)
    let oneFloat := level (.float ⟨0x3ff0000000000000⟩)
    let nan := level (.float ⟨0x7ff8000000000000⟩)
    (Filter.ofConditions [one, oneFloat, nan, one, nan]).dedup.conditions =
      [one, oneFloat, nan] := by
  decide

end Table
end KeyedRows
