/-
# Filters

A filter is a list of conditions that must all hold, together with an optional
projection that says which aggregate to take over the rows that pass. A
condition is an expression over the cells of one row.

A comparison holds only of a cell that is there and comparable with the given
value: on a missing, null or incomparable cell every operator fails, "not
equal" included, so `ne` is not the negation of `eq`.

Main statements: `Expr.test_and` and `Expr.test_or` read the two connectives as
"all" and "any"; `Filter.test_dedup` says that dropping repeated conditions
keeps the meaning.
-/

import KeyedRows.Row

namespace KeyedRows

/-- How a cell is compared. -/
inductive Relation where
  | eq
  | ne
  | gt
  | ge
  | lt
  | le
deriving DecidableEq, Repr, Inhabited

namespace Relation

/-- Every relation, in the order of their numbers on the wire. -/
def all : List Relation := [eq, ne, gt, ge, lt, le]

theorem mem_all (r : Relation) : r ∈ all := by cases r <;> decide

def name : Relation → String
  | eq => "eq"
  | ne => "ne"
  | gt => "gt"
  | ge => "ge"
  | lt => "lt"
  | le => "le"

/-- The relation holds of operands in the given order. -/
def holds : Relation → Ordering → Bool
  | eq, o => o == .eq
  | ne, o => o != .eq
  | gt, o => o == .gt
  | ge, o => o != .lt
  | lt, o => o == .lt
  | le, o => o != .gt

end Relation

/-- The cell of a column compared with a value. -/
structure Condition where
  relation : Relation
  column : String
  value : Value
deriving DecidableEq, Repr, Inhabited

/-- A missing or incomparable cell fails the condition. -/
def Condition.test (c : Condition) (cells : Cells) : Bool :=
  match (cells.get? c.column).bind (·.compare? c.value) with
  | some o => c.relation.holds o
  | none => false

/-- A predicate on the cells of one row. -/
inductive Expr where
  | compare (c : Condition)
  /-- Every member holds. -/
  | and (es : List Expr)
  /-- Some member holds. -/
  | or (es : List Expr)
  | const (b : Bool)
deriving Repr, Inhabited

namespace Expr

mutual

/-- Equality of expressions is decided member by member. -/
protected def decEq : (a b : Expr) → Decidable (a = b)
  | compare c, compare d =>
    if h : c = d then .isTrue (by rw [h]) else .isFalse (by simp [h])
  | and es, and fs =>
    match Expr.decEqList es fs with
    | .isTrue h => .isTrue (by rw [h])
    | .isFalse h => .isFalse (by simp [h])
  | or es, or fs =>
    match Expr.decEqList es fs with
    | .isTrue h => .isTrue (by rw [h])
    | .isFalse h => .isFalse (by simp [h])
  | const b, const c =>
    if h : b = c then .isTrue (by rw [h]) else .isFalse (by simp [h])
  | compare _, and _ | compare _, or _ | compare _, const _
  | and _, compare _ | and _, or _ | and _, const _
  | or _, compare _ | or _, and _ | or _, const _
  | const _, compare _ | const _, and _ | const _, or _ => .isFalse (by simp)

@[inherit_doc Expr.decEq]
protected def decEqList : (es fs : List Expr) → Decidable (es = fs)
  | [], [] => .isTrue rfl
  | [], _ :: _ | _ :: _, [] => .isFalse (by simp)
  | e :: es, f :: fs =>
    match Expr.decEq e f with
    | .isFalse h => .isFalse (by simp [h])
    | .isTrue h =>
      match Expr.decEqList es fs with
      | .isTrue hs => .isTrue (by rw [h, hs])
      | .isFalse hs => .isFalse (by simp [hs])

end

instance : DecidableEq Expr := Expr.decEq

mutual

/-- The expression holds of the cells. -/
def test : Expr → Cells → Bool
  | compare c, cells => c.test cells
  | and es, cells => testAll es cells
  | or es, cells => testAny es cells
  | const b, _ => b

/-- Every expression holds of the cells. -/
def testAll : List Expr → Cells → Bool
  | [], _ => true
  | e :: es, cells => e.test cells && testAll es cells

/-- Some expression holds of the cells. -/
def testAny : List Expr → Cells → Bool
  | [], _ => false
  | e :: es, cells => e.test cells || testAny es cells

end

theorem testAll_eq_all (es : List Expr) (cells : Cells) :
    testAll es cells = es.all (·.test cells) := by
  induction es with
  | nil => simp [testAll]
  | cons e es ih => simp [testAll, ih]

theorem testAny_eq_any (es : List Expr) (cells : Cells) :
    testAny es cells = es.any (·.test cells) := by
  induction es with
  | nil => simp [testAny]
  | cons e es ih => simp [testAny, ih]

@[simp] theorem test_and (es : List Expr) (cells : Cells) :
    (and es).test cells = es.all (·.test cells) := by
  rw [test, testAll_eq_all]

@[simp] theorem test_or (es : List Expr) (cells : Cells) :
    (or es).test cells = es.any (·.test cells) := by
  rw [test, testAny_eq_any]

end Expr

/-- A summary of one column over several rows. -/
inductive Aggregate where
  | count
  | sum
  | min
  | max
  | avg
deriving DecidableEq, Repr, Inhabited

namespace Aggregate

/-- Every aggregate, in the order of their numbers on the wire. -/
def all : List Aggregate := [count, sum, min, max, avg]

theorem mem_all (a : Aggregate) : a ∈ all := by cases a <;> decide

def name : Aggregate → String
  | count => "Count"
  | sum => "Sum"
  | min => "Min"
  | max => "Max"
  | avg => "Avg"

end Aggregate

/-- Which aggregate to take of which column. Counting the column `*` counts rows. -/
structure Projection where
  aggregate : Aggregate
  column : String
deriving DecidableEq, Repr, Inhabited

/-- Conditions that must all hold, and what to take of the rows that pass. -/
structure Filter where
  conditions : List Expr
  projection : Option Projection
deriving DecidableEq, Repr, Inhabited

namespace Filter

/-- A filter without projection. -/
def ofConditions (es : List Expr) : Filter := ⟨es, none⟩

/-- Passes every row. It has a condition, so it is not the full scan that queries cut short. -/
def all : Filter := ofConditions [.const true]

/-- Passes no row. -/
def nothing : Filter := ofConditions [.const false]

/-- There is no condition. -/
def isUnconditioned (f : Filter) : Bool := f.conditions.isEmpty

/-- Every condition holds of the cells. -/
def test (f : Filter) (cells : Cells) : Bool := f.conditions.all (·.test cells)

theorem test_all (cells : Cells) : all.test cells = true := by
  simp [all, ofConditions, test, Expr.test]

/-- Drops repeated conditions, keeping first occurrences in their order. -/
def dedup (f : Filter) : Filter := { f with conditions := f.conditions.eraseDups }

/-- Dropping repeated conditions keeps the meaning. -/
theorem test_dedup (f : Filter) (cells : Cells) : f.dedup.test cells = f.test cells := by
  rw [Bool.eq_iff_iff]
  simp [test, dedup]

end Filter
end KeyedRows
