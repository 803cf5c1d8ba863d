/-
# Aggregates

An aggregate summarises one column over the matching rows, leaving out rows
whose cell is missing or null. Least and greatest follow the total order of
values. A sum of integers is an integer, added up in key order and refused as
soon as it leaves the range of 64 bits; as soon as one float takes part the sum
is a float. Values that are not numbers take no part in sums and averages.
-/

import KeyedRows.Table.Basic

namespace KeyedRows

/-- Why an aggregate has no value. -/
inductive AggregateFault where
  | noProjection
  | sumOverflow (column : String)
deriving DecidableEq, Repr

namespace AggregateFault

def message : AggregateFault → String
  | noProjection => "aggregate requires a projection"
  | sumOverflow column => s!"sum of `{column}` overflows"

def failure (f : AggregateFault) : Failure := ⟨.validation, f.message⟩

end AggregateFault

/-- The value that comes first, or last, in the total order. -/
def extreme (wanted : Ordering) : List Value → Option Value
  | [] => none
  | v :: vs => some (vs.foldl (fun best w => if compare w best = wanted then w else best) v)

/-- The sum of two integers, if it is one of 64 bits. -/
def checkedAdd (a b : Int64) : Option Int64 :=
  let sum := a.toInt + b.toInt
  if sum = (Int64.ofInt sum).toInt then some (Int64.ofInt sum) else none

/-- The integers of a list, if it holds nothing else. -/
def allInts (vs : List Value) : Option (List Int64) :=
  vs.mapM fun
    | .int i => some i
    | _ => none

/-- The sum of numbers, of which there is at least one. -/
def sumNumbers (column : String) (numbers : List Value) : Except AggregateFault Value :=
  match allInts numbers with
  | some ints =>
    match ints.foldlM checkedAdd 0 with
    | some total => .ok (.int total)
    | none => .error (.sumOverflow column)
  | none => .ok (.float (Double.sum (numbers.filterMap (·.asDouble))))

/-- The aggregate of a column over the cells of some rows. -/
def Projection.of (p : Projection) (rows : List Cells) : Except AggregateFault Value :=
  let values := (rows.filterMap (·.get? p.column)).filter (!·.isNull)
  let numbers := values.filter (·.asDouble.isSome)
  match p.aggregate with
  | .count => .ok (.int (Int64.ofNat (if p.column = "*" then rows.length else values.length)))
  | .min => .ok ((extreme .lt values).getD .null)
  | .max => .ok ((extreme .gt values).getD .null)
  | .sum => if numbers.isEmpty then .ok .null else sumNumbers p.column numbers
  | .avg =>
    if numbers.isEmpty then .ok .null
    else do
      let total ← sumNumbers p.column numbers
      let count := Double.ofInt64 (Int64.ofNat numbers.length)
      return .float ((total.asDouble.getD ⟨0⟩).div count)

/-- The aggregate that the filter asks for, over every matching row. -/
def Table.aggregate (t : Table) (filter : Filter) : Except AggregateFault Value :=
  match filter.projection with
  | none => .error .noProjection
  | some p => p.of ((t.scan filter.test).map (·.cells))

end KeyedRows
