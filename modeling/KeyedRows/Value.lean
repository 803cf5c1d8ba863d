/-
# Cell values

A cell holds one of six kinds of value. Two comparisons are defined on them.

* `compare` is the total order that row keys are sorted by. The kinds come in
  the order null, bool, number, string, bytes. Integers and floats are ordered
  together by numeric value, the integer being taken as its nearest double, and
  an integer comes just before the floats that equal it.
* `compare?` is what predicates use. It is partial: null compares with nothing,
  and values of kinds that do not mix compare with nothing either.

What a value gives to a hasher is its variant and its content, bit for bit.

Main statements: `compare` is a total order (the instance of `TransOrd`) and
says "equal" exactly on equal values (the instance of `LawfulEqOrd`).
-/

import KeyedRows.Bytes
import KeyedRows.Double.Decimal
import KeyedRows.Double.Integer
import KeyedRows.Wire.Utf8

namespace KeyedRows

open Std

/-- The content of a cell. -/
inductive Value where
  | null
  | bool (b : Bool)
  | int (i : Int64)
  | float (x : Double)
  | str (s : String)
  | bytes (b : Bytes)
deriving DecidableEq, Repr, Inhabited

namespace Value

/-- There is no value. -/
def isNull : Value → Bool
  | null => true
  | _ => false

/-- The value as a double, if it is a number. -/
def asDouble : Value → Option Double
  | int i => some (.ofInt64 i)
  | float x => some x
  | _ => none

/-- The text of a value. Bytes show only how many they are. -/
def text : Value → String
  | null => "null"
  | bool b => if b then "true" else "false"
  | int i => toString i.toInt
  | float x => x.text
  | str s => s
  | bytes b => s!"<{b.length} bytes>"

/-! ### The total order -/

/-- The place of a kind in the total order; integers and floats share one. -/
def kindRank : Value → Nat
  | null => 0
  | bool _ => 1
  | int _ | float _ => 2
  | str _ => 3
  | bytes _ => 4

/-- The total order. -/
def order : Value → Value → Ordering
  | bool a, bool b => compare a b
  | int a, int b => compare a b
  | float a, float b => compare a b
  | int a, float b => (compare (Double.ofInt64 a) b).then .lt
  | float a, int b => (compare a (Double.ofInt64 b)).then .gt
  | str a, str b => compare a b
  | bytes a, bytes b => compare a b
  | a, b => compare a.kindRank b.kindRank

instance : Ord Value := ⟨order⟩

theorem compare_def (a b : Value) : compare a b = order a b := rfl

/-- The place of a number among the doubles. -/
private def numberRank : Value → Int
  | bool b => b.toInt
  | int i => (Double.ofInt64 i).rank
  | float x => x.rank
  | _ => 0

/-- Separates the integer from the floats that share its place. -/
private def numberKind : Value → Nat
  | float _ => 1
  | _ => 0

private def exactInt : Value → Int
  | int i => i.toInt
  | _ => 0

private def exactStr : Value → String
  | str s => s
  | _ => ""

private def exactBytes : Value → Bytes
  | bytes b => b
  | _ => []

/-- The total order as a lexicographic comparison of six keys. -/
private abbrev keyOrder : Value → Value → Ordering :=
  compareLex (compareOn kindRank) <| compareLex (compareOn numberRank) <|
    compareLex (compareOn numberKind) <| compareLex (compareOn exactInt) <|
      compareLex (compareOn exactStr) (compareOn exactBytes)

private theorem compare_int64 (a b : Int64) : compare a b = compare a.toInt b.toInt := by
  rcases Int.lt_trichotomy a.toInt b.toInt with h | h | h
  · rw [compare_eq_lt.2 h, compare_eq_lt.2 (Int64.lt_iff_toInt_lt.2 h)]
  · obtain rfl := Int64.toInt_inj.1 h
    rw [Std.compare_eq_iff_eq.2 rfl, Std.compare_eq_iff_eq.2 rfl]
  · rw [compare_eq_gt.2 h, compare_eq_gt.2 (Int64.lt_iff_toInt_lt.2 h)]

private theorem compare_int64_eq_then (a b : Int64) :
    compare a b =
      (compare (Double.ofInt64 a).rank (Double.ofInt64 b).rank).then
        (compare a.toInt b.toInt) := by
  rw [compare_int64]
  rcases Int.lt_trichotomy (Double.ofInt64 a).rank (Double.ofInt64 b).rank with h | h | h
  · have hab : a.toInt < b.toInt := by
      refine Int.not_le.1 fun hle => ?_
      have := Double.rank_ofInt64_mono hle
      omega
    rw [compare_eq_lt.2 h, compare_eq_lt.2 hab]; rfl
  · rw [Std.compare_eq_iff_eq.2 h]; rfl
  · have hab : b.toInt < a.toInt := by
      refine Int.not_le.1 fun hle => ?_
      have := Double.rank_ofInt64_mono hle
      omega
    rw [compare_eq_gt.2 h, compare_eq_gt.2 hab]; rfl

private theorem order_eq_keyOrder : order = keyOrder := by
  funext a b
  cases a <;> cases b <;>
    simp [order, keyOrder, compareLex, compareOn, kindRank, numberRank, numberKind, exactInt,
      exactStr, exactBytes, compare_int64_eq_then, Double.compare_def]
  case bool.bool a b => cases a <;> cases b <;> rfl
  all_goals rfl

instance : TransOrd Value where
  eq_swap {a b} := by
    simp only [compare_def, order_eq_keyOrder]
    exact OrientedCmp.eq_swap
  isLE_trans {a b c} := by
    simp only [compare_def, order_eq_keyOrder]
    exact TransCmp.isLE_trans

/-- Only equal values compare as equal. -/
private theorem eq_of_order_eq {a b : Value} (h : order a b = .eq) : a = b := by
  cases a <;> cases b <;> simp [order, kindRank] at h <;> simp [h]

instance : LawfulEqOrd Value where
  compare_self {a} := by
    simp only [compare_def, order_eq_keyOrder]
    exact ReflCmp.compare_self
  eq_of_compare h := eq_of_order_eq h

/-! ### Predicate comparison -/

/-- The comparison that predicates use: defined within bools, numbers, strings and bytes. -/
def compare? : Value → Value → Option Ordering
  | bool a, bool b => some (compare a b)
  | int a, int b => some (compare a b)
  | float a, float b => a.compare? b
  | int a, float b => (Double.ofInt64 a).compare? b
  | float a, int b => a.compare? (Double.ofInt64 b)
  | str a, str b => some (compare a b)
  | bytes a, bytes b => some (compare a b)
  | _, _ => none

/-! ### Hashing -/

/-- What a value writes to a hasher, write by write: the number of its variant, then its content.
Text ends with a byte that no text holds, and bytes begin with how many they are. -/
def hashInput : Value → List Bytes
  | null => [Bytes.ofNat 8 0]
  | bool b => [Bytes.ofNat 8 1, [if b then 1 else 0]]
  | int i => [Bytes.ofNat 8 2, Bytes.ofNat 8 i.toUInt64.toNat]
  | float x => [Bytes.ofNat 8 3, Bytes.ofNat 8 x.bits.toNat]
  | str s => [Bytes.ofNat 8 4, Utf8.encode s, [0xff]]
  | bytes b => [Bytes.ofNat 8 5, Bytes.ofNat 8 b.length, b]

/-! ### Values of ordinary data -/

instance : Coe Bool Value := ⟨bool⟩
instance : Coe Int64 Value := ⟨int⟩
instance : Coe Double Value := ⟨float⟩
instance : Coe String Value := ⟨str⟩
instance : Coe Bytes Value := ⟨bytes⟩

/-- A 32-bit integer, widened with its sign. -/
def ofInt32 (i : Int32) : Value := int i.toInt64

/-- An unsigned 32-bit integer, widened. -/
def ofUInt32 (n : UInt32) : Value := int n.toUInt64.toInt64

/-- An absent value is null. -/
def ofOption {α : Type} (value : α → Value) (x : Option α) : Value := (x.map value).getD null

end Value
end KeyedRows
