/-
# Numbers in digits

Reads text that is nothing but digits of one base, up to sixteen. Letters count
in either case.

Main statement: `le_of_read?`, no number over the limit is read.
-/

import KeyedRows.Hex

namespace KeyedRows
namespace Digits

/-- The number that digits make behind a number that was read before. -/
def readFrom (base before : Nat) : List Char → Option Nat
  | [] => some before
  | c :: cs =>
    match Hex.value? c with
    | some d => if d < base then readFrom base (base * before + d) cs else none
    | none => none

/-- A number of at least one digit that is at most `limit`. -/
def read? (base limit : Nat) (text : List Char) : Option Nat :=
  if text.isEmpty then none else (readFrom base 0 text).filter (· ≤ limit)

@[simp] theorem read?_nil (base limit : Nat) : read? base limit [] = none := rfl

theorem le_of_read? {base limit n : Nat} {text : List Char}
    (h : read? base limit text = some n) : n ≤ limit := by
  unfold read? at h
  split at h
  · simp at h
  · simpa using (Option.filter_eq_some_iff.1 h).2

end Digits
end KeyedRows
