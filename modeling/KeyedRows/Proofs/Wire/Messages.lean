/-
# Everything that travels is read back

Records and enumerations are lawful by their fields and their lists of cases.
Values are lawful variant by variant. Expressions nest, and their reader descends
with a bound on the depth: an expression is taken as soon as its encoding is no
longer than the bound, because each level of nesting costs a byte at least.

Main statement: the instances of `Wire.Lawful`, among them those of `Filter`,
`Request` and `Response`.
-/

import KeyedRows.Proofs.Wire.Lawful
import KeyedRows.Wire.Message

namespace KeyedRows

open Wire

instance : Lawful Double := .ofFields fun _ => rfl

instance : Lawful Value where
  write_ne_nil v := by cases v <;> exact writeVariant_append_ne_nil _ _
  takes_write v h := by
    have hnumber : ∀ n (hn : n < 6), Takes (readVariant 6) (writeVariant n) ⟨n, hn⟩ :=
      fun n hn => takes_variant hn (by decide)
    cases v with
    | null => exact (hnumber 0 (by decide)).bind_nil (.pure Value.null)
    | bool b =>
      have hb := takes_write b (length_lt_of_append h)
      exact (hnumber 1 (by decide)).bind (hb.map Value.bool)
    | int i =>
      have hi := takes_write i (length_lt_of_append h)
      exact (hnumber 2 (by decide)).bind (hi.map Value.int)
    | float x =>
      have hx := takes_write x (length_lt_of_append h)
      exact (hnumber 3 (by decide)).bind (hx.map Value.float)
    | str s =>
      have hs := takes_write s (length_lt_of_append h)
      exact (hnumber 4 (by decide)).bind (hs.map Value.str)
    | bytes b =>
      have hb := takes_blob (length_lt_of_append h)
      exact (hnumber 5 (by decide)).bind (hb.map Value.bytes)

instance : Lawful RowId := .ofFields fun _ => rfl

instance : Lawful Row := .ofFields fun _ => rfl

instance : Lawful ColumnKind := .ofCases ColumnKind.mem_all (by decide)

instance : Lawful Column := .ofFields fun _ => rfl

instance : Lawful Relation := .ofCases Relation.mem_all (by decide)

instance : Lawful Condition := .ofFields fun _ => rfl

/-! ### Expressions -/

namespace Expr

theorem write_ne_nil (e : Expr) : write e ≠ [] := by
  cases e with
  | compare c => exact write_compare c ▸ writeVariant_append_ne_nil _ _
  | and es => exact write_and es ▸ writeVariant_append_ne_nil _ _
  | or es => exact write_or es ▸ writeVariant_append_ne_nil _ _
  | const b => exact write_const b ▸ writeVariant_append_ne_nil _ _

/-- The members of a connective are taken one level deeper, where their encodings still fit. -/
theorem takes_members {depth n : Nat} {es : List Expr}
    (ih : ∀ e : Expr, (write e).length ≤ depth → (write e).length < UInt64.size →
      Takes (readNested depth) (write e) e)
    (hdepth : (writeVariant n ++ write es).length ≤ depth + 1)
    (hsize : (writeVariant n ++ write es).length < UInt64.size) :
    Takes (readListWith (readNested depth)) (write es) es := by
  have hlist : (write es).length = 8 + (es.flatMap write).length := by
    show (writeLength _ ++ _).length = _
    rw [List.length_append, writeLength, Bytes.length_ofNat]
  rw [List.length_append, writeVariant, Bytes.length_ofNat] at hdepth hsize
  have hcount := length_le_flatMap_write write_ne_nil es
  refine takes_list (by omega) fun e he => ?_
  have hmember := length_write_le_flatMap he
  exact ih e (by omega) (by omega)

/-- A reader of bounded depth takes every expression whose encoding is no longer than the bound. -/
theorem takes_readNested {depth : Nat} {e : Expr} (hdepth : (write e).length ≤ depth)
    (hsize : (write e).length < UInt64.size) : Takes (readNested depth) (write e) e := by
  induction depth generalizing e with
  | zero => exact absurd (List.eq_nil_of_length_eq_zero (Nat.le_zero.1 hdepth)) (write_ne_nil e)
  | succ depth ih =>
    have hnumber : ∀ n (hn : n < 4), Takes (readVariant 4) (writeVariant n) ⟨n, hn⟩ :=
      fun n hn => takes_variant hn (by decide)
    cases e with
    | compare c =>
      rw [write_compare] at hsize ⊢
      have hc := takes_write c (length_lt_of_append hsize)
      exact (hnumber 0 (by decide)).bind (hc.map compare)
    | and es =>
      rw [write_and] at hdepth hsize ⊢
      have hes := takes_members (fun _ => ih) hdepth hsize
      exact (hnumber 1 (by decide)).bind (hes.map and)
    | or es =>
      rw [write_or] at hdepth hsize ⊢
      have hes := takes_members (fun _ => ih) hdepth hsize
      exact (hnumber 2 (by decide)).bind (hes.map or)
    | const b =>
      rw [write_const] at hsize ⊢
      have hb := takes_write b (length_lt_of_append hsize)
      exact (hnumber 3 (by decide)).bind (hb.map const)

instance : Lawful Expr where
  write_ne_nil := write_ne_nil
  takes_write _ h := takes_readNested (Nat.le_of_lt h) h

end Expr

instance : Lawful Aggregate := .ofCases Aggregate.mem_all (by decide)

instance : Lawful Projection := .ofFields fun _ => rfl

instance : Lawful Filter := .ofFields fun _ => rfl

/-! ### Messages -/

instance : Lawful FailureKind := .ofCases FailureKind.mem_all (by decide)

instance : Lawful Failure := .ofFields fun _ => rfl

instance : Lawful Operation := .ofCases Operation.mem_all (by decide)

instance : Lawful TableName := .ofFields fun _ => rfl

instance : Lawful Blob where
  write_ne_nil _ := writeLength_append_ne_nil _ _
  takes_write _ h := (takes_blob h).map Blob.mk

instance : Lawful Request := .ofFields fun _ => rfl

instance : Lawful Response := .ofFields fun _ => rfl

instance : Lawful UpdatePayload := .ofFields fun _ => rfl

end KeyedRows
