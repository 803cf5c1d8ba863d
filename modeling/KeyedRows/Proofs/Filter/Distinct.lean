/-
# Each condition once

Dropping repeated conditions goes through the list and keeps a condition that is
not the same as one seen before. What is left are the members of the list, each
at the place where it first comes up (`FirstOccurrences`); no other list has
them in that order.

Which conditions are the same is asked of their variants and members, and of
values by their total order, so it is equality: `1` and `1.0` are two
conditions, and so are the zeros of either sign, while a NaN is the same as the
NaN of the same bits. This matters in both directions. Were the comparison
coarser, a condition with another meaning could be dropped; were a NaN not the
same as itself, it would never be.

Main statements: `firstOccurrences_eraseDups` and `dedup_conditions`.
-/

import KeyedRows.Proofs.FilterCache.Transparency
import Mathlib.Data.Finset.Card

namespace KeyedRows

section Lists
variable {α : Type} [DecidableEq α]

/-! ### Lists without repetitions -/

/-- A member at the end counts if it has not come up before. -/
theorem eraseDups_concat (xs : List α) (x : α) :
    (xs ++ [x]).eraseDups = if x ∈ xs then xs.eraseDups else xs.eraseDups ++ [x] := by
  rw [List.eraseDups_append]
  by_cases h : x ∈ xs
  · simp [h, List.removeAll]
  · simp [h, List.removeAll, List.eraseDups_cons]

/-- The members of a list, each once, in the order in which they first come up. -/
structure FirstOccurrences (xs ys : List α) : Prop where
  mem_iff : ∀ x, x ∈ ys ↔ x ∈ xs
  ascending : ys.Pairwise fun x y => xs.idxOf x < xs.idxOf y

namespace FirstOccurrences
variable {xs ys zs : List α}

theorem nodup (h : FirstOccurrences xs ys) : ys.Nodup := by
  refine h.ascending.imp fun hlt heq => ?_
  rw [heq] at hlt
  exact absurd hlt (lt_irrefl _)

/-- A list has one list of first occurrences. -/
theorem iff_eq (h : FirstOccurrences xs ys) : FirstOccurrences xs zs ↔ zs = ys := by
  constructor
  · intro h'
    have hperm : zs.Perm ys := (List.perm_ext_iff_of_nodup h'.nodup h.nodup).2 fun x => by
      rw [h.mem_iff, h'.mem_iff]
    exact hperm.eq_of_pairwise (fun _ _ _ _ hlt hgt => absurd hlt hgt.asymm) h'.ascending
      h.ascending
  · rintro rfl
    exact h

end FirstOccurrences

/-- **Dropping repetitions keeps the first occurrences.** -/
theorem firstOccurrences_eraseDups (xs : List α) : FirstOccurrences xs xs.eraseDups where
  mem_iff _ := List.mem_eraseDups
  ascending := by
    induction xs using List.reverseRecOn with
    | nil => exact .nil
    | append_singleton xs x ih =>
      have hold : xs.eraseDups.Pairwise fun y z => (xs ++ [x]).idxOf y < (xs ++ [x]).idxOf z := by
        refine ih.imp_of_mem fun hy hz hlt => ?_
        rwa [List.idxOf_append_of_mem (List.mem_eraseDups.1 hy),
          List.idxOf_append_of_mem (List.mem_eraseDups.1 hz)]
      rw [eraseDups_concat]
      by_cases h : x ∈ xs
      · rwa [if_pos h]
      · rw [if_neg h, List.pairwise_append]
        refine ⟨hold, List.pairwise_singleton .., fun y hy z hz => ?_⟩
        -- what has come up before has a place in the old list, which ends before the new member
        obtain rfl := List.mem_singleton.1 hz
        have hy := List.mem_eraseDups.1 hy
        rw [List.idxOf_append_of_mem hy, List.idxOf_append_of_notMem h]
        exact Nat.lt_of_lt_of_le (List.idxOf_lt_length_of_mem hy) (Nat.le_add_right ..)

theorem nodup_eraseDups (xs : List α) : xs.eraseDups.Nodup := (firstOccurrences_eraseDups xs).nodup

/-- Where nothing repeats, nothing is dropped. -/
theorem eraseDups_of_nodup {xs : List α} (h : xs.Nodup) : xs.eraseDups = xs := by
  induction xs using List.reverseRecOn with
  | nil => rfl
  | append_singleton xs x ih =>
    obtain ⟨hxs, -, hdisjoint⟩ := List.nodup_append.1 h
    have hnew : x ∉ xs := fun hx => hdisjoint x hx x (List.mem_singleton_self x) rfl
    rw [eraseDups_concat, if_neg hnew, ih hxs]

/-- Dropping members and dropping repetitions can change places. -/
theorem eraseDups_filter (p : α → Bool) (xs : List α) :
    (xs.filter p).eraseDups = xs.eraseDups.filter p := by
  induction xs using List.reverseRecOn with
  | nil => rfl
  | append_singleton xs x ih =>
    rw [List.filter_append, eraseDups_concat]
    by_cases hp : p x = true
    · rw [List.filter_cons_of_pos hp, List.filter_nil, eraseDups_concat, ih]
      by_cases hx : x ∈ xs <;> simp [hx, hp, List.filter_append]
    · rw [List.filter_cons_of_neg hp, List.filter_nil, List.append_nil, ih]
      by_cases hx : x ∈ xs <;> simp [hx, hp, List.filter_append]

/-- A member in front takes the place of its later occurrences. -/
theorem eraseDups_cons (x : α) (xs : List α) :
    (x :: xs).eraseDups = x :: xs.eraseDups.filter (· ≠ x) := by
  rw [List.eraseDups_cons, ← eraseDups_filter]
  congr 3
  funext y
  simp [beq_eq_decide]

/-- There are as many members as there are different ones in the list. -/
theorem length_eraseDups (xs : List α) : xs.eraseDups.length = xs.toFinset.card := by
  rw [← List.toFinset_card_of_nodup (nodup_eraseDups xs)]
  congr 1
  ext x
  rw [List.mem_toFinset, List.mem_toFinset, List.mem_eraseDups]

end Lists

/-! ### Conditions -/

namespace Filter

/-- The conditions that are not the same as one seen before, each of them seen from then on. -/
def retainUnseen (seen : List Expr) : List Expr → List Expr
  | [] => []
  | e :: es =>
    if seen.any e.same then retainUnseen seen es else e :: retainUnseen (e :: seen) es

/-- What was seen before is taken out, of the rest the repetitions are dropped. -/
theorem retainUnseen_eq (seen es : List Expr) :
    retainUnseen seen es = (es.filter (· ∉ seen)).eraseDups := by
  induction es generalizing seen with
  | nil => rfl
  | cons e es ih =>
    have hseen : seen.any e.same = true ↔ e ∈ seen := by
      simp only [List.any_eq_true, Expr.same_iff, exists_eq_right']
    rw [retainUnseen]
    by_cases h : e ∈ seen
    · rw [if_pos (hseen.2 h), ih, List.filter_cons_of_neg (by simpa using h)]
    · rw [if_neg (mt hseen.1 h), ih, List.filter_cons_of_pos (by simpa using h),
        List.eraseDups_cons, List.filter_filter]
      congr 3
      funext d
      simp [beq_eq_decide]

/-- **The conditions that are left** are those that one pass with a set of seen conditions keeps:
the first occurrences. -/
theorem dedup_conditions (f : Filter) :
    f.dedup.conditions = retainUnseen [] f.conditions ∧
      ∀ es, FirstOccurrences f.conditions es ↔ es = f.dedup.conditions := by
  refine ⟨?_, fun es => (firstOccurrences_eraseDups f.conditions).iff_eq⟩
  rw [retainUnseen_eq, List.filter_eq_self.2 fun e _ => by simp]
  rfl

theorem mem_dedup {f : Filter} {e : Expr} : e ∈ f.dedup.conditions ↔ e ∈ f.conditions :=
  List.mem_eraseDups

theorem dedup_dedup (f : Filter) : f.dedup.dedup = f.dedup :=
  congrArg (Filter.mk · f.projection) (eraseDups_of_nodup (nodup_eraseDups f.conditions))

theorem dedup_conditions_eq_nil {f : Filter} : f.dedup.conditions = [] ↔ f.conditions = [] := by
  rw [List.eq_nil_iff_forall_not_mem, List.eq_nil_iff_forall_not_mem]
  exact forall_congr' fun e => by rw [mem_dedup]

end Filter
end KeyedRows
