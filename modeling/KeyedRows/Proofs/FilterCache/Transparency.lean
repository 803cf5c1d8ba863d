/-
# A cache that cannot be told from encoding

Whether a filter is encoded or its bytes are still at hand makes no difference
to the bytes. What has to be excluded is a stale hit: an entry that is found for
a filter it does not belong to.

An entry is found by comparing filters member by member, and values by their
total order. That comparison is no coarser than the encoding, since values that
compare as equal are the same variant with the same content: `1` is not `1.0`,
the zeros differ, and every NaN is its own (`Filter.same_iff`). And every entry
is a pair of a filter and a buffer that was handed out before, so it holds what
was encoded for its filter; which entries give way plays no part in this. The
invariant is `Handed`; every use of the cache keeps it (`Handed.encode`,
`Handed.clear`), hence every list of uses (`Handed.run`).

Main statement: `run_transparent`.
-/

import KeyedRows.FilterCache

namespace KeyedRows

open Std

/-! ### Which filters are the same -/

/-- The relation and the column are equal, and the values compare as equal. -/
def Condition.same (c d : Condition) : Bool :=
  c.relation == d.relation && c.column == d.column && compare c.value d.value == .eq

theorem Condition.same_iff {c d : Condition} : c.same d ↔ c = d := by
  cases c
  cases d
  simp [same, and_assoc]

namespace Expr

mutual

/-- Expressions are the same variant and have the same members in the same order. -/
def same : Expr → Expr → Bool
  | compare c, compare d => c.same d
  | and es, and fs => sameAll es fs
  | or es, or fs => sameAll es fs
  | const b, const c => b == c
  | _, _ => false

@[inherit_doc same]
def sameAll : List Expr → List Expr → Bool
  | [], [] => true
  | e :: es, f :: fs => e.same f && sameAll es fs
  | _, _ => false

end

mutual

theorem same_iff : ∀ {e f : Expr}, e.same f ↔ e = f
  | compare c, compare d => by rw [same, Condition.same_iff, compare.injEq]
  | and es, and fs => by rw [same, sameAll_iff, and.injEq]
  | or es, or fs => by rw [same, sameAll_iff, or.injEq]
  | const b, const c => by rw [same, beq_iff_eq, const.injEq]
  | compare _, and _ | compare _, or _ | compare _, const _
  | and _, compare _ | and _, or _ | and _, const _
  | or _, compare _ | or _, and _ | or _, const _
  | const _, compare _ | const _, and _ | const _, or _ => by simp [same]

theorem sameAll_iff : ∀ {es fs : List Expr}, sameAll es fs ↔ es = fs
  | [], [] => by simp [sameAll]
  | [], _ :: _ | _ :: _, [] => by simp [sameAll]
  | e :: es, f :: fs => by
    rw [sameAll, Bool.and_eq_true, same_iff, sameAll_iff, List.cons.injEq]

end

end Expr

/-- The conditions are the same one by one, and so is the projection. -/
def Filter.same (f g : Filter) : Bool :=
  Expr.sameAll f.conditions g.conditions && f.projection == g.projection

/-- **Only equal filters are the same.** -/
theorem Filter.same_iff {f g : Filter} : f.same g ↔ f = g := by
  cases f
  cases g
  simp [same, Expr.sameAll_iff]

namespace FilterCache

/-- An entry is found by comparing filters. -/
theorem find?_eq_same (c : FilterCache) (f : Filter) :
    c.find? f = (c.entries.find? fun e => e.1.same f).map (·.2) := by
  have hkey : (fun e : Filter × Buffer => decide (e.1 = f)) = fun e => e.1.same f :=
    funext fun e => by rw [Bool.eq_iff_iff, decide_eq_true_iff, Filter.same_iff]
  rw [find?, hkey]

/-! ### Uses of a cache -/

/-- What is asked of a cache. -/
inductive Use where
  | encode (f : Filter)
  | clear
deriving DecidableEq, Repr

/-- The filter that is to be encoded. -/
def Use.filter? : Use → Option Filter
  | encode f => some f
  | clear => none

/-- Uses one after another: each filter with the buffer that was handed out for it, and the cache
that is left. -/
def run (c : FilterCache) : List Use → List (Filter × Buffer) × FilterCache
  | [] => ([], c)
  | .encode f :: uses =>
    let rest := (c.encode f).2.run uses
    ((f, (c.encode f).1) :: rest.1, rest.2)
  | .clear :: uses => c.clear.run uses

/-- What a cache and the pairs that it handed out have in common. -/
structure Handed (c : FilterCache) (past : List (Filter × Buffer)) : Prop where
  bytes : ∀ a ∈ past, a.2.bytes = Wire.encode a.1
  /-- An entry is a pair that was handed out. -/
  entries : ∀ e ∈ c.entries, e ∈ past
  serial : ∀ a ∈ past, a.2.serial < c.misses
  shared : ∀ a ∈ past, ∀ b ∈ past, a.2.serial = b.2.serial → a = b
  size : c.size ≤ c.capacity
  counted : c.hits + c.misses = past.length

namespace Handed

variable {c : FilterCache} {past : List (Filter × Buffer)}

theorem create (capacity : Nat) : Handed (create capacity) [] := by
  constructor <;> simp [FilterCache.create, FilterCache.size]

/-- What is handed out from an entry was handed out before. -/
theorem hit (h : Handed c past) {f : Filter} {buffer : Buffer} (hmem : (f, buffer) ∈ c.entries) :
    Handed { c with
      entries := (f, buffer) :: c.entries.filter (fun e => e.1 ≠ f)
      hits := c.hits + 1 } (past ++ [(f, buffer)]) := by
  have hpast : ∀ a ∈ past ++ [(f, buffer)], a ∈ past := by
    intro a ha
    rcases List.mem_append.1 ha with ha | ha
    · exact ha
    · exact List.mem_singleton.1 ha ▸ h.entries _ hmem
  constructor
  case bytes => exact fun a ha => h.bytes a (hpast a ha)
  case entries =>
    intro e he
    rcases List.mem_cons.1 he with rfl | he
    · exact List.mem_append_right _ (List.mem_singleton_self _)
    · exact List.mem_append_left _ (h.entries e (List.mem_filter.1 he).1)
  case serial => exact fun a ha => h.serial a (hpast a ha)
  case shared => exact fun a ha b hb => h.shared a (hpast a ha) b (hpast b hb)
  case size =>
    -- the entry of the filter leaves its old place
    have hless : (c.entries.filter fun e => e.1 ≠ f).length < c.entries.length :=
      List.length_filter_lt_length_iff_exists.2 ⟨_, hmem, by simp⟩
    have hsize := h.size
    simp only [FilterCache.size, List.length_cons] at hsize ⊢
    omega
  case counted =>
    have hcounted := h.counted
    simp only [List.length_append, List.length_singleton]
    omega

/-- A new buffer has a number of its own. -/
theorem miss (h : Handed c past) (f : Filter) :
    Handed { c with
      entries := ((f, ⟨Wire.encode f, c.misses⟩) :: c.entries).take c.capacity
      misses := c.misses + 1 } (past ++ [(f, ⟨Wire.encode f, c.misses⟩)]) := by
  have hcases : ∀ a ∈ past ++ [(f, ⟨Wire.encode f, c.misses⟩)],
      a ∈ past ∨ a = (f, ⟨Wire.encode f, c.misses⟩) := fun a ha =>
    (List.mem_append.1 ha).imp_right List.mem_singleton.1
  constructor
  case bytes =>
    intro a ha
    rcases hcases a ha with ha | rfl
    · exact h.bytes a ha
    · rfl
  case entries =>
    intro e he
    rcases List.mem_cons.1 (List.mem_of_mem_take he) with rfl | he
    · exact List.mem_append_right _ (List.mem_singleton_self _)
    · exact List.mem_append_left _ (h.entries e he)
  case serial =>
    intro a ha
    rcases hcases a ha with ha | rfl
    · exact Nat.lt_succ_of_lt (h.serial a ha)
    · exact Nat.lt_succ_self _
  case shared =>
    intro a ha b hb hserial
    rcases hcases a ha with ha | rfl <;> rcases hcases b hb with hb | rfl
    · exact h.shared a ha b hb hserial
    · exact absurd hserial (Nat.ne_of_lt (h.serial a ha))
    · exact absurd hserial.symm (Nat.ne_of_lt (h.serial b hb))
    · rfl
  case size => exact List.length_take_le _ _
  case counted =>
    have hcounted := h.counted
    simp only [List.length_append, List.length_singleton]
    omega

theorem encode (h : Handed c past) (f : Filter) :
    Handed (c.encode f).2 (past ++ [(f, (c.encode f).1)]) := by
  rcases c.encode_cases f with ⟨buffer, hmem, heq⟩ | ⟨-, heq⟩
  · rw [heq]
    exact h.hit hmem
  · rw [heq]
    exact h.miss f

/-- Forgetting the entries takes nothing back. -/
theorem clear (h : Handed c past) : Handed c.clear past where
  bytes := h.bytes
  entries := fun _ he => absurd he List.not_mem_nil
  serial := h.serial
  shared := h.shared
  size := Nat.zero_le _
  counted := h.counted

theorem run (h : Handed c past) (uses : List Use) :
    Handed (c.run uses).2 (past ++ (c.run uses).1) := by
  induction uses generalizing c past with
  | nil => simpa [FilterCache.run] using h
  | cons u uses ih =>
    cases u with
    | encode f => simpa [FilterCache.run] using ih (h.encode f)
    | clear => exact ih h.clear

end Handed

theorem capacity_encode (c : FilterCache) (f : Filter) : (c.encode f).2.capacity = c.capacity := by
  rcases c.encode_cases f with ⟨buffer, -, heq⟩ | ⟨-, heq⟩ <;> rw [heq]

@[simp] theorem capacity_run (c : FilterCache) (uses : List Use) :
    (c.run uses).2.capacity = c.capacity := by
  induction uses generalizing c with
  | nil => rfl
  | cons u uses ih =>
    cases u with
    | encode f => exact (ih _).trans (c.capacity_encode f)
    | clear => exact ih c.clear

/-- Every filter that is to be encoded is answered, in turn. -/
theorem filters_run (c : FilterCache) (uses : List Use) :
    (c.run uses).1.map (·.1) = uses.filterMap Use.filter? := by
  induction uses generalizing c with
  | nil => rfl
  | cons u uses ih =>
    cases u with
    | encode f => simp [FilterCache.run, Use.filter?, ih]
    | clear => exact ih c.clear

/-- What can be seen of a cache from outside is what encoding each filter anew would give. -/
structure Transparent (capacity : Nat) (uses : List Use) (answers : List (Filter × Buffer))
    (c : FilterCache) : Prop where
  /-- Each filter is answered, in turn, with the bytes of its own encoding. -/
  answered : answers.map (fun a => (a.1, a.2.bytes)) =
    (uses.filterMap Use.filter?).map fun f => (f, Wire.encode f)
  /-- One buffer answers one filter only. -/
  shared : ∀ a ∈ answers, ∀ b ∈ answers, a.2.serial = b.2.serial → a.1 = b.1 ∧ a.2 = b.2
  /-- An entry is found by comparing filters, and holds the bytes of every filter it is found for. -/
  found : ∀ f, c.find? f = (c.entries.find? fun e => e.1.same f).map (·.2) ∧
    ∀ e ∈ c.entries, e.1.same f → e.2.bytes = Wire.encode f
  bounded : c.size ≤ max capacity 1
  counted : c.hits + c.misses = (uses.filterMap Use.filter?).length

/-- **No cache shows in the bytes.** Whatever room there is and whatever was encoded, pushed out and
forgotten before, each filter is answered with the bytes of its own encoding, and one buffer never
answers two filters. There are never more entries than there is room for, and every encoding counts
as a hit or as a miss. -/
theorem run_transparent (capacity : Nat) (uses : List Use) :
    Transparent capacity uses ((create capacity).run uses).1 ((create capacity).run uses).2 := by
  have h := (Handed.create capacity).run uses
  rw [List.nil_append] at h
  have hfilters := filters_run (create capacity) uses
  constructor
  case answered =>
    rw [← hfilters, List.map_map]
    exact List.map_congr_left fun a ha => Prod.ext rfl (h.bytes a ha)
  case shared =>
    intro a ha b hb hserial
    obtain rfl := h.shared a ha b hb hserial
    exact ⟨rfl, rfl⟩
  case found =>
    refine fun f => ⟨find?_eq_same _ f, fun e he hsame => ?_⟩
    rw [← Filter.same_iff.1 hsame]
    exact h.bytes e (h.entries e he)
  case bounded =>
    have hsize := h.size
    rwa [capacity_run] at hsize
  case counted => rw [h.counted, ← hfilters, List.length_map]

/-- An integer and the float it equals are not the same filter: with room for one they push each
other out. -/
example :
    let ask (v : Value) : Use := .encode (.ofConditions [.compare ⟨.eq, "a", v⟩])
    let run := (create 0).run [ask (.int 1), ask (.int 1), ask (.float ⟨0x3ff0000000000000⟩),
      .clear, ask (.int 1)]
    run.1.map (·.2.serial) = [0, 0, 1, 2] ∧ (run.2.hits, run.2.misses, run.2.size) = (1, 3, 1) := by
  decide +kernel

end FilterCache
end KeyedRows
