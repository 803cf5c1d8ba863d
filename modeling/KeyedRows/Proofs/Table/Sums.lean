/-
# Sums of integers

A sum of integers is added up row by row in the order of the keys, and each step
is checked: the sum is refused as soon as a running total leaves the range of 64
bits, even where later cells would bring it back. Whether the exact total fits is
therefore not the whole story. `sum_exact` says when there is an answer, that it
is then the exact total, and that the order of the keys plays no part as long as
the gains and the losses of a column fit separately.

Main statement: `sum_exact`.
-/

import KeyedRows.Proofs.Table.Extremes

namespace KeyedRows

/-! ### One step -/

/-- The integers of 64 bits. -/
def Fits (n : Int) : Prop := Int64.minValue.toInt ≤ n ∧ n ≤ Int64.maxValue.toInt

instance (n : Int) : Decidable (Fits n) := inferInstanceAs (Decidable (_ ∧ _))

theorem fits_toInt (i : Int64) : Fits i.toInt := ⟨i.minValue_le_toInt, i.toInt_le⟩

theorem Fits.toInt_ofInt {n : Int} (h : Fits n) : (Int64.ofInt n).toInt = n :=
  Int64.toInt_ofInt_of_le h.1 (Int.lt_add_one_of_le h.2)

section Steps
variable {a b c : Int64}

theorem checkedAdd_eq_some_iff : checkedAdd a b = some c ↔ c.toInt = a.toInt + b.toInt := by
  unfold checkedAdd
  constructor
  · intro h
    dsimp only at h
    split at h
    · rename_i hsum
      rw [Option.some.injEq] at h
      rw [hsum, h]
    · contradiction
  · intro h
    dsimp only
    rw [← h, Int64.ofInt_toInt, if_pos rfl]

theorem exists_checkedAdd (h : Fits (a.toInt + b.toInt)) : ∃ c, checkedAdd a b = some c :=
  ⟨.ofInt (a.toInt + b.toInt), checkedAdd_eq_some_iff.2 h.toInt_ofInt⟩

end Steps

/-! ### A whole run -/

/-- The sum of integers without any bound. -/
def exactSum : List Int64 → Int
  | [] => 0
  | i :: ints => i.toInt + exactSum ints

/-- What the integers of a list that are not negative come to. -/
def gains (ints : List Int64) : Int := exactSum (ints.filter fun i => 0 ≤ i.toInt)

/-- What the integers of a list that are not positive come to. -/
def losses (ints : List Int64) : Int := exactSum (ints.filter fun i => i.toInt ≤ 0)

/-- No running total leaves the range of 64 bits. -/
def NeverOverflows (ints : List Int64) : Prop := ∀ front, front <+: ints → Fits (exactSum front)

section Runs
variable {ints : List Int64}

@[simp] theorem exactSum_nil : exactSum [] = 0 := rfl

@[simp] theorem exactSum_cons (i : Int64) (ints : List Int64) :
    exactSum (i :: ints) = i.toInt + exactSum ints := rfl

/-- The order of the integers plays no part in their sum. -/
theorem exactSum_perm {other : List Int64} (h : other.Perm ints) :
    exactSum other = exactSum ints := by
  induction h with
  | nil => rfl
  | cons i _ ih => rw [exactSum_cons, exactSum_cons, ih]
  | swap i j ints =>
    simp only [exactSum_cons]
    omega
  | trans _ _ ih ih' => exact ih.trans ih'

/-- **A checked sum is exact and exists if no running total overflows.** The start is arbitrary so
that the induction can go through the list from the front. -/
theorem foldlM_checkedAdd_eq_some_iff {start total : Int64} :
    ints.foldlM checkedAdd start = some total ↔
      total.toInt = start.toInt + exactSum ints ∧
        ∀ front, front <+: ints → Fits (start.toInt + exactSum front) := by
  induction ints generalizing start with
  | nil =>
    rw [List.foldlM_nil, exactSum_nil, Int.add_zero]
    constructor
    · intro h
      obtain rfl : start = total := Option.some.inj h
      refine ⟨rfl, fun front hfront => ?_⟩
      rw [List.prefix_nil.1 hfront, exactSum_nil, Int.add_zero]
      exact fits_toInt start
    · rintro ⟨h, -⟩
      exact congrArg some (Int64.toInt_inj.1 h).symm
  | cons i ints ih =>
    rw [List.foldlM_cons, exactSum_cons]
    constructor
    · intro h
      obtain ⟨next, hnext, hrest⟩ := Option.bind_eq_some_iff.1 h
      obtain ⟨htotal, hfits⟩ := ih.1 hrest
      rw [checkedAdd_eq_some_iff] at hnext
      refine ⟨by omega, fun front hfront => ?_⟩
      rcases List.prefix_cons_iff.1 hfront with rfl | ⟨front, rfl, hmore⟩
      · rw [exactSum_nil, Int.add_zero]
        exact fits_toInt start
      · rw [exactSum_cons, ← Int.add_assoc, ← hnext]
        exact hfits front hmore
    · rintro ⟨htotal, hfits⟩
      have hstep : Fits (start.toInt + i.toInt) := by
        have := hfits [i] (List.prefix_cons_iff.2 (.inr ⟨[], rfl, List.nil_prefix⟩))
        rwa [exactSum_cons, exactSum_nil, Int.add_zero] at this
      obtain ⟨next, hnext⟩ := exists_checkedAdd hstep
      refine Option.bind_eq_some_iff.2 ⟨next, hnext, ih.2 ?_⟩
      rw [checkedAdd_eq_some_iff] at hnext
      refine ⟨by omega, fun front hfront => ?_⟩
      have := hfits (i :: front) (List.prefix_cons_iff.2 (.inr ⟨front, rfl, hfront⟩))
      rwa [exactSum_cons, ← Int.add_assoc, ← hnext] at this

theorem checkedSum_eq_some_iff {total : Int64} :
    ints.foldlM checkedAdd 0 = some total ↔ total.toInt = exactSum ints ∧ NeverOverflows ints := by
  rw [foldlM_checkedAdd_eq_some_iff, Int64.toInt_zero]
  simp only [Int.zero_add, NeverOverflows]

theorem checkedSum_eq_none_iff : ints.foldlM checkedAdd 0 = none ↔ ¬ NeverOverflows ints := by
  constructor
  · intro hnone hfits
    have htotal := (hfits ints List.prefix_rfl).toInt_ofInt
    rw [checkedSum_eq_some_iff.2 ⟨htotal, hfits⟩] at hnone
    contradiction
  · intro hover
    refine Option.eq_none_iff_forall_ne_some.2 fun total htotal => ?_
    exact hover (checkedSum_eq_some_iff.1 htotal).2

theorem gains_cons (i : Int64) (ints : List Int64) :
    gains (i :: ints) = (if 0 ≤ i.toInt then i.toInt else 0) + gains ints := by
  unfold gains
  by_cases h : 0 ≤ i.toInt <;> simp [h]

theorem losses_cons (i : Int64) (ints : List Int64) :
    losses (i :: ints) = (if i.toInt ≤ 0 then i.toInt else 0) + losses ints := by
  unfold losses
  by_cases h : i.toInt ≤ 0 <;> simp [h]

theorem exactSum_eq_gains_add_losses (ints : List Int64) :
    exactSum ints = gains ints + losses ints := by
  induction ints with
  | nil => rfl
  | cons i ints ih =>
    rw [exactSum_cons, gains_cons, losses_cons, ih]
    omega

/-- Every running total lies between all losses and all gains. -/
theorem exactSum_prefix_bounds {front : List Int64} (h : front <+: ints) :
    losses ints ≤ exactSum front ∧ exactSum front ≤ gains ints := by
  induction ints generalizing front with
  | nil =>
    rw [List.prefix_nil.1 h]
    exact ⟨Int.le_refl 0, Int.le_refl 0⟩
  | cons i ints ih =>
    rw [gains_cons, losses_cons]
    rcases List.prefix_cons_iff.1 h with rfl | ⟨front, rfl, hfront⟩
    · -- with no row added yet the total is zero, as it was before the first row
      have := ih (List.nil_prefix (l := ints))
      rw [exactSum_nil] at this ⊢
      omega
    · have := ih hfront
      rw [exactSum_cons]
      omega

/-- Where the gains and the losses fit, no order of the integers overflows. -/
theorem neverOverflows_of_fits (hgains : Fits (gains ints)) (hlosses : Fits (losses ints)) :
    NeverOverflows ints := by
  intro front hfront
  obtain ⟨hlow, hhigh⟩ := exactSum_prefix_bounds hfront
  unfold Fits at *
  omega

/-- Integers of one sign cannot leave the range and come back. -/
theorem neverOverflows_of_sameSign (h : (∀ i ∈ ints, 0 ≤ i.toInt) ∨ ∀ i ∈ ints, i.toInt ≤ 0) :
    NeverOverflows ints ↔ Fits (exactSum ints) := by
  refine ⟨fun hfits => hfits ints List.prefix_rfl, fun hfits => ?_⟩
  have hzero : Fits 0 := by decide
  have hsum := exactSum_eq_gains_add_losses ints
  rcases h with h | h
  · have hgains : gains ints = exactSum ints :=
      congrArg exactSum (List.filter_eq_self.2 (by simpa using h))
    have hlosses : losses ints = 0 := by omega
    exact neverOverflows_of_fits (hgains ▸ hfits) (hlosses ▸ hzero)
  · have hlosses : losses ints = exactSum ints :=
      congrArg exactSum (List.filter_eq_self.2 (by simpa using h))
    have hgains : gains ints = 0 := by omega
    exact neverOverflows_of_fits (hgains ▸ hzero) (hlosses ▸ hfits)

end Runs

/-! ### The numbers of a column -/

/-- The integer that a value is. -/
def Value.int? : Value → Option Int64
  | .int i => some i
  | _ => none

theorem Value.int?_eq_some_iff {v : Value} {i : Int64} : v.int? = some i ↔ v = .int i := by
  cases v <;> simp [int?]

theorem allInts_map_int (ints : List Int64) : allInts (ints.map .int) = some ints := by
  induction ints with
  | nil => rfl
  | cons i ints ih =>
    unfold allInts at ih ⊢
    rw [List.map_cons, List.mapM_cons, ih]
    rfl

/-- Integers are added up by checked additions. -/
theorem sumNumbers_map_int (column : String) (ints : List Int64) :
    sumNumbers column (ints.map .int) =
      match ints.foldlM checkedAdd 0 with
      | some total => .ok (.int total)
      | none => .error (.sumOverflow column) := by
  cases hsum : ints.foldlM checkedAdd 0 <;> simp only [sumNumbers, allInts_map_int, hsum]

/-- Without floats the numbers of a list are its integers. -/
theorem numbers_eq_map_int {vs : List Value} (h : ∀ x, .float x ∉ vs) :
    vs.filter (·.asDouble.isSome) = (vs.filterMap (·.int?)).map .int := by
  induction vs with
  | nil => rfl
  | cons v vs ih =>
    have ih := ih fun x hx => h x (List.mem_cons_of_mem v hx)
    cases v with
    | int i =>
      rw [List.filter_cons_of_pos rfl, ih]
      rfl
    | float x => exact absurd List.mem_cons_self (h x)
    | _ => exact ih

namespace Table
variable {t : Table} {f : Filter} {column : String}

/-- The integers that a column has in the matching rows, in the order of the keys. -/
def integers (t : Table) (f : Filter) (column : String) : List Int64 :=
  (t.rows.entries.filter (f.test ·.2)).filterMap fun e => (e.2.get? column).bind (·.int?)

theorem integers_eq_filterMap (t : Table) (f : Filter) (column : String) :
    t.integers f column = (t.columnValues f column).filterMap (·.int?) := by
  rw [integers, columnValues, scan_eq_passing, passing, List.map_map, List.filterMap_map]
  generalize t.rows.entries.filter (f.test ·.2) = entries
  rw [List.filterMap_filter, List.filterMap_filterMap]
  congr 1
  funext e
  show _ = (e.2.get? column).bind _
  -- a null is no integer
  cases e.2.get? column with
  | none => rfl
  | some v => cases v <;> rfl

/-- The numbers that a column has in the matching rows are integers, and there is one at least. -/
structure SumsIntegers (t : Table) (f : Filter) (column : String) : Prop where
  not_float : ∀ row, t.Matches f row → ∀ x, row.get? column ≠ some (.float x)
  some_int : ∃ row, t.Matches f row ∧ ∃ i, row.get? column = some (.int i)

/-- The sum of a column of integers is what the checked additions come to. -/
theorem aggregate_sum (h : t.SumsIntegers f column) :
    t.aggregate { f with projection := some ⟨.sum, column⟩ } =
      match (t.integers f column).foldlM checkedAdd 0 with
      | some total => .ok (.int total)
      | none => .error (.sumOverflow column) := by
  have hnumbers : (t.columnValues f column).filter (·.asDouble.isSome) =
      (t.integers f column).map .int := by
    rw [integers_eq_filterMap]
    refine numbers_eq_map_int fun x hx => ?_
    obtain ⟨-, row, hrow, hcell⟩ := mem_columnValues.1 hx
    exact h.not_float row hrow x hcell
  have hsome : (t.integers f column).map Value.int ≠ [] := by
    obtain ⟨row, hrow, i, hi⟩ := h.some_int
    have hmem : Value.int i ∈ t.columnValues f column :=
      mem_columnValues.2 ⟨Value.noConfusion, row, hrow, hi⟩
    rw [integers_eq_filterMap]
    exact List.ne_nil_of_mem
      (List.mem_map_of_mem (List.mem_filterMap.2 ⟨_, hmem, Value.int?_eq_some_iff.2 rfl⟩))
  change (if ((t.columnValues f column).filter (·.asDouble.isSome)).isEmpty then .ok .null
    else sumNumbers column ((t.columnValues f column).filter (·.asDouble.isSome))) = _
  rw [hnumbers, if_neg (by simpa using hsome)]
  exact sumNumbers_map_int column _

/-- There is a sum exactly if no running total overflows, and it is the exact one. -/
theorem aggregate_sum_eq_ok_iff (h : t.SumsIntegers f column) {total : Int64} :
    t.aggregate { f with projection := some ⟨.sum, column⟩ } = .ok (.int total) ↔
      total.toInt = exactSum (t.integers f column) ∧ NeverOverflows (t.integers f column) := by
  rw [← checkedSum_eq_some_iff, aggregate_sum h]
  cases (t.integers f column).foldlM checkedAdd 0 <;> simp

/-- The answer to a sum that is refused. -/
def sumRefusal (column : String) : Failure := ⟨.validation, s!"sum of `{column}` overflows"⟩

theorem aggregate_sum_refused_iff (h : t.SumsIntegers f column) :
    (t.aggregate { f with projection := some ⟨.sum, column⟩ }).mapError (·.failure) =
        .error (sumRefusal column) ↔
      ¬ NeverOverflows (t.integers f column) := by
  rw [← checkedSum_eq_none_iff, aggregate_sum h]
  cases (t.integers f column).foldlM checkedAdd 0 with
  | none => exact ⟨fun _ => rfl, fun _ => rfl⟩
  | some total => exact ⟨nofun, nofun⟩

/-- A sum that there is comes to the exact total. -/
theorem exists_sum_iff (h : t.SumsIntegers f column) :
    (∃ total, t.aggregate { f with projection := some ⟨.sum, column⟩ } = .ok (.int total) ∧
        total.toInt = exactSum (t.integers f column)) ↔
      NeverOverflows (t.integers f column) := by
  constructor
  · rintro ⟨total, hok, -⟩
    exact ((aggregate_sum_eq_ok_iff h).1 hok).2
  · intro hfits
    have htotal := (hfits _ List.prefix_rfl).toInt_ofInt
    exact ⟨_, (aggregate_sum_eq_ok_iff h).2 ⟨htotal, hfits⟩, htotal⟩

/-! ### Exactness -/

/-- **Sums of integers are exact or refused.** Over matching rows whose numbers in a column are
integers, the sum is the exact total if no running total, in the order of the keys, leaves the range
of 64 bits, and else it is refused. So a total out of range is always refused. One within the range
is returned if the integers are of one sign, and also, in any order of the keys, if the gains and
the losses fit separately. -/
theorem sum_exact (t : Table) (f : Filter) (column : String) (h : t.SumsIntegers f column) :
    let ints := t.integers f column
    let answer := t.aggregate { f with projection := some ⟨.sum, column⟩ }
    ((∃ total, answer = .ok (.int total) ∧ total.toInt = exactSum ints) ↔ NeverOverflows ints) ∧
    (answer.mapError (·.failure) = .error (sumRefusal column) ↔ ¬ NeverOverflows ints) ∧
    (¬ Fits (exactSum ints) → answer.mapError (·.failure) = .error (sumRefusal column)) ∧
    ((∀ i ∈ ints, 0 ≤ i.toInt) ∨ (∀ i ∈ ints, i.toInt ≤ 0) →
      ((∃ total, answer = .ok (.int total) ∧ total.toInt = exactSum ints) ↔
        Fits (exactSum ints))) ∧
    (Fits (gains ints) → Fits (losses ints) →
      ∀ (u : Table) (g : Filter), u.SumsIntegers g column → (u.integers g column).Perm ints →
        ∃ total, u.aggregate { g with projection := some ⟨.sum, column⟩ } = .ok (.int total) ∧
          total.toInt = exactSum ints) := by
  intro ints answer
  refine ⟨exists_sum_iff h, aggregate_sum_refused_iff h, fun hover => ?_, fun hsign => ?_,
    fun hgains hlosses u g hu hperm => ?_⟩
  · exact (aggregate_sum_refused_iff h).2 fun hfits => hover (hfits ints List.prefix_rfl)
  · exact (exists_sum_iff h).trans (neverOverflows_of_sameSign hsign)
  · have hgains' : gains (u.integers g column) = gains ints := exactSum_perm (hperm.filter _)
    have hlosses' : losses (u.integers g column) = losses ints := exactSum_perm (hperm.filter _)
    have hfits := neverOverflows_of_fits (hgains'.symm ▸ hgains) (hlosses'.symm ▸ hlosses)
    obtain ⟨total, hok, htotal⟩ := (exists_sum_iff hu).2 hfits
    exact ⟨total, hok, htotal.trans (exactSum_perm hperm)⟩

/-- Three amounts, under the keys 1, 2 and 3. -/
def ledger (a b c : Int64) : Table :=
  ⟨"ledger", [⟨"id", true, .int⟩, ⟨"amount", false, .int⟩], default, OrderedMap.ofList
    [(.single (.int 1), .ofList [("amount", .int a)]),
      (.single (.int 2), .ofList [("amount", .int b)]),
      (.single (.int 3), .ofList [("amount", .int c)])]⟩

theorem scan_ledger (a b c : Int64) :
    (ledger a b c).scan Filter.all.test =
      [⟨.single (.int 1), .ofList [("amount", .int a)]⟩,
        ⟨.single (.int 2), .ofList [("amount", .int b)]⟩,
        ⟨.single (.int 3), .ofList [("amount", .int c)]⟩] := rfl

theorem columnValues_ledger (a b c : Int64) :
    (ledger a b c).columnValues .all "amount" = [.int a, .int b, .int c] := by
  have hcell (i : Int64) :
      (OrderedMap.ofList [("amount", Value.int i)]).get? "amount" = some (.int i) :=
    OrderedMap.get?_insert_self _ _ _
  rw [columnValues, scan_ledger]
  simp [hcell, Value.isNull]

theorem integers_ledger (a b c : Int64) : (ledger a b c).integers .all "amount" = [a, b, c] := by
  rw [integers_eq_filterMap, columnValues_ledger]
  rfl

theorem sumsIntegers_ledger (a b c : Int64) : (ledger a b c).SumsIntegers .all "amount" where
  not_float := by
    intro row hrow x hx
    have hmem : Value.float x ∈ (ledger a b c).columnValues .all "amount" :=
      mem_columnValues.2 ⟨Value.noConfusion, row, hrow, hx⟩
    simp [columnValues_ledger] at hmem
  some_int := by
    have hmem : Value.int a ∈ (ledger a b c).columnValues .all "amount" := by
      rw [columnValues_ledger]
      exact List.mem_cons_self
    obtain ⟨-, row, hrow, hcell⟩ := mem_columnValues.1 hmem
    exact ⟨row, hrow, a, hcell⟩

/-- With a gain as large as can be and a loss, the sum is exact, and it is so in any order. -/
theorem sum_ledger :
    (ledger (-4) 0 Int64.maxValue).SumsIntegers .all "amount" ∧
      (∃ total, (ledger (-4) 0 Int64.maxValue).aggregate
          { Filter.all with projection := some ⟨.sum, "amount"⟩ } = .ok (.int total) ∧
        total.toInt = Int64.maxValue.toInt - 4) ∧
      ∃ total, (ledger Int64.maxValue 0 (-4)).aggregate
          { Filter.all with projection := some ⟨.sum, "amount"⟩ } = .ok (.int total) ∧
        total.toInt = Int64.maxValue.toInt - 4 := by
  have h := sumsIntegers_ledger (-4) 0 Int64.maxValue
  obtain ⟨-, -, -, -, horder⟩ := sum_exact _ _ _ h
  rw [integers_ledger] at horder
  have hany := horder (by decide) (by decide)
  refine ⟨h, hany _ _ h ?_, hany _ _ (sumsIntegers_ledger _ _ _) ?_⟩
  · rw [integers_ledger]
  · rw [integers_ledger]
    decide

/-- A total within the range may be refused. The greatest integer, one and minus one come to the
greatest integer, but in this order of the keys the second step overflows. With the loss in front
there is an answer. -/
theorem sum_refused_within_range :
    (ledger Int64.maxValue 1 (-1)).aggregate
        { Filter.all with projection := some ⟨.sum, "amount"⟩ } = .error (.sumOverflow "amount") ∧
      (ledger (-1) Int64.maxValue 1).aggregate
        { Filter.all with projection := some ⟨.sum, "amount"⟩ } = .ok (.int Int64.maxValue) ∧
      ¬ ∀ (t : Table) (f : Filter) (column : String), t.SumsIntegers f column →
        let ints := t.integers f column
        let answer := t.aggregate { f with projection := some ⟨.sum, column⟩ }
        (Fits (exactSum ints) →
          ∃ total, answer = .ok (.int total) ∧ total.toInt = exactSum ints) ∧
        (answer.mapError (·.failure) = .error (sumRefusal column) ↔ ¬ Fits (exactSum ints)) := by
  have h := sumsIntegers_ledger Int64.maxValue 1 (-1)
  have hrefused : (ledger Int64.maxValue 1 (-1)).aggregate
      { Filter.all with projection := some ⟨.sum, "amount"⟩ } = .error (.sumOverflow "amount") := by
    rw [aggregate_sum h, integers_ledger]
    rfl
  refine ⟨hrefused, ?_, fun hall => ?_⟩
  · rw [aggregate_sum (sumsIntegers_ledger _ _ _), integers_ledger]
    rfl
  · have hfits : Fits (exactSum [Int64.maxValue, 1, -1]) := by decide
    rw [← integers_ledger] at hfits
    obtain ⟨total, hok, -⟩ := (hall _ _ _ h).1 hfits
    rw [hrefused] at hok
    contradiction

end Table
end KeyedRows
