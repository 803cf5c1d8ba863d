/-
# Strict and lenient services

A strict service and a lenient one carry out every request alike, unless the
request is a query, an update or a deletion whose filter is there and does not
decode. Then the strict service refuses before it looks at the catalog. The
lenient one goes on with the filter that no row passes: it finds its target or
fails to, answers with an empty list and changes nothing. That filter has a
condition, so it is never taken for the absent filter, which every row passes.

Where a filter is decoded is the only place at which the two can part
(`filtering_of_sound`, `filtering_of_fault`); what no filter guards, rows, patches,
declarations and the filters of aggregates, is decoded alike.

Main statement: `execute_policies`.
-/

import KeyedRows.Proofs.Service.Isolation

namespace KeyedRows

/-! ### Filters that do not decode -/

/-- What is wrong with the bytes of a filter. No bytes are no filter, and nothing is wrong. -/
def filterFault? (payload : Bytes) : Option Wire.Fault :=
  if payload.isEmpty then none
  else
    match (Wire.decode payload : Except Wire.Fault Filter) with
    | .ok _ => none
    | .error fault => some fault

/-- What is wrong with the filter of a request, if it is a query, a deletion, or an update whose
argument decodes. -/
def Request.filterFault? (r : Request) : Option Wire.Fault :=
  match r.operation with
  | .query | .delete => KeyedRows.filterFault? r.payload
  | .update =>
    match (Wire.decode r.payload : Except Wire.Fault UpdatePayload) with
    | .ok u => KeyedRows.filterFault? u.filter
    | .error _ => none
  | _ => none

/-! ### The filter that no row passes -/

namespace Table

theorem passes_nothing (cells : Cells) : passes (some .nothing) cells = false := rfl

theorem scan_nothing (t : Table) : t.scan (passes (some .nothing)) = [] := by
  rw [scan_eq_passing, passing]
  simp [passes_nothing]

theorem query_nothing (t : Table) : t.query (some .nothing) = [] := t.scan_nothing

theorem update_nothing (t : Table) (patch : Cells) : t.update (some .nothing) patch = ([], t) := by
  have hrows : t.rows.mapValues (fun _ cells =>
      if passes (some .nothing) cells then cells.overlay patch else cells) = t.rows := by
    apply OrderedMap.ext_entries
    simp [OrderedMap.mapValues, passes_nothing]
  rw [update, matchingIds, scan_nothing, hrows]
  rfl

theorem delete_nothing (t : Table) : t.delete (some .nothing) = ([], t) := by
  have hrows : t.rows.filter (fun _ cells => !passes (some .nothing) cells) = t.rows := by
    apply OrderedMap.ext_entries
    simp [OrderedMap.filter, passes_nothing]
  rw [delete, matchingIds, scan_nothing, hrows]
  rfl

end Table

/-! ### Work that does nothing -/

/-- The work leaves every table as it is and answers with an empty list, of rows or of keys. -/
def TableWork.IsIdle (work : TableWork) : Prop :=
  ∀ t, work t = (.ok (Wire.encode ([] : List Row)), t)

namespace TableWork

theorem isIdle_query : (query (some .nothing)).IsIdle := fun t => by
  rw [query, t.query_nothing]

theorem isIdle_update (patch : Cells) : (update (some .nothing) patch).IsIdle := fun t => by
  rw [update, t.update_nothing]
  rfl

theorem isIdle_delete : (delete (some .nothing)).IsIdle := fun t => by
  rw [delete, t.delete_nothing]
  rfl

end TableWork

namespace Catalog

/-- Work that does nothing, on a target that is there. -/
theorem onTarget_of_idle {c : Catalog} (hc : c.WellFormed) {target : TableName} {t : TableRef}
    (h : c.find target = .ok t) {work : TableWork} (hwork : work.IsIdle) :
    c.onTarget target work = (.ok (Wire.encode ([] : List Row)), c) := by
  obtain ⟨d, -, hin⟩ := find_eq_ok_iff.1 h
  obtain ⟨table, htable, -⟩ := hc.of_tableIn? hin
  have hsame : (c.onTable t work).2 = c := onTable_of_same fun u _ => by rw [hwork u]
  have hanswer : (c.onTable t work).1 = some (.ok (Wire.encode ([] : List Row))) := by
    rw [onTable, htable]
    show some (work table).1 = _
    rw [hwork table]
  have hboth : c.onTable t work = (some (.ok (Wire.encode ([] : List Row))), c) :=
    Prod.ext hanswer hsame
  rw [onTarget, h]
  simp only [hboth]

end Catalog

/-! ### The two policies -/

namespace Service
variable {payload : Bytes} {fault : Wire.Fault}

/-- A filter with which nothing is wrong is decoded alike by every service. -/
theorem filtering_of_sound (h : filterFault? payload = none) (s s' : Service)
    (next : Option Filter → Plan) : s.filtering payload next = s'.filtering payload next := by
  rw [filterFault?] at h
  rw [filtering, filtering]
  by_cases hempty : payload.isEmpty = true
  · rw [if_pos hempty, if_pos hempty]
  · rw [if_neg hempty] at h ⊢
    rw [if_neg hempty]
    cases hdecode : (Wire.decode payload : Except Wire.Fault Filter) with
    | ok filter => rfl
    | error fault => simp [hdecode] at h

/-- Another one passes no row for a lenient service, and is a failure for a strict one. -/
theorem filtering_of_fault (h : filterFault? payload = some fault) (s : Service)
    (next : Option Filter → Plan) :
    s.filtering payload next =
      if s.lenient then next (some .nothing) else .refuse fault.failure := by
  rw [filterFault?] at h
  rw [filtering]
  by_cases hempty : payload.isEmpty = true
  · rw [if_pos hempty] at h
    contradiction
  · rw [if_neg hempty] at h ⊢
    cases hdecode : (Wire.decode payload : Except Wire.Fault Filter) with
    | ok filter => simp [hdecode] at h
    | error found =>
      simp only [hdecode, Option.some.injEq] at h
      subst h
      rfl

theorem served (lenient : Bool) (r : Request) : r.operation ∈ (standard lenient).operations :=
  Operation.mem_all r.operation

/-- Without a corrupt filter both policies come to the same plan. -/
theorem plan_of_sound {r : Request} (h : r.filterFault? = none) (lenient lenient' : Bool)
    (now : Readings) : (standard lenient).plan now r = (standard lenient').plan now r := by
  rw [Request.filterFault?] at h
  rw [plan, plan, if_pos (served _ r), if_pos (served _ r)]
  cases hop : r.operation with
  | query =>
    rw [hop] at h
    exact filtering_of_sound h _ _ _
  | delete =>
    rw [hop] at h
    exact filtering_of_sound h _ _ _
  | update =>
    rw [hop] at h
    show decoding r.payload _ = decoding r.payload _
    rw [decoding, decoding]
    cases hdecode : (Wire.decode r.payload : Except Wire.Fault UpdatePayload) with
    | error fault => rfl
    | ok u =>
      simp only [hdecode] at h
      exact filtering_of_sound h _ _ _
  | _ => rfl

/-- With a corrupt filter the strict plan is a refusal, and the lenient plan does nothing to its
target. -/
theorem plan_of_fault {r : Request} (h : r.filterFault? = some fault) (now : Readings) :
    (standard false).plan now r = .refuse fault.failure ∧
      ∃ work : TableWork, work.IsIdle ∧ (standard true).plan now r = .onTarget work := by
  rw [Request.filterFault?] at h
  rw [plan, plan, if_pos (served _ r), if_pos (served _ r)]
  cases hop : r.operation with
  | query =>
    rw [hop] at h
    exact ⟨filtering_of_fault h _ _, _, TableWork.isIdle_query, filtering_of_fault h _ _⟩
  | delete =>
    rw [hop] at h
    exact ⟨filtering_of_fault h _ _, _, TableWork.isIdle_delete, filtering_of_fault h _ _⟩
  | update =>
    rw [hop] at h
    simp only [decoding]
    cases hdecode : (Wire.decode r.payload : Except Wire.Fault UpdatePayload) with
    | error fault => simp [hdecode] at h
    | ok u =>
      simp only [hdecode] at h
      exact ⟨filtering_of_fault h _ _, _, TableWork.isIdle_update u.patch,
        filtering_of_fault h _ _⟩
  | _ => simp [hop] at h

/-- A request for statistics is answered with a report. -/
theorem execute_stats {r : Request} (h : r.operation = .stats) (lenient : Bool) (now : Readings)
    (c : Catalog) : (standard lenient).execute now r c =
      (.ok (Wire.encode (⟨now.server, now.startTime, now.uptimeSeconds, now.queue,
        c.databaseNames⟩ : Report)), c) := by
  rw [execute_eq_run, plan, if_pos (served lenient r), h]
  rfl

/-- A strict service refuses a corrupt filter before it looks at the catalog. -/
theorem execute_strict_of_fault {r : Request} (h : r.filterFault? = some fault) (now : Readings)
    (c : Catalog) : (standard false).execute now r c = (.error fault.failure, c) := by
  rw [execute_eq_run, (plan_of_fault h now).1]
  rfl

/-- A lenient service looks for the target of a corrupt filter, and does nothing to it. -/
theorem execute_lenient_of_fault {r : Request} (h : r.filterFault? = some fault) (now : Readings)
    {c : Catalog} (hc : c.Reached) :
    (∀ missing, c.find r.target = .error missing →
      (standard true).execute now r c = (.error missing.failure, c)) ∧
    ∀ t, c.find r.target = .ok t →
      (standard true).execute now r c = (.ok (Wire.encode ([] : List Row)), c) := by
  obtain ⟨-, work, hidle, hplan⟩ := plan_of_fault h now
  have hwork : (standard true).execute now r c = c.onTarget r.target work := by
    rw [execute_eq_run, hplan]
    rfl
  rw [hwork]
  refine ⟨fun missing hmissing => ?_, fun t ht => ?_⟩
  · rw [Catalog.onTarget, hmissing]
  · exact Catalog.onTarget_of_idle hc.wellFormed ht hidle

/-- **Strict and lenient services differ on corrupt filters alone.** In every catalog that
operations lead to, a request without a corrupt filter has the same outcome under both policies and
leaves the same catalog; a report may show another time. A request with a corrupt filter, whatever
the fault, is refused by the strict service as undecodable. The lenient service says that the target
is not found, if it is not there, and otherwise answers with an empty list. Under both the catalog
stays as it is. -/
theorem execute_policies {c : Catalog} (hc : c.Reached) (r : Request) (now now' : Readings)
    (hserver : now'.server = now.server) (hqueue : now'.queue = now.queue) :
    let strict := (standard false).execute now r c
    let lenient := (standard true).execute now' r c
    (r.filterFault? = none →
      lenient.2 = strict.2 ∧ (r.operation ≠ .stats → lenient.1 = strict.1) ∧
      (r.operation = .stats → ∃ report : Report, strict.1 = .ok (Wire.encode report) ∧
        lenient.1 = .ok (Wire.encode
          { report with startTime := now'.startTime, uptimeSeconds := now'.uptimeSeconds }))) ∧
    ∀ fault, r.filterFault? = some fault →
      strict = (.error fault.failure, c) ∧ fault.failure.kind = .decode ∧ lenient.2 = c ∧
      (∀ missing, c.find r.target = .error missing →
        lenient.1 = .error missing.failure ∧ missing.failure.kind = .notFound) ∧
      ∀ t, c.find r.target = .ok t →
        lenient.1 = .ok (Wire.encode ([] : List Row)) ∧
          lenient.1 = .ok (Wire.encode ([] : List RowId)) := by
  intro strict lenient
  refine ⟨fun hsound => ?_, fun fault hfault => ?_⟩
  · by_cases hstats : r.operation = .stats
    · have hstrict := execute_stats hstats false now c
      have hlenient := execute_stats hstats true now' c
      rw [hserver, hqueue] at hlenient
      refine ⟨?_, fun h => absurd hstats h, fun _ => ⟨_, congrArg Prod.fst hstrict, ?_⟩⟩
      · exact (congrArg Prod.snd hlenient).trans (congrArg Prod.snd hstrict).symm
      · exact congrArg Prod.fst hlenient
    · have hsame : lenient = strict := by
        show (standard true).execute now' r c = (standard false).execute now r c
        rw [execute_of_ne_stats hstats _ now' now, execute_eq_run, execute_eq_run,
          plan_of_sound hsound true false]
      rw [hsame]
      exact ⟨rfl, fun _ => rfl, fun h => absurd h hstats⟩
  · have hstrict : strict = (.error fault.failure, c) := execute_strict_of_fault hfault now c
    obtain ⟨hmissing, hfound⟩ := execute_lenient_of_fault hfault now' hc
    refine ⟨hstrict, rfl, ?_, fun missing h => ?_, fun t h => ?_⟩
    · cases hfind : c.find r.target with
      | error missing => exact congrArg Prod.snd (hmissing missing hfind)
      | ok t => exact congrArg Prod.snd (hfound t hfind)
    · exact ⟨congrArg Prod.fst (hmissing missing h), Catalog.kind_of_find h⟩
    · have hanswer := congrArg Prod.fst (hfound t h)
      exact ⟨hanswer, hanswer⟩

/-- Deletes the orders that pass a filter that is none. -/
def clearByGarbage : Request := ⟨7, ⟨"shop", "orders"⟩, .delete, [0xde, 0xad]⟩

/-- The strict service refuses, the lenient one deletes nothing, and the order stays. -/
theorem execute_clearByGarbage :
    market.Reached ∧ clearByGarbage.filterFault? = some .endOfInput ∧
      (standard false).execute default clearByGarbage market =
        (.error ⟨.decode, "payload: io error: unexpected end of file"⟩, market) ∧
      (standard true).execute default clearByGarbage market =
        (.ok (Wire.encode ([] : List RowId)), market) := by
  have hfault : clearByGarbage.filterFault? = some .endOfInput := by decide +kernel
  have hfind : market.find clearByGarbage.target = .ok ⟨0⟩ := rfl
  obtain ⟨-, hcorrupt⟩ := execute_policies reached_market clearByGarbage default default rfl rfl
  obtain ⟨hstrict, -, hsame, -, hfound⟩ := hcorrupt _ hfault
  exact ⟨reached_market, hfault, hstrict, Prod.ext (hfound _ hfind).2 hsame⟩

end Service
end KeyedRows
