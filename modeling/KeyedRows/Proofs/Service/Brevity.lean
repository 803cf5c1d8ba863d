/-
# How long an answer can be

Most operations that change something answer briefly. One that creates or drops
answers nothing, and a saved row is answered by its key, which the request holds as
well. So such an answer is never longer than its request (`length_respond_le`).
Only an operation on any number of rows may change much and have much to say
about it: a request without a filter to delete every row is answered by all their
keys.

Main statement: `unchanged_or_fits`, an operation that is not on any number of rows
changes nothing, or its response is no longer than the request.
-/

import KeyedRows.Proofs.Service.Isolation
import KeyedRows.Proofs.Service.Transparency
import KeyedRows.Proofs.Wire.Canonical

namespace KeyedRows

/-- It may change any number of rows, and answers for each of them. -/
def Operation.isBulk : Operation → Bool
  | saveBatch | update | delete => true
  | save | query | aggregate | createDatabase | createTable | dropTable | ping | stats => false

/-! ### Lengths -/

/-- A row is written with its key in front. -/
theorem Row.length_encode_id_le {payload : Bytes} {row : Row}
    (h : Wire.decode payload = .ok row) : (Wire.encode row.id).length ≤ payload.length := by
  rw [Wire.decode] at h
  cases hread : (Wire.read (α := Row)).run payload with
  | error fault =>
    rw [hread] at h
    contradiction
  | ok p =>
    obtain ⟨row', rest⟩ := p
    rw [hread] at h
    obtain rfl : row' = row := Except.ok.inj h
    obtain ⟨⟨id, cells⟩, hpair, rfl⟩ := Wire.run_map_eq_ok.1 hread
    obtain ⟨id', middle, hid, hcells⟩ := Wire.run_bind_eq_ok.1 hpair
    obtain ⟨cells', -, heq⟩ := Wire.run_map_eq_ok.1 hcells
    obtain ⟨rfl, -⟩ := Prod.mk.inj heq
    rw [Wire.Canonical.eq_write_append hid, List.length_append]
    exact Nat.le_add_right ..

theorem Response.length_encode_ok (id : UInt64) (operation : Operation) (bytes : Bytes) :
    (Wire.encode (ofOutcome id operation (.ok bytes))).length = 21 + bytes.length := by
  have hwrite : Wire.encode (ofOutcome id operation (.ok bytes)) = Bytes.ofNat 8 id.toNat ++
      (Wire.writeVariant (Operation.all.idxOf operation) ++ (Wire.writeBlob bytes ++ [0])) := rfl
  rw [hwrite]
  simp only [List.length_append, List.length_cons, List.length_nil, Wire.writeBlob,
    Wire.writeVariant, Wire.writeLength, Bytes.length_ofNat]
  omega

theorem Request.length_encode_ge (r : Request) :
    36 + r.payload.length ≤ (Wire.encode r).length := by
  have hwrite : Wire.encode r = Bytes.ofNat 8 r.id.toNat ++
      ((Wire.write r.target.database ++ Wire.write r.target.table) ++
        (Wire.writeVariant (Operation.all.idxOf r.operation) ++ Wire.writeBlob r.payload)) := rfl
  have hname : ∀ s : String, 8 ≤ (Wire.write s).length := by
    intro s
    have hs : Wire.write s = Wire.writeBlob (Utf8.encode s) := rfl
    rw [hs, Wire.writeBlob]
    simp only [List.length_append, Wire.writeLength, Bytes.length_ofNat]
    omega
  have hdatabase := hname r.target.database
  have htable := hname r.target.table
  rw [hwrite]
  simp only [List.length_append, Wire.writeBlob, Wire.writeVariant, Wire.writeLength,
    Bytes.length_ofNat]
  omega

namespace Service

/-! ### Brief plans -/

/-- An answer has so many bytes at most, unless nothing changes. -/
def Plan.IsBrief (target : TableName) (n : Nat) (p : Plan) : Prop :=
  ∀ (c : Catalog) (bytes : Bytes), (p.run target c).1 = .ok bytes →
    p.effect target c = c ∨ bytes.length ≤ n

section Brief
variable {target : TableName} {n : Nat}

theorem isBrief_of_unchanged {p : Plan} (h : ∀ c, p.effect target c = c) :
    p.IsBrief target n :=
  fun c _ _ => .inl (h c)

/-- What work on the target answers it answers for some table. -/
theorem exists_of_run_onTarget {work : TableWork} {c : Catalog} {bytes : Bytes}
    (h : ((Plan.onTarget work).run target c).1 = .ok bytes) :
    ∃ t : Table, (work t).1 = .ok bytes := by
  rw [Plan.run, Catalog.onTarget] at h
  cases hfind : c.find target with
  | error fault =>
    rw [hfind] at h
    contradiction
  | ok t =>
    rw [hfind] at h
    simp only [Catalog.onTable] at h
    cases ht : c.table? t with
    | none =>
      rw [ht] at h
      contradiction
    | some table =>
      rw [ht] at h
      exact ⟨table, h⟩

theorem isBrief_save {row : Row} (h : (Wire.encode row.id).length ≤ n) :
    (Plan.onTarget (.save row)).IsBrief target n := by
  intro c bytes hrun
  obtain ⟨t, ht⟩ := exists_of_run_onTarget hrun
  right
  rw [TableWork.save, Table.save] at ht
  cases hcheck : checkRow t.primaryKey row with
  | error fault =>
    rw [hcheck] at ht
    contradiction
  | ok =>
    rw [hcheck] at ht
    rw [← Except.ok.inj ht]
    exact h

/-- What is created or dropped is not spoken of. -/
theorem isBrief_of_empty {p : Plan}
    (h : ∀ c bytes, (p.run target c).1 = .ok bytes → bytes = []) : p.IsBrief target n := by
  intro c bytes hrun
  right
  rw [h c bytes hrun]
  exact Nat.zero_le n

end Brief

/-- The answer of a step that is worded has nothing in it. -/
theorem eq_nil_of_worded {α : Type} {result : Except CatalogFault α} {bytes : Bytes}
    (h : ((result.mapError CatalogFault.failure).map fun _ => ([] : Bytes)) = .ok bytes) :
    bytes = [] := by
  cases result with
  | error fault => contradiction
  | ok => exact (Except.ok.inj h).symm

theorem isBrief_createTable (target : TableName) (n : Nat) (columns : List Column) :
    (Plan.createTable columns).IsBrief target n := by
  refine isBrief_of_empty fun c bytes hrun => ?_
  rw [Plan.run] at hrun
  cases hd : c.findDatabase target.database with
  | error fault =>
    rw [hd] at hrun
    contradiction
  | ok d =>
    rw [hd] at hrun
    exact eq_nil_of_worded hrun

theorem isBrief_dropTable (target : TableName) (n : Nat) : Plan.dropTable.IsBrief target n := by
  refine isBrief_of_empty fun c bytes hrun => ?_
  rw [Plan.run] at hrun
  cases hd : c.findDatabase target.database with
  | error fault =>
    rw [hd] at hrun
    contradiction
  | ok d =>
    simp only [hd] at hrun
    rcases hdrop : c.dropTable d target.table with ⟨_ | t, c'⟩
    · rw [hdrop] at hrun
      contradiction
    · rw [hdrop] at hrun
      exact (Except.ok.inj hrun).symm

/-- **Only bulk operations change something and answer at length.** -/
theorem plan_isBrief (s : Service) (now : Readings) {r : Request}
    (hbulk : r.operation.isBulk = false) :
    (s.plan now r).IsBrief r.target r.payload.length := by
  let Brief (p : Plan) : Prop := p.IsBrief r.target r.payload.length
  have hrefuse : ∀ f, Brief (.refuse f) := fun f => isBrief_of_unchanged fun _ => rfl
  have hreads : ∀ {work : TableWork} {a : Table.Action}, work.Does a → a.reads = true →
      Brief (.onTarget work) := fun hwork hreads =>
    isBrief_of_unchanged fun _ => effect_onTarget_of_reads hwork hreads
  unfold plan
  by_cases hmem : r.operation ∉ s.operations
  · rw [if_neg hmem]
    exact hrefuse _
  rw [if_pos (Decidable.not_not.1 hmem)]
  cases hop : r.operation with
  | saveBatch | update | delete => rw [hop] at hbulk; contradiction
  | save =>
    exact decoding_induction (P := Brief) hrefuse fun row hrow =>
      isBrief_save (Row.length_encode_id_le hrow)
  | query =>
    exact filtering_induction (P := Brief) hrefuse fun filter =>
      hreads (TableWork.query_does filter) rfl
  | aggregate =>
    exact decoding_induction (P := Brief) hrefuse fun filter _ =>
      hreads (TableWork.aggregate_does filter) rfl
  | createDatabase => exact isBrief_of_empty fun c bytes hrun => eq_nil_of_worded hrun
  | createTable =>
    exact decoding_induction (P := Brief) hrefuse fun columns _ => isBrief_createTable _ _ columns
  | dropTable => exact isBrief_dropTable _ _
  | ping | stats => exact isBrief_of_unchanged fun _ => rfl

/-- **A response is no longer than its request**, or nothing was changed, unless the operation is on
any number of rows. -/
theorem unchanged_or_fits (s : Service) (now : Readings) {r : Request} {c : Catalog} {bytes : Bytes}
    (hbulk : r.operation.isBulk = false) (hok : (s.execute now r c).1 = .ok bytes) :
    (s.execute now r c).2 = c ∨
      (Wire.encode (s.respond now r c)).length ≤ (Wire.encode r).length := by
  have hrun := hok
  rw [execute_eq_run] at hrun ⊢
  rw [Plan.run_effect]
  refine (s.plan_isBrief now hbulk c bytes hrun).imp_right fun hle => ?_
  have hrequest := r.length_encode_ge
  rw [respond, hok, Response.length_encode_ok]
  omega

end Service
end KeyedRows
