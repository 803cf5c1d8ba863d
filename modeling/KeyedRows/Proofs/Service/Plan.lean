/-
# What a request comes to

Carrying out a request has two parts. The first looks at the request alone: it
decodes the payload and settles what is to be done. The second does it, on the
catalog as it is then. A `Plan` is what the first part comes to and `Plan.run`
is the second; nothing can fail to decode once the catalog is touched.

Main statements: `execute_eq_run`, every request is carried out by its plan, and
`plan_isSound`, the work of a plan on its target table is that of one action on
the table, and leaves the table as it is when it is refused.
-/

import KeyedRows.Proofs.Table.Actions
import KeyedRows.Service

namespace KeyedRows

/-- Work on one table: what is answered, and the table after it. -/
abbrev TableWork := Table → Except Failure Bytes × Table

namespace TableWork

def save (row : Row) : TableWork := fun t =>
  (((t.save row).1.mapError (·.failure t.name)).map Wire.encode, (t.save row).2)

def saveAll (rows : List Row) : TableWork := fun t =>
  (.ok (Wire.encode ((t.saveAll rows).1.map fun o => o.mapError (·.failure t.name))),
    (t.saveAll rows).2)

def query (filter : Option Filter) : TableWork := fun t => (.ok (Wire.encode (t.query filter)), t)

def update (filter : Option Filter) (patch : Cells) : TableWork := fun t =>
  (.ok (Wire.encode (t.update filter patch).1), (t.update filter patch).2)

def delete (filter : Option Filter) : TableWork := fun t =>
  (.ok (Wire.encode (t.delete filter).1), (t.delete filter).2)

def aggregate (filter : Filter) : TableWork := fun t =>
  (((t.aggregate filter).mapError AggregateFault.failure).map Wire.encode, t)

/-- The work does to a table what the action does, and nothing if it is refused. -/
structure Does (work : TableWork) (a : Table.Action) : Prop where
  after : ∀ t, (work t).2 = (t.act a).2
  refused : ∀ t f, (work t).1 = .error f → (work t).2 = t

theorem save_does (row : Row) : (save row).Does (.save row) where
  after _ := rfl
  refused t f h := by
    obtain ⟨_, hs⟩ | ⟨-, hs⟩ := t.save_cases row
    · rw [save, hs]
    · rw [save, hs] at h
      contradiction

theorem saveAll_does (rows : List Row) : (saveAll rows).Does (.saveAll rows) where
  after _ := rfl
  refused _ _ h := by contradiction

theorem query_does (filter : Option Filter) : (query filter).Does (.query filter) where
  after _ := rfl
  refused _ _ _ := rfl

theorem update_does (filter : Option Filter) (patch : Cells) :
    (update filter patch).Does (.update filter patch) where
  after _ := rfl
  refused _ _ h := by contradiction

theorem delete_does (filter : Option Filter) : (delete filter).Does (.delete filter) where
  after _ := rfl
  refused _ _ h := by contradiction

theorem aggregate_does (filter : Filter) : (aggregate filter).Does (.aggregate filter) where
  after _ := rfl
  refused _ _ _ := rfl

end TableWork

/-- Does work on the table with the given names, if there is one. -/
def Catalog.onTarget (c : Catalog) (target : TableName) (work : TableWork) :
    Except Failure Bytes × Catalog :=
  match c.find target with
  | .error fault => (.error fault.failure, c)
  | .ok t =>
    match c.onTable t work with
    | (some result, c) => (result, c)
    | (none, c) => (.error ⟨.internal, "no such table"⟩, c)

namespace Service

/-- What a request comes to once its payload is decoded. -/
inductive Plan where
  /-- The request is refused whatever the catalog holds. -/
  | refuse (failure : Failure)
  /-- Work on the target table. -/
  | onTarget (work : TableWork)
  /-- An answer that changes nothing. -/
  | answer (f : Catalog → Bytes)
  | createDatabase
  | createTable (columns : List Column)
  | dropTable

/-- Goes on with the decoded payload. -/
def decoding {α : Type} [Wire α] (payload : Bytes) (next : α → Plan) : Plan :=
  match Wire.decode payload with
  | .ok x => next x
  | .error fault => .refuse fault.failure

/-- Goes on with the filter of a payload. -/
def filtering (s : Service) (payload : Bytes) (next : Option Filter → Plan) : Plan :=
  if payload.isEmpty then next none
  else
    match Wire.decode payload with
    | .ok filter => next (some filter)
    | .error fault => if s.lenient then next (some .nothing) else .refuse fault.failure

/-- The plan of a request. -/
def plan (s : Service) (now : Readings) (r : Request) : Plan :=
  if r.operation ∈ s.operations then
    match r.operation with
    | .save => decoding r.payload fun row => .onTarget (.save row)
    | .saveBatch => decoding r.payload fun rows => .onTarget (.saveAll rows)
    | .query => s.filtering r.payload fun filter => .onTarget (.query filter)
    | .update => decoding r.payload fun (u : UpdatePayload) =>
        s.filtering u.filter fun filter => .onTarget (.update filter u.patch)
    | .delete => s.filtering r.payload fun filter => .onTarget (.delete filter)
    | .aggregate => decoding r.payload fun filter => .onTarget (.aggregate filter)
    | .createDatabase => .createDatabase
    | .createTable => decoding r.payload .createTable
    | .dropTable => .dropTable
    | .ping => .answer fun _ => []
    | .stats => .answer fun c => Wire.encode
        (⟨now.server, now.startTime, now.uptimeSeconds, now.queue, c.databaseNames⟩ : Report)
  else .refuse ⟨.decode, "no operator for " ++ r.operation.name⟩

/-- Carries out a plan for a target. -/
def Plan.run (target : TableName) : Plan → Catalog → Except Failure Bytes × Catalog
  | refuse failure, c => (.error failure, c)
  | onTarget work, c => c.onTarget target work
  | answer f, c => (.ok (f c), c)
  | createDatabase, c =>
    let (result, c) := c.createDatabase target.database
    ((result.mapError CatalogFault.failure).map fun _ => [], c)
  | createTable columns, c =>
    match c.findDatabase target.database with
    | .error fault => (.error fault.failure, c)
    | .ok d =>
      let (result, c) := c.createTable d target.table columns
      ((result.mapError CatalogFault.failure).map fun _ => [], c)
  | dropTable, c =>
    match c.findDatabase target.database with
    | .error fault => (.error fault.failure, c)
    | .ok d =>
      match c.dropTable d target.table with
      | (some _, c) => (.ok [], c)
      | (none, c) => (.error (CatalogFault.nothingToDrop target.table).failure, c)

/-- The catalog that a plan leaves. -/
def Plan.effect (target : TableName) : Plan → Catalog → Catalog
  | refuse _, c | answer _, c => c
  | onTarget work, c =>
    match c.find target with
    | .error _ => c
    | .ok t => (c.onTable t work).2
  | createDatabase, c => (c.createDatabase target.database).2
  | createTable columns, c =>
    match c.findDatabase target.database with
    | .error _ => c
    | .ok d => (c.createTable d target.table columns).2
  | dropTable, c =>
    match c.findDatabase target.database with
    | .error _ => c
    | .ok d => (c.dropTable d target.table).2

theorem Plan.run_effect (p : Plan) (target : TableName) (c : Catalog) :
    (p.run target c).2 = p.effect target c := by
  cases p with
  | refuse | answer | createDatabase => rfl
  | onTarget work =>
    simp only [run, effect, Catalog.onTarget]
    cases c.find target with
    | error fault => rfl
    | ok t => rcases h : c.onTable t work with ⟨_ | _, c'⟩ <;> simp only [h]
  | createTable columns =>
    simp only [run, effect]
    cases c.findDatabase target.database <;> rfl
  | dropTable =>
    simp only [run, effect]
    cases c.findDatabase target.database with
    | error fault => rfl
    | ok d => rcases h : c.dropTable d target.table with ⟨_ | _, c'⟩ <;> simp only [h]

/-! ### Opening a computation -/

section Run
variable {α β : Type} (c : Catalog)

theorem run_bind (m : Run α) (k : α → Run β) :
    (m >>= k).run.run c =
      match m.run.run c with
      | (.ok a, c) => (k a).run.run c
      | (.error f, c) => (.error f, c) := by
  rw [ExceptT.run_bind, StateT.run_bind]
  rcases m.run.run c with ⟨_ | _, _⟩ <;> rfl

theorem run_get : (get : Run Catalog).run.run c = (.ok c, c) := rfl

@[simp] theorem run_lift (x : Except Failure α) : (liftM x : Run α).run.run c = (x, c) := by
  cases x <;> rfl

@[simp] theorem run_step (f : Catalog → Except CatalogFault α × Catalog) :
    (step f).run.run c = ((f c).1.mapError CatalogFault.failure, (f c).2) := by
  unfold step
  simp only [run_bind]
  show (liftM ((f c).1.mapError CatalogFault.failure) : Run α).run.run (f c).2 = _
  exact run_lift ..

@[simp] theorem run_onTable (t : TableRef) (f : Table → α × Table) :
    (onTable t f).run.run c =
      match c.onTable t f with
      | (some a, c) => (.ok a, c)
      | (none, c) => (.error ⟨.internal, "no such table"⟩, c) := by
  unfold onTable
  simp only [run_bind, run_get]
  rcases c.onTable t f with ⟨_ | a, c'⟩ <;> rfl

/-- A computation that decodes first does what a plan says that decodes first. -/
theorem run_decode {payload : Bytes} [Wire α] {k : α → Run Bytes} {next : α → Plan}
    {target : TableName} (h : ∀ x, (k x).run.run c = (next x).run target c) :
    (decode payload >>= k).run.run c = (decoding payload next).run target c := by
  rw [run_bind, decode, run_lift, decoding]
  cases (Wire.decode payload : Except Wire.Fault α) with
  | ok x => exact h x
  | error fault => rfl

theorem run_decodeFilter {s : Service} {payload : Bytes} {k : Option Filter → Run Bytes}
    {next : Option Filter → Plan} {target : TableName}
    (h : ∀ filter, (k filter).run.run c = (next filter).run target c) :
    (s.decodeFilter payload >>= k).run.run c = (s.filtering payload next).run target c := by
  rw [run_bind]
  unfold decodeFilter filtering
  by_cases he : payload.isEmpty = true
  · simp only [he, if_true]
    exact h none
  · simp only [he, Bool.false_eq_true, if_false]
    cases (Wire.decode payload : Except Wire.Fault Filter) with
    | ok filter => exact h (some filter)
    | error fault =>
      by_cases hl : s.lenient = true
      · simp only [hl, if_true]
        exact h (some .nothing)
      · simp only [hl, Bool.false_eq_true, if_false]
        rfl

/-- A computation that finds its table, works on it and answers by the outcome alone. -/
theorem run_work {r : Request} {f : Table → α × Table} {k : α → Run Bytes}
    {g : α → Except Failure Bytes} (hk : ∀ a c, (k a).run.run c = (g a, c)) :
    (target r >>= fun t => onTable t f >>= k).run.run c =
      (Plan.onTarget fun table => (g (f table).1, (f table).2)).run r.target c := by
  rw [run_bind, target, run_step, Plan.run, Catalog.onTarget]
  cases c.find r.target with
  | error fault => rfl
  | ok t =>
    show (onTable t f >>= k).run.run c = _
    rw [run_bind, run_onTable]
    simp only [Catalog.onTable]
    cases c.table? t with
    | none => rfl
    | some table => exact hk ..

/-- A computation that takes a step on the catalog and answers nothing. -/
theorem run_step_void (f : Catalog → Except CatalogFault α × Catalog) :
    (do let _ ← step f; return [] : Run Bytes).run.run c =
      (((f c).1.mapError CatalogFault.failure).map fun _ => [], (f c).2) := by
  rw [run_bind, run_step]
  cases (f c).1 <;> rfl

/-- A computation that finds its database and goes on with the catalog as it is. -/
theorem run_targetDatabase {r : Request} {k : DatabaseRef → Run Bytes} :
    (targetDatabase r >>= k).run.run c =
      match c.findDatabase r.target.database with
      | .error fault => (.error fault.failure, c)
      | .ok d => (k d).run.run c := by
  rw [run_bind, targetDatabase, run_step]
  cases c.findDatabase r.target.database <;> rfl

end Run

/-! ### The plan of each operation -/

section Operations
variable (s : Service) (r : Request) (c : Catalog)

theorem run_save :
    (save r).run.run c = (decoding r.payload fun row => .onTarget (.save row)).run r.target c := by
  unfold save
  refine run_decode c fun row => run_work (g := Except.map Wire.encode) c fun saved c => ?_
  cases saved <;> rfl

theorem run_saveBatch :
    (saveBatch r).run.run c =
      (decoding r.payload fun rows => .onTarget (.saveAll rows)).run r.target c := by
  unfold saveBatch
  exact run_decode c fun rows => run_work c fun outcomes c => rfl

theorem run_query :
    (s.query r).run.run c =
      (s.filtering r.payload fun filter => .onTarget (.query filter)).run r.target c := by
  unfold query
  exact run_decodeFilter c fun filter => run_work c fun rows c => rfl

theorem run_update :
    (s.update r).run.run c =
      (decoding r.payload fun u : UpdatePayload =>
        s.filtering u.filter fun filter => .onTarget (.update filter u.patch)).run r.target c := by
  unfold update
  refine run_decode c fun u => ?_
  exact run_decodeFilter c fun filter => run_work c fun ids c => rfl

theorem run_delete :
    (s.delete r).run.run c =
      (s.filtering r.payload fun filter => .onTarget (.delete filter)).run r.target c := by
  unfold delete
  exact run_decodeFilter c fun filter => run_work c fun ids c => rfl

theorem run_aggregate :
    (aggregate r).run.run c =
      (decoding r.payload fun filter => .onTarget (.aggregate filter)).run r.target c := by
  unfold aggregate
  refine run_decode c fun filter => run_work (g := Except.map Wire.encode) c fun value c => ?_
  cases value <;> rfl

theorem run_createDatabase :
    (createDatabase r).run.run c = Plan.createDatabase.run r.target c := by
  unfold createDatabase
  exact run_step_void c _

theorem run_createTable :
    (createTable r).run.run c = (decoding r.payload .createTable).run r.target c := by
  unfold createTable
  refine run_decode c fun columns => ?_
  rw [run_targetDatabase, Plan.run]
  cases c.findDatabase r.target.database with
  | error fault => rfl
  | ok d => exact run_step_void c _

theorem run_dropTable : (dropTable r).run.run c = Plan.dropTable.run r.target c := by
  unfold dropTable
  rw [run_targetDatabase, Plan.run]
  cases c.findDatabase r.target.database with
  | error fault => rfl
  | ok d =>
    simp only [run_step]
    rcases c.dropTable d r.target.table with ⟨_ | _, _⟩ <;> rfl

end Operations

/-- **Every request is carried out by its plan.** -/
theorem execute_eq_run (s : Service) (now : Readings) (r : Request) (c : Catalog) :
    s.execute now r c = (s.plan now r).run r.target c := by
  unfold execute carryOut plan
  by_cases hmem : r.operation ∈ s.operations
  · rw [if_pos hmem, if_pos hmem]
    cases r.operation with
    | save => exact run_save r c
    | saveBatch => exact run_saveBatch r c
    | query => exact run_query s r c
    | update => exact run_update s r c
    | delete => exact run_delete s r c
    | aggregate => exact run_aggregate r c
    | createDatabase => exact run_createDatabase r c
    | createTable => exact run_createTable r c
    | dropTable => exact run_dropTable r c
    | ping | stats => rfl
  · rw [if_neg hmem, if_neg hmem]
    rfl

/-! ### The work of a plan -/

/-- Work on the target is that of an action. -/
def Plan.IsSound : Plan → Prop
  | onTarget work => ∃ a, work.Does a
  | refuse _ | answer _ | createDatabase | createTable _ | dropTable => True

/-- What holds of every refusal, and of what comes after decoding, holds of a plan that decodes
first. -/
theorem decoding_induction {α : Type} [Wire α] {P : Plan → Prop} {payload : Bytes}
    {next : α → Plan} (hrefuse : ∀ f, P (.refuse f))
    (hnext : ∀ x, Wire.decode payload = .ok x → P (next x)) : P (decoding payload next) := by
  rw [decoding]
  split
  · exact hnext _ ‹_›
  · exact hrefuse _

/-- The same of a plan that finds its filter first. -/
theorem filtering_induction {s : Service} {P : Plan → Prop} {payload : Bytes}
    {next : Option Filter → Plan} (hrefuse : ∀ f, P (.refuse f))
    (hnext : ∀ filter, P (next filter)) : P (s.filtering payload next) := by
  rw [filtering]
  split
  · exact hnext none
  split
  · exact hnext _
  split
  · exact hnext _
  · exact hrefuse _

/-- **The work of every plan is that of one action on the target.** -/
theorem plan_isSound (s : Service) (now : Readings) (r : Request) : (s.plan now r).IsSound := by
  unfold plan
  by_cases hmem : r.operation ∈ s.operations
  · rw [if_pos hmem]
    have hrefuse : ∀ f, (Plan.refuse f).IsSound := fun _ => trivial
    cases r.operation with
    | save => exact decoding_induction hrefuse fun row _ => ⟨_, TableWork.save_does row⟩
    | saveBatch => exact decoding_induction hrefuse fun rows _ => ⟨_, TableWork.saveAll_does rows⟩
    | query => exact filtering_induction hrefuse fun filter => ⟨_, TableWork.query_does filter⟩
    | update =>
      refine decoding_induction hrefuse fun u _ => filtering_induction hrefuse fun filter => ?_
      exact ⟨_, TableWork.update_does filter u.patch⟩
    | delete => exact filtering_induction hrefuse fun filter => ⟨_, TableWork.delete_does filter⟩
    | aggregate =>
      exact decoding_induction hrefuse fun filter _ => ⟨_, TableWork.aggregate_does filter⟩
    | createTable => exact decoding_induction hrefuse fun columns _ => trivial
    | createDatabase | dropTable | ping | stats => trivial
  · rw [if_neg hmem]
    trivial

/-! ### Readings -/

/-- Only a request for statistics looks at the clock and the counters. -/
theorem plan_of_ne_stats {r : Request} (h : r.operation ≠ .stats) (s : Service)
    (now now' : Readings) : s.plan now r = s.plan now' r := by
  rw [plan, plan]
  cases hop : r.operation with
  | stats => exact absurd hop h
  | _ => rfl

theorem execute_of_ne_stats {r : Request} (h : r.operation ≠ .stats) (s : Service)
    (now now' : Readings) (c : Catalog) : s.execute now r c = s.execute now' r c := by
  rw [execute_eq_run, execute_eq_run, plan_of_ne_stats h s now now']

end Service
end KeyedRows
