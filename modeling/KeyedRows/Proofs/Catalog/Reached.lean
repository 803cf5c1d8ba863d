/-
# Catalogs that operations lead to

Databases and tables are created and dropped by name, and references to them may
be used for as long as one likes. In whatever order this happens, a table is
never reached through two databases: a new table gets a place of its own, and
names are only ever taken away from the others. Together with the names that
databases and tables carry (`Catalog.WellFormed`) this means that two names never
lead to one table (`Reached.find_injective`).

What the operations do to look-up is said first, for each of the two ways in
which a catalog grows (`addDatabase` and `addTable`) and for the names of tables
(`tableIn?_renameTables`).
-/

import KeyedRows.Proofs.Catalog.WellFormed

namespace KeyedRows
namespace Catalog

/-! ### Look-up -/

section Lookup
variable {c : Catalog}

theorem findDatabase_eq_ok_iff {name : String} {d : DatabaseRef} :
    c.findDatabase name = .ok d ↔ c.names.get? name = some d := by
  rw [findDatabase]
  cases c.names.get? name <;> simp

/-- A table is found in two steps: its database by name, then the table by name in it. -/
theorem find_eq_ok_iff {name : TableName} {t : TableRef} :
    c.find name = .ok t ↔
      ∃ d, c.findDatabase name.database = .ok d ∧ c.tableIn? d name.table = some t := by
  rw [find]
  cases c.findDatabase name.database with
  | error fault => simp [bind, Except.bind]
  | ok d =>
    show c.findTable d name.table = .ok t ↔ _
    rw [findTable]
    cases h : c.tableIn? d name.table <;> simp [h]

theorem findTable_eq_ok_iff {d : DatabaseRef} {name : String} {t : TableRef} :
    c.findTable d name = .ok t ↔ c.tableIn? d name = some t := by
  rw [findTable]
  cases c.tableIn? d name <;> simp

theorem kind_of_findDatabase {name : String} {fault : CatalogFault}
    (h : c.findDatabase name = .error fault) : fault.kind = .notFound := by
  rw [findDatabase] at h
  split at h
  · contradiction
  · obtain rfl := Except.error.inj h
    rfl

theorem kind_of_findTable {d : DatabaseRef} {name : String} {fault : CatalogFault}
    (h : c.findTable d name = .error fault) : fault.kind = .notFound := by
  rw [findTable] at h
  split at h
  · contradiction
  · obtain rfl := Except.error.inj h
    rfl

/-- A table is refused because it, or its database, is not there. -/
theorem kind_of_find {target : TableName} {fault : CatalogFault}
    (h : c.find target = .error fault) : fault.kind = .notFound := by
  rw [find] at h
  cases hd : c.findDatabase target.database with
  | error missing =>
    rw [hd] at h
    obtain rfl := Except.error.inj h
    exact kind_of_findDatabase hd
  | ok d =>
    rw [hd] at h
    exact kind_of_findTable h

theorem mem_databaseNames_iff {name : String} :
    name ∈ c.databaseNames ↔ ∃ d, c.findDatabase name = .ok d := by
  rw [databaseNames, OrderedMap.mem_keys_iff, Option.isSome_iff_exists]
  simp only [findDatabase_eq_ok_iff]

end Lookup

/-- Changing the names of the tables of a database changes that database and no other. -/
theorem database?_renameTables (c : Catalog) (d e : DatabaseRef)
    (f : OrderedMap String TableRef → OrderedMap String TableRef) :
    (c.renameTables d f).database? e =
      if e = d then (c.database? d).map fun db => { db with tables := f db.tables }
      else c.database? e := by
  rw [database?, renameTables, List.getElem?_modify]
  by_cases he : e = d
  · subst he
    rw [if_pos rfl, database?]
    cases c.databases[e.place]? <;> simp
  · have hplace : ¬ d.place = e.place := by
      intro h
      apply he
      cases d; cases e; simp_all
    rw [if_neg he, database?]
    cases c.databases[e.place]? <;> simp [hplace]

/-- Changing the names of the tables of a database changes what is found in it and in no other. -/
theorem tableIn?_renameTables (c : Catalog) (d e : DatabaseRef)
    (f : OrderedMap String TableRef → OrderedMap String TableRef) (name : String) :
    (c.renameTables d f).tableIn? e name =
      if e = d then (c.database? d).bind fun db => (f db.tables).get? name
      else c.tableIn? e name := by
  rw [tableIn?, database?_renameTables]
  by_cases he : e = d
  · rw [if_pos he, if_pos he]
    cases c.database? d <;> rfl
  · rw [if_neg he, if_neg he, tableIn?]

/-! ### What is added -/

/-- The catalog with one more database, which is empty. -/
def addDatabase (c : Catalog) (name : String) : Catalog :=
  { c with
    names := c.names.insert name ⟨c.databases.length⟩
    databases := c.databases ++ [⟨name, ∅⟩] }

/-- The catalog with one more table, under its name in a database. -/
def addTable (c : Catalog) (d : DatabaseRef) (table : Table) : Catalog :=
  ({ c with tables := c.tables ++ [table] } : Catalog).renameTables d
    (·.insert table.name ⟨c.tables.length⟩)

/-- Creating a database is refused, or finds the name taken, or adds a database under it. -/
theorem createDatabase_outcome (c : Catalog) (name : String) :
    (name = "" ∧ c.createDatabase name = (.error .unnamedDatabase, c)) ∨
      (∃ d, c.names.get? name = some d ∧ c.createDatabase name = (.ok d, c)) ∨
      (c.names.get? name = none ∧
        c.createDatabase name = (.ok ⟨c.databases.length⟩, c.addDatabase name)) := by
  rw [createDatabase]
  by_cases hn : name.isEmpty = true
  · rw [if_pos hn]
    exact .inl ⟨String.isEmpty_iff.1 hn, rfl⟩
  rw [if_neg hn]
  cases hget : c.names.get? name with
  | some d => exact .inr (.inl ⟨d, rfl, rfl⟩)
  | none => exact .inr (.inr ⟨rfl, rfl⟩)

/-- Creating a database changes nothing, or adds a database of a name that was free. -/
theorem createDatabase_cases (c : Catalog) (name : String) :
    (c.createDatabase name).2 = c ∨
      (c.names.get? name = none ∧ (c.createDatabase name).2 = c.addDatabase name) := by
  rcases c.createDatabase_outcome name with ⟨-, h⟩ | ⟨d, -, h⟩ | ⟨hfree, h⟩ <;> rw [h]
  · exact .inl rfl
  · exact .inl rfl
  · exact .inr ⟨hfree, rfl⟩

/-- Creating a table finds the name taken, or is refused for its columns, or adds a table without
rows under the name. -/
theorem createTable_outcome (c : Catalog) (d : DatabaseRef) (name : String)
    (columns : List Column) :
    (∃ t, c.tableIn? d name = some t ∧ c.createTable d name columns = (.ok t, c)) ∨
      (∃ fault, Table.create name columns c.limits = .error fault ∧
        c.createTable d name columns = (.error (.schema name fault), c)) ∨
      (c.tableIn? d name = none ∧ c.createTable d name columns =
        (.ok ⟨c.tables.length⟩, c.addTable d ⟨name, columns, c.limits, ∅⟩)) := by
  rw [createTable]
  cases hget : c.tableIn? d name with
  | some t => exact .inl ⟨t, rfl, rfl⟩
  | none =>
    cases hcreate : Table.create name columns c.limits with
    | error fault => exact .inr (.inl ⟨fault, rfl, rfl⟩)
    | ok table =>
      obtain ⟨-, rfl⟩ := Table.create_cases hcreate
      exact .inr (.inr ⟨rfl, rfl⟩)

/-- Creating a table changes nothing, or adds a table without rows under a name that was free. -/
theorem createTable_cases (c : Catalog) (d : DatabaseRef) (name : String)
    (columns : List Column) :
    (c.createTable d name columns).2 = c ∨
      (c.tableIn? d name = none ∧
        (c.createTable d name columns).2 = c.addTable d ⟨name, columns, c.limits, ∅⟩) := by
  rcases c.createTable_outcome d name columns with ⟨t, -, h⟩ | ⟨fault, -, h⟩ | ⟨hfree, h⟩ <;>
    rw [h]
  · exact .inl rfl
  · exact .inl rfl
  · exact .inr ⟨hfree, rfl⟩

/-- A new database holds no table, so nothing more is found. -/
theorem tableIn?_addDatabase (c : Catalog) (name : String) (d : DatabaseRef) (table : String) :
    (c.addDatabase name).tableIn? d table = c.tableIn? d table := by
  rw [tableIn?, tableIn?, database?, database?, addDatabase]
  rcases Nat.lt_trichotomy d.place c.databases.length with h | h | h
  · rw [List.getElem?_append_left h]
  · rw [List.getElem?_append_right (by omega), List.getElem?_eq_none (Nat.le_of_eq h.symm), h,
      Nat.sub_self]
    rfl
  · rw [List.getElem?_eq_none (by simp; omega), List.getElem?_eq_none (by omega)]

theorem findDatabase_addDatabase (c : Catalog) (name other : String) :
    (c.addDatabase name).findDatabase other =
      if other = name then .ok ⟨c.databases.length⟩ else c.findDatabase other := by
  rw [findDatabase, addDatabase, OrderedMap.get?_insert, findDatabase]
  by_cases h : other = name <;> simp [h]

/-- The new table stands at a place of its own. -/
theorem table?_addTable (c : Catalog) (d : DatabaseRef) (table : Table) (t : TableRef) :
    (c.addTable d table).table? t =
      if t.place = c.tables.length then some table else c.table? t := by
  show (c.tables ++ [table])[t.place]? = _
  by_cases h : t.place = c.tables.length
  · rw [if_pos h, h, List.getElem?_concat_length]
  · rw [if_neg h, table?]
    by_cases hlt : t.place < c.tables.length
    · rw [List.getElem?_append_left hlt]
    · rw [List.getElem?_eq_none (by simp; omega), List.getElem?_eq_none (by omega)]

/-- The new table is found in its database, and all else as before. -/
theorem tableIn?_addTable (c : Catalog) (d e : DatabaseRef) (table : Table) (name : String) :
    (c.addTable d table).tableIn? e name =
      if e = d ∧ name = table.name then (c.database? d).map fun _ => ⟨c.tables.length⟩
      else c.tableIn? e name := by
  rw [addTable, tableIn?_renameTables]
  by_cases he : e = d
  · subst he
    rw [if_pos rfl]
    show (c.database? e).bind _ = _
    by_cases hn : name = table.name
    · cases h : c.database? e <;> simp [hn]
    · cases h : c.database? e <;> simp [hn, tableIn?, h, OrderedMap.get?_insert_of_ne]
  · rw [if_neg he, if_neg fun h => he h.1]
    rfl

/-- A dropped name is no longer found, and all else as before. -/
theorem tableIn?_dropTable (c : Catalog) (d e : DatabaseRef) (name other : String) :
    (c.dropTable d name).2.tableIn? e other =
      if e = d ∧ other = name then none else c.tableIn? e other := by
  show (c.renameTables d (·.erase name)).tableIn? e other = _
  rw [tableIn?_renameTables]
  by_cases he : e = d
  · subst he
    rw [tableIn?]
    cases c.database? e <;> by_cases hn : other = name <;> simp [hn, OrderedMap.get?_erase]
  · rw [if_neg he, if_neg fun h => he h.1]

theorem names_onTable {α : Type} (c : Catalog) (t : TableRef) (f : Table → α × Table) :
    (c.onTable t f).2.names = c.names := by
  rw [onTable]
  split <;> rfl

theorem limits_onTable {α : Type} (c : Catalog) (t : TableRef) (f : Table → α × Table) :
    (c.onTable t f).2.limits = c.limits := by
  rw [onTable]
  split <;> rfl

theorem tableIn?_onTable {α : Type} (c : Catalog) (t : TableRef) (f : Table → α × Table)
    (d : DatabaseRef) (name : String) : (c.onTable t f).2.tableIn? d name = c.tableIn? d name := by
  rw [onTable]
  split <;> rfl

/-! ### No table has two databases -/

/-- A table is found in one database only. -/
def Unshared (c : Catalog) : Prop :=
  ∀ d e name other t, c.tableIn? d name = some t → c.tableIn? e other = some t → d = e

namespace Unshared
variable {c : Catalog}

/-- It is enough that nothing new is found. -/
theorem of_found (h : c.Unshared) {c' : Catalog}
    (hfound : ∀ d name t, c'.tableIn? d name = some t → c.tableIn? d name = some t) :
    c'.Unshared :=
  fun d e name other t hd he => h d e name other t (hfound d name t hd) (hfound e other t he)

/-- A new table is found nowhere else, because what was found before is a table already. -/
theorem addTable (h : c.Unshared) (hwell : c.WellFormed) (d : DatabaseRef) (table : Table) :
    (c.addTable d table).Unshared := by
  have hold : ∀ e name t, c.tableIn? e name = some t → t.place ≠ c.tables.length := by
    intro e name t ht hplace
    obtain ⟨found, hfound, -⟩ := hwell.of_tableIn? ht
    rw [table?, hplace, List.getElem?_eq_none (Nat.le_refl _)] at hfound
    contradiction
  have hnew : ∀ e name t, (c.addTable d table).tableIn? e name = some t →
      (e = d ∧ t.place = c.tables.length) ∨ c.tableIn? e name = some t := by
    intro e name t ht
    rw [tableIn?_addTable] at ht
    by_cases hcase : e = d ∧ name = table.name
    · rw [if_pos hcase] at ht
      obtain ⟨-, -, rfl⟩ := Option.map_eq_some_iff.1 ht
      exact .inl ⟨hcase.1, rfl⟩
    · rw [if_neg hcase] at ht
      exact .inr ht
  intro e e' name other t he he'
  rcases hnew e name t he with ⟨hd, hplace⟩ | he <;>
    rcases hnew e' other t he' with ⟨hd', hplace'⟩ | he'
  · exact hd.trans hd'.symm
  · exact absurd hplace (hold e' other t he')
  · exact absurd hplace' (hold e name t he)
  · exact h e e' name other t he he'

end Unshared

/-! ### Reached catalogs -/

/-- The catalogs that operations lead to from an empty one. Operations on a database or a table go
through references, whether or not a name still leads to them. -/
inductive Reached : Catalog → Prop
  | empty (limits : ScanLimits) : Reached (empty limits)
  | createDatabase {c : Catalog} (h : Reached c) (name : String) : Reached (c.createDatabase name).2
  | dropDatabase {c : Catalog} (h : Reached c) (name : String) : Reached (c.dropDatabase name).2
  | createTable {c : Catalog} (h : Reached c) (d : DatabaseRef) (name : String)
      (columns : List Column) : Reached (c.createTable d name columns).2
  | dropTable {c : Catalog} (h : Reached c) (d : DatabaseRef) (name : String) :
      Reached (c.dropTable d name).2
  | act {c : Catalog} (h : Reached c) (t : TableRef) (a : Table.Action) :
      Reached (c.onTable t (·.act a)).2

namespace Reached
variable {c : Catalog}

theorem wellFormed (h : c.Reached) : c.WellFormed := by
  induction h with
  | empty limits => exact wellFormed_empty limits
  | createDatabase _ name ih => exact ih.createDatabase name
  | dropDatabase _ name ih => exact ih.dropDatabase name
  | createTable _ d name columns ih => exact ih.createTable d name columns
  | dropTable _ d name ih => exact ih.dropTable d name
  | act _ t a ih =>
    exact ih.onTable t fun table htable =>
      ⟨htable.act a, congrArg Prod.fst (table.declaration_act a)⟩

theorem unshared (h : c.Reached) : c.Unshared := by
  induction h with
  | empty limits => intro d e name other t hd; contradiction
  | @createDatabase c hc name ih =>
    rcases c.createDatabase_cases name with h | ⟨-, h⟩ <;> rw [h]
    · exact ih
    · exact ih.of_found fun d table t ht => by rwa [tableIn?_addDatabase] at ht
  | dropDatabase _ name ih => exact ih
  | @createTable c hc d name columns ih =>
    rcases c.createTable_cases d name columns with h | ⟨-, h⟩ <;> rw [h]
    · exact ih
    · exact ih.addTable hc.wellFormed d _
  | dropTable _ d name ih =>
    refine ih.of_found fun e other t ht => ?_
    rw [tableIn?_dropTable] at ht
    exact (Option.ite_none_left_eq_some.1 ht).2
  | act _ t a ih => exact ih.of_found fun d name u hu => by rwa [tableIn?_onTable] at hu

/-- **Two names never lead to one table.** -/
theorem find_injective (h : c.Reached) {name other : TableName} {t : TableRef}
    (hname : c.find name = .ok t) (hother : c.find other = .ok t) : name = other := by
  obtain ⟨d, hd, ht⟩ := find_eq_ok_iff.1 hname
  obtain ⟨e, he, ht'⟩ := find_eq_ok_iff.1 hother
  obtain rfl := h.unshared d e _ _ t ht ht'
  -- the database and the table carry one name each
  obtain ⟨-, db, hdb, hdbName⟩ := h.wellFormed.of_findDatabase hd
  obtain ⟨-, db', hdb', hdbName'⟩ := h.wellFormed.of_findDatabase he
  obtain ⟨table, htable, htableName, -⟩ := h.wellFormed.of_tableIn? ht
  obtain ⟨table', htable', htableName', -⟩ := h.wellFormed.of_tableIn? ht'
  rw [hdb, Option.some.injEq] at hdb'
  rw [htable, Option.some.injEq] at htable'
  subst hdb' htable'
  cases name; cases other
  simp_all

end Reached
end Catalog
end KeyedRows
