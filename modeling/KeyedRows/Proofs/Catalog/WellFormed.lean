/-
# Well-formed catalogs

A catalog is well formed if whatever its names lead to carries that name, no
database is unnamed, and every table is well formed. References are never taken
back, so a name that leads somewhere keeps leading to the same object: creating
appends, dropping forgets a name, and work on a table leaves its name alone.

Each operation on the catalog keeps this: `WellFormed.createDatabase`,
`WellFormed.dropDatabase`, `WellFormed.createTable`, `WellFormed.dropTable` and
`WellFormed.onTable`.
-/

import KeyedRows.Catalog.Basic
import KeyedRows.Proofs.Table.WellFormed

namespace KeyedRows
namespace Catalog

/-- Names lead to what carries them, and every database and table is as it should be. -/
structure WellFormed (c : Catalog) : Prop where
  database_name : ∀ name d, c.names.get? name = some d → (c.database? d).map (·.name) = some name
  databases_named : ∀ db ∈ c.databases, db.name ≠ ""
  table_name : ∀ db ∈ c.databases, ∀ name t,
    db.tables.get? name = some t → (c.table? t).map (·.name) = some name
  tables_wellFormed : ∀ t ∈ c.tables, t.WellFormed

/-- A catalog without databases is well formed. -/
theorem wellFormed_empty (limits : ScanLimits) : (empty limits).WellFormed where
  database_name _ _ h := by contradiction
  databases_named _ h := by contradiction
  table_name _ h := by contradiction
  tables_wellFormed _ h := by contradiction

namespace WellFormed
variable {c : Catalog}

/-! ### What a name leads to -/

/-- A name of the catalog leads to a database of this name, which is not empty. -/
theorem of_findDatabase (h : c.WellFormed) {name : String} {d : DatabaseRef}
    (hd : c.findDatabase name = .ok d) :
    name ≠ "" ∧ ∃ db, c.database? d = some db ∧ db.name = name := by
  have hget : c.names.get? name = some d := by
    unfold findDatabase at hd
    cases hn : c.names.get? name <;> simp_all
  obtain ⟨db, hdb, hname⟩ := Option.map_eq_some_iff.1 (h.database_name name d hget)
  refine ⟨?_, db, hdb, hname⟩
  rw [← hname]
  exact h.databases_named db (List.mem_of_getElem? hdb)

/-- A name of a database leads to a well-formed table of this name. -/
theorem of_tableIn? (h : c.WellFormed) {d : DatabaseRef} {name : String} {t : TableRef}
    (ht : c.tableIn? d name = some t) :
    ∃ table, c.table? t = some table ∧ table.name = name ∧ table.WellFormed := by
  obtain ⟨db, hdb, hget⟩ := Option.bind_eq_some_iff.1 ht
  have hname := h.table_name db (List.mem_of_getElem? hdb) name t hget
  obtain ⟨table, htable, hname⟩ := Option.map_eq_some_iff.1 hname
  exact ⟨table, htable, hname, h.tables_wellFormed table (List.mem_of_getElem? htable)⟩

/-! ### What keeps it -/

/-- Work that keeps the name of a table and keeps it well formed. -/
theorem onTable (h : c.WellFormed) {α : Type} (t : TableRef) {f : Table → α × Table}
    (hf : ∀ table : Table, table.WellFormed →
      (f table).2.WellFormed ∧ (f table).2.name = table.name) :
    (c.onTable t f).2.WellFormed := by
  unfold Catalog.onTable
  cases ht : c.table? t with
  | none => exact h
  | some table =>
    have hmem : table ∈ c.tables := List.mem_of_getElem? ht
    obtain ⟨hwell, hname⟩ := hf table (h.tables_wellFormed table hmem)
    refine ⟨h.database_name, h.databases_named, fun db hdb name u hu => ?_, fun u hu => ?_⟩
    · have hbefore := h.table_name db hdb name u hu
      show ((c.tables.set t.place (f table).2)[u.place]?).map (·.name) = some name
      by_cases he : t.place = u.place
      · obtain ⟨hlt, -⟩ := List.getElem?_eq_some_iff.1 ht
        rw [table?, ← he, ← table?, ht] at hbefore
        rw [← he, List.getElem?_set_self hlt, Option.map_some, hname]
        exact hbefore
      · rw [List.getElem?_set_ne he]
        exact hbefore
    · rcases List.mem_or_eq_of_mem_set hu with hu | rfl
      · exact h.tables_wellFormed u hu
      · exact hwell

/-- What a list held at a place it holds there after something was appended. -/
private theorem getElem?_append_of_map {α β : Type} {l : List α} {i : Nat} {f : α → β} {b : β}
    (h : l[i]?.map f = some b) (l' : List α) : (l ++ l')[i]?.map f = some b := by
  obtain ⟨a, ha, rfl⟩ := Option.map_eq_some_iff.1 h
  obtain ⟨hlt, -⟩ := List.getElem?_eq_some_iff.1 ha
  rw [List.getElem?_append_left hlt, ha]
  rfl

theorem createDatabase (h : c.WellFormed) (name : String) :
    (c.createDatabase name).2.WellFormed := by
  unfold Catalog.createDatabase
  by_cases hn : name.isEmpty = true
  · rw [if_pos hn]
    exact h
  rw [if_neg hn]
  cases hget : c.names.get? name with
  | some d => exact h
  | none =>
    refine ⟨fun n d hd => ?_, fun db hdb => ?_, fun db hdb n t ht => ?_, h.tables_wellFormed⟩
    · rw [OrderedMap.get?_insert] at hd
      by_cases he : n = name
      · rw [if_pos he, Option.some.injEq] at hd
        subst hd he
        simp [database?]
      · rw [if_neg he] at hd
        exact getElem?_append_of_map (h.database_name n d hd) _
    · rcases List.mem_append.1 hdb with hdb | hdb
      · exact h.databases_named db hdb
      · rw [List.mem_singleton.1 hdb]
        simpa using hn
    · rcases List.mem_append.1 hdb with hdb | hdb
      · exact h.table_name db hdb n t ht
      · rw [List.mem_singleton.1 hdb] at ht
        contradiction

theorem dropDatabase (h : c.WellFormed) (name : String) : (c.dropDatabase name).2.WellFormed where
  database_name n d hd := by
    rw [Catalog.dropDatabase, OrderedMap.get?_erase, Option.ite_none_left_eq_some] at hd
    exact h.database_name n d hd.2
  databases_named := h.databases_named
  table_name := h.table_name
  tables_wellFormed := h.tables_wellFormed

/-- A table may be added before any name leads to it. -/
theorem addTable (h : c.WellFormed) {table : Table} (ht : table.WellFormed) :
    ({ c with tables := c.tables ++ [table] } : Catalog).WellFormed where
  database_name := h.database_name
  databases_named := h.databases_named
  table_name db hdb name t hget := getElem?_append_of_map (h.table_name db hdb name t hget) _
  tables_wellFormed u hu := by
    rcases List.mem_append.1 hu with hu | hu
    · exact h.tables_wellFormed u hu
    · rw [List.mem_singleton.1 hu]
      exact ht

/-- Names of tables may change as long as they still lead to what carries them. -/
theorem renameTables (h : c.WellFormed) (d : DatabaseRef)
    {f : OrderedMap String TableRef → OrderedMap String TableRef}
    (hf : ∀ m name t, (f m).get? name = some t →
      m.get? name = some t ∨ (c.table? t).map (·.name) = some name) :
    (c.renameTables d f).WellFormed := by
  -- every database after the change comes from one before it, under the same name
  have hmem : ∀ db ∈ (c.renameTables d f).databases, ∃ old ∈ c.databases,
      db.name = old.name ∧ (db.tables = old.tables ∨ db.tables = f old.tables) := by
    intro db hdb
    obtain ⟨i, hi⟩ := List.mem_iff_getElem?.1 hdb
    rw [Catalog.renameTables, List.getElem?_modify] at hi
    obtain ⟨old, hold, rfl⟩ := Option.map_eq_some_iff.1 hi
    refine ⟨old, List.mem_of_getElem? hold, ?_⟩
    by_cases hp : d.place = i
    · rw [if_pos hp]
      exact ⟨rfl, .inr rfl⟩
    · rw [if_neg hp]
      exact ⟨rfl, .inl rfl⟩
  refine ⟨fun name e he => ?_, fun db hdb => ?_, fun db hdb name t ht => ?_, h.tables_wellFormed⟩
  · have hbefore := h.database_name name e he
    rw [database?] at hbefore
    obtain ⟨db, hdb, hname⟩ := Option.map_eq_some_iff.1 hbefore
    rw [database?, Catalog.renameTables, List.getElem?_modify, hdb]
    by_cases hp : d.place = e.place <;> simp [hp, hname]
  · obtain ⟨old, hold, hname, -⟩ := hmem db hdb
    rw [hname]
    exact h.databases_named old hold
  · obtain ⟨old, hold, -, htables⟩ := hmem db hdb
    rcases htables with htables | htables <;> rw [htables] at ht
    · exact h.table_name old hold name t ht
    · rcases hf _ name t ht with hget | hname
      · exact h.table_name old hold name t hget
      · exact hname

theorem createTable (h : c.WellFormed) (d : DatabaseRef) (name : String) (columns : List Column) :
    (c.createTable d name columns).2.WellFormed := by
  unfold Catalog.createTable
  cases c.tableIn? d name with
  | some t => exact h
  | none =>
    cases hc : Table.create name columns c.limits with
    | error fault => exact h
    | ok table =>
      have hname : table.name = name := by
        obtain ⟨-, rfl⟩ := Table.create_cases hc
        rfl
      -- the table comes first, so that the new name leads to it
      have hadd := h.addTable (Table.wellFormed_create hc)
      show (Catalog.renameTables { c with tables := c.tables ++ [table] } d
        (·.insert name ⟨c.tables.length⟩)).WellFormed
      refine hadd.renameTables d fun m n t ht => ?_
      rw [OrderedMap.get?_insert] at ht
      by_cases he : n = name
      · rw [if_pos he, Option.some.injEq] at ht
        subst ht he
        exact .inr (by simp [table?, hname])
      · rw [if_neg he] at ht
        exact .inl ht

theorem dropTable (h : c.WellFormed) (d : DatabaseRef) (name : String) :
    (c.dropTable d name).2.WellFormed := by
  refine h.renameTables (f := (·.erase name)) d fun m n t ht => ?_
  rw [OrderedMap.get?_erase] at ht
  by_cases he : n = name
  · rw [if_pos he] at ht
    contradiction
  · rw [if_neg he] at ht
    exact .inl ht

end WellFormed
end Catalog
end KeyedRows
