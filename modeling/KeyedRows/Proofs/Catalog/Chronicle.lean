/-
# What a catalog remembers

Databases and tables are created, dropped and looked up by name, and references
that were handed out are used for as long as one likes, also after the name that
led to them is gone or leads elsewhere. Whoever keeps notes of what each move
handed out knows all there is to find.

A catalog holds directories at two levels: names of databases, and names of
tables, each within one database object. A move leaves at most one note at each
level, and the note is true (`databaseFollows`, `tableFollows`); so both
directories agree with the notes on them (`Chronicle.tracks`), and the rest is
what `Tracks` says of any directory.

What cannot be reached by names any more plays no part for what can: rows of a
dropped table, tables of a dropped database, and tables made in one
(`SameReach`).

Main statement: `Chronicle.remembers`.
-/

import KeyedRows.Proofs.Catalog.Directory
import KeyedRows.Proofs.Catalog.Reached

namespace KeyedRows
namespace Catalog

/-! ### Moves and the notes they leave -/

/-- Something done with a catalog. Whatever is done in a database or to a table goes through a
reference. -/
inductive Move where
  | createDatabase (name : String)
  | dropDatabase (name : String)
  | findDatabase (name : String)
  | createTable (d : DatabaseRef) (name : String) (columns : List Column)
  | dropTable (d : DatabaseRef) (name : String)
  | findTable (d : DatabaseRef) (name : String)
  | find (target : TableName)
  | act (t : TableRef) (a : Table.Action)

/-- The move only looks. -/
def Move.looks : Move → Bool
  | findDatabase _ | findTable _ _ | find _ => true
  | createDatabase _ | dropDatabase _ | createTable _ _ _ | dropTable _ _ | act _ _ => false

/-- The catalog after a move. -/
def perform (c : Catalog) : Move → Catalog
  | .createDatabase name => (c.createDatabase name).2
  | .dropDatabase name => (c.dropDatabase name).2
  | .createTable d name columns => (c.createTable d name columns).2
  | .dropTable d name => (c.dropTable d name).2
  | .act t a => (c.onTable t (·.act a)).2
  | .findDatabase _ | .findTable _ _ | .find _ => c

/-- What a move tells about the name of a database, unless it fails. -/
def databaseNote? (c : Catalog) : Move → Option (Note String DatabaseRef)
  | .createDatabase name => (c.createDatabase name).1.toOption.map fun d => ⟨.made, name, d⟩
  | .dropDatabase name => (c.dropDatabase name).1.map fun d => ⟨.dropped, name, d⟩
  | .findDatabase name => (c.findDatabase name).toOption.map fun d => ⟨.seen, name, d⟩
  | .find target =>
    (c.findDatabase target.database).toOption.map fun d => ⟨.seen, target.database, d⟩
  | .createTable _ _ _ | .dropTable _ _ | .findTable _ _ | .act _ _ => none

/-- What a move tells about the name of a table in a database, unless it fails. -/
def tableNote? (c : Catalog) : Move → Option (Note (DatabaseRef × String) TableRef)
  | .createTable d name columns =>
    (c.createTable d name columns).1.toOption.map fun t => ⟨.made, (d, name), t⟩
  | .dropTable d name => (c.dropTable d name).1.map fun t => ⟨.dropped, (d, name), t⟩
  | .findTable d name => (c.findTable d name).toOption.map fun t => ⟨.seen, (d, name), t⟩
  | .find target => (c.findDatabase target.database).toOption.bind fun d =>
    (c.findTable d target.table).toOption.map fun t => ⟨.seen, (d, target.table), t⟩
  | .createDatabase _ | .dropDatabase _ | .findDatabase _ | .act _ _ => none

/-- Notes of what moves handed out, the earliest first. -/
structure Notes where
  databases : List (Note String DatabaseRef)
  tables : List (Note (DatabaseRef × String) TableRef)

namespace Notes

/-- The notes after one more move. -/
def extend (past : Notes) (c : Catalog) (m : Move) : Notes :=
  ⟨past.databases ++ (c.databaseNote? m).toList, past.tables ++ (c.tableNote? m).toList⟩

/-- The reference that a move goes through, if any, was handed out earlier. -/
def Cover (past : Notes) : Move → Prop
  | .createTable d _ _ | .dropTable d _ | .findTable d _ => ∃ n ∈ past.databases, n.object = d
  | .act t _ => ∃ n ∈ past.tables, n.object = t
  | .createDatabase _ | .dropDatabase _ | .findDatabase _ | .find _ => True

instance (past : Notes) : (m : Move) → Decidable (past.Cover m)
  | .createTable d _ _ | .dropTable d _ | .findTable d _ =>
    inferInstanceAs (Decidable (∃ n ∈ past.databases, n.object = d))
  | .act t _ => inferInstanceAs (Decidable (∃ n ∈ past.tables, n.object = t))
  | .createDatabase _ | .dropDatabase _ | .findDatabase _ | .find _ =>
    inferInstanceAs (Decidable True)

/-- The table was dropped, or belongs to a database that was dropped. -/
def Lost (past : Notes) (t : TableRef) : Prop :=
  ∃ n ∈ past.tables, n.object = t ∧
    (n.deed = .dropped ∨ ∃ m ∈ past.databases, m.deed = .dropped ∧ m.object = n.name.1)

end Notes

/-- The catalogs that moves lead to from an empty one, with the notes that they leave. -/
inductive Chronicle : Notes → Catalog → Prop
  | empty (limits : ScanLimits) : Chronicle ⟨[], []⟩ (empty limits)
  | step {past : Notes} {c : Catalog} (h : Chronicle past c) (m : Move) (hm : past.Cover m) :
      Chronicle (past.extend c m) (c.perform m)

/-! ### The two directories -/

/-- The names of the databases. -/
def databaseDirectory (c : Catalog) : Directory String DatabaseRef :=
  ⟨c.names.get?, fun d => d.place < c.databases.length⟩

/-- The names of the tables of all databases. -/
def tableDirectory (c : Catalog) : Directory (DatabaseRef × String) TableRef :=
  ⟨fun k => c.tableIn? k.1 k.2, fun t => t.place < c.tables.length⟩

theorem toOption_findDatabase (c : Catalog) (name : String) :
    (c.findDatabase name).toOption = c.databaseDirectory.find name := by
  show _ = c.names.get? name
  rw [findDatabase]
  cases c.names.get? name <;> rfl

theorem toOption_findTable (c : Catalog) (d : DatabaseRef) (name : String) :
    (c.findTable d name).toOption = c.tableDirectory.find (d, name) := by
  show _ = c.tableIn? d name
  rw [findTable]
  cases c.tableIn? d name <;> rfl

theorem databases_onTable {α : Type} (c : Catalog) (t : TableRef) (f : Table → α × Table) :
    (c.onTable t f).2.databases = c.databases := by
  rw [onTable]
  split <;> rfl

theorem length_tables_onTable {α : Type} (c : Catalog) (t : TableRef) (f : Table → α × Table) :
    (c.onTable t f).2.tables.length = c.tables.length := by
  rw [onTable]
  split
  · rfl
  · exact List.length_set

theorem length_databases_renameTables (c : Catalog) (d : DatabaseRef)
    (f : OrderedMap String TableRef → OrderedMap String TableRef) :
    (c.renameTables d f).databases.length = c.databases.length := List.length_modify ..

/-- The names of databases stay as they are. -/
theorem databaseFollows_of_same {c c' : Catalog} (hnames : c'.names = c.names)
    (hlength : c'.databases.length = c.databases.length) :
    Follows c.databaseDirectory none c'.databaseDirectory := by
  refine ⟨fun name => ?_, fun d hd => ?_⟩
  · show c'.names.get? name = c.names.get? name
    rw [hnames]
  · show d.place < c'.databases.length
    rw [hlength]
    exact hd

/-- The names of tables stay as they are. -/
theorem tableFollows_of_same {c c' : Catalog}
    (hfind : ∀ d name, c'.tableIn? d name = c.tableIn? d name)
    (hlength : c'.tables.length = c.tables.length) :
    Follows c.tableDirectory none c'.tableDirectory := by
  refine ⟨fun k => hfind k.1 k.2, fun t ht => ?_⟩
  show t.place < c'.tables.length
  rw [hlength]
  exact ht

/-- **Every move leaves a true note on the names of databases, or leaves them alone.** -/
theorem databaseFollows (c : Catalog) (m : Move) :
    Follows c.databaseDirectory (c.databaseNote? m) (c.perform m).databaseDirectory := by
  cases m with
  | createDatabase name =>
    rcases c.createDatabase_outcome name with ⟨-, h⟩ | ⟨d, hd, h⟩ | ⟨hfree, h⟩ <;>
      rw [databaseNote?, perform, h]
    · exact .refl _
    · exact .met (by decide) hd
    · have hlength : (c.addDatabase name).databases.length = c.databases.length + 1 :=
        List.length_append
      refine .give hfree (Nat.lt_irrefl _) ?_ (fun other => OrderedMap.get?_insert ..) fun d hd => ?_
      · show c.databases.length < (c.addDatabase name).databases.length
        rw [hlength]
        exact Nat.lt_succ_self _
      · show d.place < (c.addDatabase name).databases.length
        rw [hlength]
        exact Nat.lt_succ_of_lt hd
  | dropDatabase name => exact .drop (fun other => OrderedMap.get?_erase ..) fun _ h => h
  | findDatabase name =>
    rw [databaseNote?, toOption_findDatabase]
    exact .look _ name
  | find target =>
    rw [databaseNote?, toOption_findDatabase]
    exact .look _ target.database
  | createTable d name columns =>
    rcases c.createTable_cases d name columns with h | ⟨-, h⟩ <;> rw [perform, h]
    · exact .refl _
    · exact databaseFollows_of_same rfl (length_databases_renameTables _ d _)
  | dropTable d name => exact databaseFollows_of_same rfl (length_databases_renameTables c d _)
  | findTable d name => exact .refl _
  | act t a =>
    exact databaseFollows_of_same (names_onTable c t _) (by rw [perform, databases_onTable])

/-- **Every move leaves a true note on the names of tables, or leaves them alone.** A table is made
in a database there is. -/
theorem tableFollows (c : Catalog) (m : Move)
    (hm : ∀ d name columns, m = .createTable d name columns → d.place < c.databases.length) :
    Follows c.tableDirectory (c.tableNote? m) (c.perform m).tableDirectory := by
  cases m with
  | createTable d name columns =>
    rcases c.createTable_outcome d name columns with ⟨t, ht, h⟩ | ⟨fault, -, h⟩ | ⟨hfree, h⟩ <;>
      rw [tableNote?, perform, h]
    · exact .met (by decide) ht
    · exact .refl _
    · have hlength : (c.addTable d ⟨name, columns, c.limits, ∅⟩).tables.length =
          c.tables.length + 1 := List.length_append
      obtain ⟨db, hdb⟩ : ∃ db, c.database? d = some db :=
        ⟨_, List.getElem?_eq_getElem (hm d name columns rfl)⟩
      refine .give hfree (Nat.lt_irrefl _) ?_ (fun k => ?_) fun t ht => ?_
      · show c.tables.length < (c.addTable d _).tables.length
        rw [hlength]
        exact Nat.lt_succ_self _
      · show (c.addTable d _).tableIn? k.1 k.2 = _
        rw [tableIn?_addTable, hdb, Option.map_some]
        simp only [Prod.ext_iff]
        rfl
      · show t.place < (c.addTable d _).tables.length
        rw [hlength]
        exact Nat.lt_succ_of_lt ht
  | dropTable d name =>
    show Follows c.tableDirectory ((c.tableDirectory.find (d, name)).map fun t =>
      ⟨.dropped, (d, name), t⟩) (c.dropTable d name).2.tableDirectory
    refine .drop (fun k => ?_) fun _ h => h
    show (c.dropTable d name).2.tableIn? k.1 k.2 = _
    rw [tableIn?_dropTable]
    simp only [Prod.ext_iff]
    rfl
  | findTable d name =>
    rw [tableNote?, toOption_findTable]
    exact .look _ (d, name)
  | find target =>
    rw [tableNote?]
    cases c.findDatabase target.database with
    | error fault => exact .refl _
    | ok d =>
      show Follows c.tableDirectory ((c.findTable d target.table).toOption.map _) c.tableDirectory
      rw [toOption_findTable]
      exact .look _ (d, target.table)
  | createDatabase name =>
    rcases c.createDatabase_cases name with h | ⟨-, h⟩ <;> rw [perform, h]
    · exact .refl _
    · exact tableFollows_of_same (tableIn?_addDatabase c name) rfl
  | dropDatabase name => exact tableFollows_of_same (fun _ _ => rfl) rfl
  | findDatabase name => exact .refl _
  | act t a => exact tableFollows_of_same (tableIn?_onTable c t _) (length_tables_onTable c t _)

/-- **The notes and both directories agree.** -/
theorem Chronicle.tracks {past : Notes} {c : Catalog} (h : Chronicle past c) :
    Tracks c.databaseDirectory past.databases ∧ Tracks c.tableDirectory past.tables := by
  induction h with
  | empty limits => exact ⟨.empty fun _ => rfl, .empty fun _ => rfl⟩
  | step h m hm ih =>
    obtain ⟨hdatabases, htables⟩ := ih
    refine ⟨hdatabases.follows (databaseFollows _ m), htables.follows (tableFollows _ m ?_)⟩
    rintro d name columns rfl
    obtain ⟨n, hn, rfl⟩ := hm
    exact hdatabases.known_of_note n hn

/-! ### What can be reached by names -/

/-- By names the same is reached in both catalogs. -/
structure SameReach (c c' : Catalog) : Prop where
  databaseNames : c'.databaseNames = c.databaseNames
  findDatabase : ∀ name, c'.findDatabase name = c.findDatabase name
  tableNames : ∀ name d, c.findDatabase name = .ok d → c'.tableNames d = c.tableNames d
  find : ∀ target, c'.find target = c.find target
  table : ∀ target t, c.find target = .ok t → c'.table? t = c.table? t

namespace SameReach
variable {c : Catalog}

/-- It is enough that the names of databases stay, and all databases and tables that are found. -/
theorem of_database? {c' : Catalog} (hnames : c'.names = c.names)
    (hdatabase : ∀ name d, c.findDatabase name = .ok d → c'.database? d = c.database? d)
    (htable : ∀ target t, c.find target = .ok t → c'.table? t = c.table? t) : c.SameReach c' := by
  have hfind : ∀ name, c'.findDatabase name = c.findDatabase name := fun name => by
    rw [Catalog.findDatabase, Catalog.findDatabase, hnames]
  constructor
  case databaseNames => rw [Catalog.databaseNames, Catalog.databaseNames, hnames]
  case findDatabase => exact hfind
  case tableNames =>
    intro name d hd
    rw [Catalog.tableNames, Catalog.tableNames, hdatabase name d hd]
  case find =>
    intro target
    rw [Catalog.find, Catalog.find, hfind]
    cases hd : c.findDatabase target.database with
    | error fault => rfl
    | ok d =>
      show c'.findTable d target.table = c.findTable d target.table
      simp only [findTable, tableIn?, hdatabase _ d hd]
  case table => exact htable

/-- Work on a table that no name leads to. -/
theorem onTable {t : TableRef} (ht : ∀ target, c.find target ≠ .ok t) {α : Type}
    (f : Table → α × Table) : c.SameReach (c.onTable t f).2 := by
  refine of_database? (names_onTable c t f) (fun _ d _ => ?_) fun target u hu => ?_
  · rw [database?, database?, databases_onTable]
  · rw [table?_onTable, if_neg]
    rintro rfl
    exact ht target hu

/-- Other names for the tables of a database that no name leads to. -/
theorem renameTables {d : DatabaseRef} (hd : ∀ name, c.findDatabase name ≠ .ok d)
    (f : OrderedMap String TableRef → OrderedMap String TableRef) :
    c.SameReach (c.renameTables d f) := by
  refine of_database? rfl (fun name e he => ?_) fun _ _ _ => rfl
  rw [database?_renameTables, if_neg]
  rintro rfl
  exact hd name he

/-- One more table in a database that no name leads to. -/
theorem addTable {d : DatabaseRef} (hd : ∀ name, c.findDatabase name ≠ .ok d)
    (hplace : ∀ target t, c.find target = .ok t → t.place ≠ c.tables.length) (table : Table) :
    c.SameReach (c.addTable d table) := by
  refine of_database? rfl (fun name e he => ?_) fun target t ht => ?_
  · show (Catalog.renameTables _ d _).database? e = _
    rw [database?_renameTables, if_neg]
    · rfl
    · rintro rfl
      exact hd name he
  · rw [table?_addTable, if_neg (hplace target t ht)]

end SameReach

/-! ### What the notes tell -/

theorem mem_tableNames_iff {c : Catalog} {d : DatabaseRef} {name : String} :
    name ∈ c.tableNames d ↔ ∃ t, c.tableIn? d name = some t := by
  rw [tableNames, tableIn?]
  cases c.database? d with
  | none => simp
  | some db =>
    show name ∈ db.tables.keys ↔ ∃ t, db.tables.get? name = some t
    rw [OrderedMap.mem_keys_iff, Option.isSome_iff_exists]

theorem tableNames_sorted (c : Catalog) (d : DatabaseRef) : (c.tableNames d).Pairwise (· < ·) := by
  rw [tableNames]
  cases c.database? d with
  | none => exact .nil
  | some db => exact db.tables.keys_sorted

/-- A new database has no tables. -/
theorem tableNames_addDatabase (c : Catalog) (name : String) :
    (c.addDatabase name).tableNames ⟨c.databases.length⟩ = [] := by
  rw [tableNames, database?, addDatabase, List.getElem?_concat_length]
  rfl

/-- The notes tell what is found in the catalog. -/
structure Remembers (past : Notes) (c : Catalog) : Prop where
  /-- A look-up succeeds exactly if the name was given and has not been taken away since … -/
  findDatabase : ∀ name d, c.findDatabase name = .ok d ↔ Alive past.databases name d
  findTable : ∀ d name t, c.findTable d name = .ok t ↔ Alive past.tables (d, name) t
  find : ∀ target t, c.find target = .ok t ↔
    ∃ d, Alive past.databases target.database d ∧ Alive past.tables (d, target.table) t
  /-- … and is refused otherwise, because there is no such thing. -/
  refusal : (∀ name f, c.findDatabase name = .error f → f.kind = .notFound) ∧
    (∀ d name f, c.findTable d name = .error f → f.kind = .notFound) ∧
    ∀ target f, c.find target = .error f → f.kind = .notFound
  looks : ∀ m : Move, m.looks → c.perform m = c
  sameDatabase : OneObject past.databases
  sameTable : OneObject past.tables
  /-- What is created under a name that leads nowhere is new and empty. -/
  newDatabase : ∀ name, name ≠ "" → (∀ d, ¬ Alive past.databases name d) →
    ∃ d, (c.createDatabase name).1 = .ok d ∧ (∀ n ∈ past.databases, n.object ≠ d) ∧
      (c.createDatabase name).2.tableNames d = []
  newTable : ∀ d name columns table, (∀ t, ¬ Alive past.tables (d, name) t) →
    Table.create name columns c.limits = .ok table →
    ∃ t, (c.createTable d name columns).1 = .ok t ∧ (∀ n ∈ past.tables, n.object ≠ t) ∧
      (c.createTable d name columns).2.table? t = some ⟨name, columns, c.limits, ∅⟩
  /-- Dropping succeeds exactly if the name leads to something, and hands that out. -/
  dropDatabase : ∀ name d, (c.dropDatabase name).1 = some d ↔ Alive past.databases name d
  dropTable : ∀ d name t, (c.dropTable d name).1 = some t ↔ Alive past.tables (d, name) t
  /-- What a dropped reference is used for shows nowhere. -/
  lostTable : ∀ t, past.Lost t → ∀ a : Table.Action, c.SameReach (c.onTable t (·.act a)).2
  lostDatabase : ∀ n ∈ past.databases, n.deed = .dropped → ∀ name columns,
    c.SameReach (c.createTable n.object name columns).2 ∧
      c.SameReach (c.dropTable n.object name).2
  databaseNames : c.databaseNames.Pairwise (· < ·) ∧
    ∀ name, name ∈ c.databaseNames ↔ ∃ d, Alive past.databases name d
  tableNames : ∀ d, (c.tableNames d).Pairwise (· < ·) ∧
    ∀ name, name ∈ c.tableNames d ↔ ∃ t, Alive past.tables (d, name) t

namespace Chronicle
variable {past : Notes} {c : Catalog}

theorem findDatabase_iff (h : Chronicle past c) {name : String} {d : DatabaseRef} :
    c.findDatabase name = .ok d ↔ Alive past.databases name d :=
  findDatabase_eq_ok_iff.trans h.tracks.1.find_iff

theorem tableIn?_iff (h : Chronicle past c) {d : DatabaseRef} {name : String} {t : TableRef} :
    c.tableIn? d name = some t ↔ Alive past.tables (d, name) t :=
  h.tracks.2.find_iff (k := (d, name))

/-- A dropped database is found under no name. -/
theorem findDatabase_ne_of_dropped (h : Chronicle past c) {n : Note String DatabaseRef}
    (hn : n ∈ past.databases) (hdeed : n.deed = .dropped) (name : String) :
    c.findDatabase name ≠ .ok n.object :=
  fun hfind => h.tracks.1.gone n hn hdeed name (findDatabase_eq_ok_iff.1 hfind)

/-- A table that was dropped, by itself or with its database, is found under no name. -/
theorem find_ne_of_lost (h : Chronicle past c) {t : TableRef} (ht : past.Lost t)
    (target : TableName) : c.find target ≠ .ok t := by
  intro hfind
  obtain ⟨d, hd, htable⟩ := find_eq_ok_iff.1 hfind
  obtain ⟨n, hn, rfl, hdeed | ⟨m, hm, hdeed, hobject⟩⟩ := ht
  · exact h.tracks.2.gone n hn hdeed (d, target.table) htable
  · -- the table has one name, and with it one database
    have hname : (d, target.table) = n.name := h.tracks.2.own n hn (d, target.table) htable
    rw [← hname] at hobject
    exact h.findDatabase_ne_of_dropped hm hdeed target.database (hobject ▸ hd)

/-- A found table is not the next one to be made. -/
theorem place_ne_of_find (h : Chronicle past c) {target : TableName} {t : TableRef}
    (ht : c.find target = .ok t) : t.place ≠ c.tables.length := by
  obtain ⟨d, -, htable⟩ := find_eq_ok_iff.1 ht
  exact Nat.ne_of_lt (h.tracks.2.known_of_find (d, target.table) t htable)

/-- A database made under a free name is new and has no tables. -/
theorem createDatabase_of_free (h : Chronicle past c) {name : String} (hname : name ≠ "")
    (hfree : ∀ d, ¬ Alive past.databases name d) :
    ∃ d, (c.createDatabase name).1 = .ok d ∧ (∀ n ∈ past.databases, n.object ≠ d) ∧
      (c.createDatabase name).2.tableNames d = [] := by
  have hnone : c.names.get? name = none :=
    h.tracks.1.find_eq_none_iff.2 fun ⟨d, hd⟩ => hfree d hd
  rcases c.createDatabase_outcome name with ⟨hempty, -⟩ | ⟨d, hd, -⟩ | ⟨-, hnew⟩
  · exact absurd hempty hname
  · rw [hnone] at hd
    contradiction
  · rw [hnew]
    exact ⟨⟨c.databases.length⟩, rfl, h.tracks.1.object_ne (Nat.lt_irrefl _),
      tableNames_addDatabase c name⟩

/-- A table made under a free name is new, has the given columns and no rows. -/
theorem createTable_of_free (h : Chronicle past c) {d : DatabaseRef} {name : String}
    {columns : List Column} {table : Table} (hfree : ∀ t, ¬ Alive past.tables (d, name) t)
    (hcreate : Table.create name columns c.limits = .ok table) :
    ∃ t, (c.createTable d name columns).1 = .ok t ∧ (∀ n ∈ past.tables, n.object ≠ t) ∧
      (c.createTable d name columns).2.table? t = some ⟨name, columns, c.limits, ∅⟩ := by
  have hnone : c.tableIn? d name = none :=
    h.tracks.2.find_eq_none_iff.2 fun ⟨t, ht⟩ => hfree t ht
  rcases c.createTable_outcome d name columns with ⟨t, ht, -⟩ | ⟨fault, hfault, -⟩ | ⟨-, hnew⟩
  · rw [hnone] at ht
    contradiction
  · rw [hcreate] at hfault
    contradiction
  · rw [hnew]
    refine ⟨⟨c.tables.length⟩, rfl, h.tracks.2.object_ne (Nat.lt_irrefl _), ?_⟩
    rw [table?_addTable, if_pos rfl]

/-- A table made in a dropped database is reached by no name. -/
theorem sameReach_createTable (h : Chronicle past c) {n : Note String DatabaseRef}
    (hn : n ∈ past.databases) (hdeed : n.deed = .dropped) (name : String)
    (columns : List Column) : c.SameReach (c.createTable n.object name columns).2 := by
  rcases c.createTable_cases n.object name columns with hsame | ⟨-, hnew⟩
  · rw [hsame]
    exact .of_database? rfl (fun _ _ _ => rfl) fun _ _ _ => rfl
  · rw [hnew]
    exact .addTable (h.findDatabase_ne_of_dropped hn hdeed) (fun _ _ => h.place_ne_of_find) _

/-- **Notes of what was handed out tell all there is to find.** A name leads to what it was given to
and has not been taken away from since, and two notes on one name are about one object exactly if
the name was not taken away between them. What is created under a free name is a new object without
content. A reference to something dropped still works, and nothing that it is used for shows under
any name. The lists of names hold these names and no others, ascending. -/
theorem remembers (h : Chronicle past c) : Remembers past c := by
  obtain ⟨hdatabases, htables⟩ := h.tracks
  constructor
  case findDatabase => exact fun name d => h.findDatabase_iff
  case findTable => exact fun d name t => findTable_eq_ok_iff.trans h.tableIn?_iff
  case find =>
    intro target t
    simp only [find_eq_ok_iff, h.findDatabase_iff, h.tableIn?_iff]
  case refusal =>
    exact ⟨fun _ _ => kind_of_findDatabase, fun _ _ _ => kind_of_findTable, fun _ _ => kind_of_find⟩
  case looks =>
    intro m hm
    cases m with
    | findDatabase name => rfl
    | findTable d name => rfl
    | find target => rfl
    | createDatabase | dropDatabase | createTable | dropTable | act => contradiction
  case sameDatabase => exact hdatabases.same
  case sameTable => exact htables.same
  case newDatabase => exact fun name => h.createDatabase_of_free
  case newTable => exact fun d name columns table => h.createTable_of_free
  case dropDatabase => exact fun name d => hdatabases.find_iff
  case dropTable => exact fun d name t => h.tableIn?_iff
  case lostTable => exact fun t ht a => .onTable (h.find_ne_of_lost ht) _
  case lostDatabase =>
    intro n hn hdeed name columns
    exact ⟨h.sameReach_createTable hn hdeed name columns,
      .renameTables (h.findDatabase_ne_of_dropped hn hdeed) _⟩
  case databaseNames =>
    refine ⟨c.names.keys_sorted, fun name => ?_⟩
    simp only [mem_databaseNames_iff, h.findDatabase_iff]
  case tableNames =>
    refine fun d => ⟨c.tableNames_sorted d, fun name => ?_⟩
    simp only [mem_tableNames_iff, h.tableIn?_iff]

end Chronicle

/-- Orders are dropped and made again with other columns, then their shop is dropped and opened
again; each time the old reference is still used. -/
theorem remembers_recreated :
    ∃ past c, Chronicle past c ∧ Remembers past c ∧
      past.tables.map (fun n => (n.deed, n.object.place)) =
        [(.made, 0), (.seen, 0), (.dropped, 0), (.made, 1), (.made, 2)] ∧
      c.tables.map (·.size) = [1, 1, 0] ∧ (c.findDatabase "shop").toOption = some ⟨1⟩ ∧
      c.tableNames ⟨1⟩ = [] ∧ c.tableNames ⟨0⟩ = ["customers", "orders"] := by
  have hmade := (Chronicle.empty default).step (.createDatabase "shop") trivial
    |>.step (.createTable ⟨0⟩ "orders" [⟨"id", true, .int⟩]) (by decide +kernel)
  have hdropped := hmade.step (.find ⟨"shop", "orders"⟩) trivial
    |>.step (.dropTable ⟨0⟩ "orders") (by decide +kernel)
  have hagain := hdropped.step (.createTable ⟨0⟩ "orders" [⟨"name", true, .str⟩]) (by decide +kernel)
    |>.step (.act ⟨0⟩ (.save ⟨.single (.int 1), .ofList [("id", .int 1)]⟩)) (by decide +kernel)
    |>.step (.act ⟨1⟩ (.save ⟨.single (.str "a"), .ofList [("name", .str "a")]⟩)) (by decide +kernel)
  have hopened := hagain.step (.dropDatabase "shop") trivial
    |>.step (.createDatabase "shop") trivial
    |>.step (.createTable ⟨0⟩ "customers" [⟨"id", true, .int⟩]) (by decide +kernel)
  exact ⟨_, _, hopened, hopened.remembers, by decide +kernel, by decide +kernel, by decide +kernel,
    by decide +kernel, by decide +kernel⟩

end Catalog
end KeyedRows
