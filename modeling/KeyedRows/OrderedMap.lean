/-
# Ordered maps

A finite map whose entries are kept in strictly ascending order of their keys.
Row stores, the cells of a row and the name directories are all of this form:
answers list them in key order, and two maps with the same contents are equal,
so that "the same table" is plain equality.

Main statements: `get?_insert`, `get?_erase`, `get?_filter` and `get?_insertAll` say
what each operation does to look-up, and `ext_get?` says that look-up determines
the map.
-/

namespace KeyedRows

open Std

/-- Entries in strictly ascending order of their keys. -/
structure OrderedMap (α β : Type) [Ord α] where
  entries : List (α × β)
  ascending : entries.Pairwise fun a b => compare a.1 b.1 = .lt

namespace OrderedMap

variable {α β : Type} [Ord α]

instance [DecidableEq α] [DecidableEq β] : DecidableEq (OrderedMap α β) := fun m n =>
  decidable_of_iff (m.entries = n.entries) (by
    cases m; cases n; simp)

/-- The map without entries. -/
def empty : OrderedMap α β := ⟨[], .nil⟩

instance : EmptyCollection (OrderedMap α β) := ⟨empty⟩
instance : Inhabited (OrderedMap α β) := ⟨empty⟩

@[simp] theorem entries_empty : (∅ : OrderedMap α β).entries = [] := rfl

/-- The number of entries. -/
def size (m : OrderedMap α β) : Nat := m.entries.length

/-- The keys, ascending. -/
def keys (m : OrderedMap α β) : List α := m.entries.map (·.1)

/-- The value found under `k` in an ascending list of entries. -/
def lookup (k : α) : List (α × β) → Option β
  | [] => none
  | (k', v) :: rest =>
    match compare k k' with
    | .lt => none
    | .eq => some v
    | .gt => lookup k rest

/-- The value stored under `k`. -/
def get? (m : OrderedMap α β) (k : α) : Option β := lookup k m.entries

/-- Puts `v` under `k` in an ascending list of entries, in place of an earlier value. -/
def put (k : α) (v : β) : List (α × β) → List (α × β)
  | [] => [(k, v)]
  | (k', v') :: rest =>
    match compare k k' with
    | .lt => (k, v) :: (k', v') :: rest
    | .eq => (k, v) :: rest
    | .gt => (k', v') :: put k v rest

theorem mem_put {k : α} {v : β} {l : List (α × β)} {e : α × β} (h : e ∈ put k v l) :
    e = (k, v) ∨ e ∈ l := by
  induction l with
  | nil => simpa [put] using h
  | cons a rest ih =>
    obtain ⟨k', v'⟩ := a
    rw [put] at h
    split at h <;> simp only [List.mem_cons] at h ⊢
    · exact h
    · rcases h with h | h
      · exact .inl h
      · exact .inr (.inr h)
    · rcases h with h | h
      · exact .inr (.inl h)
      · rcases ih h with h | h
        · exact .inl h
        · exact .inr (.inr h)

theorem put_ascending [TransOrd α] [LawfulEqOrd α] (k : α) (v : β) {l : List (α × β)}
    (h : l.Pairwise fun a b => compare a.1 b.1 = .lt) :
    (put k v l).Pairwise fun a b => compare a.1 b.1 = .lt := by
  induction l with
  | nil => simp [put]
  | cons a rest ih =>
    obtain ⟨k', v'⟩ := a
    obtain ⟨hhead, htail⟩ := List.pairwise_cons.1 h
    rw [put]
    split
    · rename_i hlt
      refine List.pairwise_cons.2 ⟨fun e he => ?_, h⟩
      rcases List.mem_cons.1 he with rfl | he
      · exact hlt
      · exact TransCmp.lt_trans hlt (hhead e he)
    · rename_i heq
      obtain rfl : k = k' := LawfulEqCmp.eq_of_compare heq
      exact List.pairwise_cons.2 ⟨hhead, htail⟩
    · rename_i hgt
      refine List.pairwise_cons.2 ⟨fun e he => ?_, ih htail⟩
      rcases mem_put he with rfl | he
      · exact OrientedCmp.lt_of_gt hgt
      · exact hhead e he

/-- Stores `v` under `k`, in place of an earlier value. -/
def insert [TransOrd α] [LawfulEqOrd α] (m : OrderedMap α β) (k : α) (v : β) :
    OrderedMap α β :=
  ⟨put k v m.entries, put_ascending k v m.ascending⟩

/-- Keeps the entries that pass `p`. -/
def filter (p : α → β → Bool) (m : OrderedMap α β) : OrderedMap α β :=
  ⟨m.entries.filter fun e => p e.1 e.2, m.ascending.filter _⟩

/-- Removes the entry of `k`. -/
def erase (m : OrderedMap α β) (k : α) : OrderedMap α β :=
  m.filter fun k' _ => compare k' k != .eq

/-- Changes every value, with its key at hand. -/
def mapValues {γ : Type} (f : α → β → γ) (m : OrderedMap α β) : OrderedMap α γ :=
  ⟨m.entries.map fun e => (e.1, f e.1 e.2), by
    rw [List.pairwise_map]; exact m.ascending⟩

/-- The entries of `l` put in one after another: of two entries under one key the later wins. -/
def insertAll [TransOrd α] [LawfulEqOrd α] (m : OrderedMap α β) (l : List (α × β)) :
    OrderedMap α β :=
  l.foldl (fun m e => m.insert e.1 e.2) m

/-- The map of a list of entries in any order: of two entries under one key the later wins. -/
def ofList [TransOrd α] [LawfulEqOrd α] (l : List (α × β)) : OrderedMap α β :=
  insertAll ∅ l

/-! ### Look-up -/

theorem lookup_eq_none_of_lt [TransOrd α] {k : α} {l : List (α × β)}
    (h : ∀ e ∈ l, compare k e.1 = .lt) : lookup k l = none := by
  cases l with
  | nil => rfl
  | cons a rest => simp [lookup, h a (by simp)]

/-- In an ascending list, look-up finds exactly the entries. -/
theorem lookup_eq_some_iff [TransOrd α] [LawfulEqOrd α] {k : α} {v : β} {l : List (α × β)}
    (h : l.Pairwise fun a b => compare a.1 b.1 = .lt) :
    lookup k l = some v ↔ (k, v) ∈ l := by
  induction l with
  | nil => simp [lookup]
  | cons a rest ih =>
    obtain ⟨k', v'⟩ := a
    obtain ⟨hhead, htail⟩ := List.pairwise_cons.1 h
    rw [lookup]
    split
    · rename_i hlt
      simp only [reduceCtorEq, List.mem_cons, Prod.mk.injEq, false_iff, not_or, not_and]
      refine ⟨fun hk => by simp [hk, ReflCmp.compare_self] at hlt, fun hmem => ?_⟩
      have := TransCmp.lt_trans hlt (hhead _ hmem)
      simp [ReflCmp.compare_self] at this
    · rename_i heq
      obtain rfl : k = k' := LawfulEqCmp.eq_of_compare heq
      simp only [Option.some.injEq, List.mem_cons, Prod.mk.injEq, true_and]
      refine ⟨fun hv => .inl hv.symm, fun hv => hv.elim (·.symm) fun hmem => ?_⟩
      have := hhead _ hmem
      simp [ReflCmp.compare_self] at this
    · rename_i hgt
      rw [ih htail, List.mem_cons]
      refine ⟨.inr, fun hv => hv.elim (fun he => ?_) id⟩
      simp only [Prod.mk.injEq] at he
      simp [he.1, ReflCmp.compare_self] at hgt

theorem get?_eq_some_iff [TransOrd α] [LawfulEqOrd α] {m : OrderedMap α β} {k : α} {v : β} :
    m.get? k = some v ↔ (k, v) ∈ m.entries :=
  lookup_eq_some_iff m.ascending

@[simp] theorem get?_empty (k : α) : (∅ : OrderedMap α β).get? k = none := rfl

theorem lookup_put_self [TransOrd α] [LawfulEqOrd α] (k : α) (v : β) (l : List (α × β)) :
    lookup k (put k v l) = some v := by
  induction l with
  | nil => simp [put, lookup, ReflCmp.compare_self]
  | cons a rest ih =>
    obtain ⟨k', v'⟩ := a
    rw [put]
    split
    · simp [lookup, ReflCmp.compare_self]
    · simp [lookup, ReflCmp.compare_self]
    · rename_i hgt
      simp [lookup, hgt, ih]

theorem lookup_put_of_ne [TransOrd α] [LawfulEqOrd α] {k k' : α} (hne : k' ≠ k) (v : β)
    (l : List (α × β)) : lookup k' (put k v l) = lookup k' l := by
  have hne' : compare k' k ≠ .eq := fun h => hne (LawfulEqCmp.eq_of_compare h)
  induction l with
  | nil =>
    rw [put, lookup, lookup]
    split
    · rfl
    · contradiction
    · rfl
  | cons a rest ih =>
    obtain ⟨c, w⟩ := a
    rw [put]
    split
    · rename_i hlt
      rw [lookup]
      split
      · rename_i hlt'
        simp [lookup, TransCmp.lt_trans hlt' hlt]
      · contradiction
      · rfl
    · rename_i heq
      obtain rfl : k = c := LawfulEqCmp.eq_of_compare heq
      rw [lookup, lookup]
      split
      · rfl
      · contradiction
      · rfl
    · rw [lookup, lookup, ih]

/-- Inserting decides look-up at its key and nowhere else. -/
theorem get?_insert [TransOrd α] [LawfulEqOrd α] [DecidableEq α] (m : OrderedMap α β)
    (k k' : α) (v : β) :
    (m.insert k v).get? k' = if k' = k then some v else m.get? k' := by
  split
  · rename_i h
    subst h
    exact lookup_put_self _ _ _
  · rename_i h
    exact lookup_put_of_ne h _ _

@[simp] theorem get?_insert_self [TransOrd α] [LawfulEqOrd α] (m : OrderedMap α β)
    (k : α) (v : β) : (m.insert k v).get? k = some v :=
  lookup_put_self _ _ _

theorem get?_insert_of_ne [TransOrd α] [LawfulEqOrd α] (m : OrderedMap α β)
    {k k' : α} (h : k' ≠ k) (v : β) : (m.insert k v).get? k' = m.get? k' :=
  lookup_put_of_ne h _ _

/-- Filtering keeps what was found and passes. -/
theorem get?_filter [TransOrd α] [LawfulEqOrd α] (m : OrderedMap α β) (p : α → β → Bool)
    (k : α) : (m.filter p).get? k = (m.get? k).filter (p k) := by
  apply Option.ext
  intro v
  rw [get?_eq_some_iff, Option.filter_eq_some_iff, get?_eq_some_iff]
  simp [filter]

/-- Erasing empties look-up at its key and nowhere else. -/
theorem get?_erase [TransOrd α] [LawfulEqOrd α] [DecidableEq α] (m : OrderedMap α β)
    (k k' : α) : (m.erase k).get? k' = if k' = k then none else m.get? k' := by
  rw [erase, get?_filter]
  split
  · rename_i h
    subst h
    simp [ReflCmp.compare_self]
  · rename_i h
    have : (compare k' k != .eq) = true := by
      simp only [bne_iff_ne, ne_eq]
      exact fun he => h (LawfulEqCmp.eq_of_compare he)
    simp only [this]
    cases m.get? k' <;> rfl

theorem get?_mapValues [TransOrd α] [LawfulEqOrd α] {γ : Type} (m : OrderedMap α β)
    (f : α → β → γ) (k : α) : (m.mapValues f).get? k = (m.get? k).map (f k) := by
  apply Option.ext
  intro v
  rw [get?_eq_some_iff, Option.map_eq_some_iff]
  constructor
  · intro h
    obtain ⟨e, he, hv⟩ := List.mem_map.1 h
    obtain ⟨rfl, rfl⟩ := Prod.mk.inj hv
    exact ⟨e.2, get?_eq_some_iff.2 he, rfl⟩
  · rintro ⟨w, hw, rfl⟩
    exact List.mem_map.2 ⟨(k, w), get?_eq_some_iff.1 hw, rfl⟩

theorem mem_keys_iff [TransOrd α] [LawfulEqOrd α] {m : OrderedMap α β} {k : α} :
    k ∈ m.keys ↔ (m.get? k).isSome := by
  rw [Option.isSome_iff_exists, keys, List.mem_map]
  constructor
  · rintro ⟨e, he, rfl⟩
    exact ⟨e.2, get?_eq_some_iff.2 he⟩
  · rintro ⟨v, hv⟩
    exact ⟨(k, v), get?_eq_some_iff.1 hv, rfl⟩

/-- Changing values leaves the keys as they are. -/
theorem keys_mapValues {γ : Type} (m : OrderedMap α β) (f : α → β → γ) :
    (m.mapValues f).keys = m.keys := by
  rw [keys, mapValues, List.map_map, keys]
  rfl

theorem keys_ascending (m : OrderedMap α β) : m.keys.Pairwise fun a b => compare a b = .lt := by
  rw [keys, List.pairwise_map]
  exact m.ascending

theorem keys_sorted (m : OrderedMap String β) : m.keys.Pairwise (· < ·) :=
  m.keys_ascending.imp compareOfLessAndEq_eq_lt.1

theorem keys_nodup [TransOrd α] (m : OrderedMap α β) : m.keys.Nodup := by
  refine m.keys_ascending.imp fun {a b} hlt he => ?_
  subst he
  simp [ReflCmp.compare_self] at hlt

theorem size_eq_length_keys (m : OrderedMap α β) : m.size = m.keys.length := by
  rw [size, keys, List.length_map]

@[ext] theorem ext_entries {m n : OrderedMap α β} (h : m.entries = n.entries) : m = n := by
  cases m; cases n; simp_all

/-- Two ascending lists with the same look-up are the same list. -/
theorem eq_of_lookup_eq [TransOrd α] [LawfulEqOrd α] {l₁ l₂ : List (α × β)}
    (h₁ : l₁.Pairwise fun a b => compare a.1 b.1 = .lt)
    (h₂ : l₂.Pairwise fun a b => compare a.1 b.1 = .lt)
    (h : ∀ k v, (k, v) ∈ l₁ ↔ (k, v) ∈ l₂) : l₁ = l₂ := by
  induction l₁ generalizing l₂ with
  | nil =>
    cases l₂ with
    | nil => rfl
    | cons b _ => exact absurd ((h b.1 b.2).2 (by simp)) (by simp)
  | cons a rest ih =>
    cases l₂ with
    | nil => exact absurd ((h a.1 a.2).1 (by simp)) (by simp)
    | cons b rest' =>
      obtain ⟨ha, hra⟩ := List.pairwise_cons.1 h₁
      obtain ⟨hb, hrb⟩ := List.pairwise_cons.1 h₂
      have hab : a = b := by
        rcases List.mem_cons.1 ((h a.1 a.2).1 (by simp)) with he | hin
        · exact he
        · rcases List.mem_cons.1 ((h b.1 b.2).2 (by simp)) with he | hin'
          · exact he.symm
          · have := TransCmp.lt_trans (hb _ hin) (ha _ hin')
            simp [ReflCmp.compare_self] at this
      subst hab
      congr 1
      refine ih hra hrb fun k v => ⟨fun hm => ?_, fun hm => ?_⟩
      · rcases List.mem_cons.1 ((h k v).1 (List.mem_cons_of_mem _ hm)) with he | hin
        · have := ha _ hm
          rw [← he] at this
          simp [ReflCmp.compare_self] at this
        · exact hin
      · rcases List.mem_cons.1 ((h k v).2 (List.mem_cons_of_mem _ hm)) with he | hin
        · have := hb _ hm
          rw [← he] at this
          simp [ReflCmp.compare_self] at this
        · exact hin

/-- **Look-up determines the map.** -/
theorem ext_get? [TransOrd α] [LawfulEqOrd α] {m n : OrderedMap α β}
    (h : ∀ k, m.get? k = n.get? k) : m = n := by
  apply ext_entries
  refine eq_of_lookup_eq m.ascending n.ascending fun k v => ?_
  rw [← get?_eq_some_iff, ← get?_eq_some_iff, h]

theorem insertAll_cons [TransOrd α] [LawfulEqOrd α] (m : OrderedMap α β) (e : α × β)
    (l : List (α × β)) : m.insertAll (e :: l) = (m.insert e.1 e.2).insertAll l := rfl

/-- Entries put in one after another, ascending, come before those that were there. -/
theorem get?_insertAll [TransOrd α] [LawfulEqOrd α] {l : List (α × β)}
    (h : l.Pairwise fun a b => compare a.1 b.1 = .lt) (m : OrderedMap α β) (k : α) :
    (m.insertAll l).get? k = (lookup k l).or (m.get? k) := by
  classical
  induction l generalizing m with
  | nil => rfl
  | cons e rest ih =>
    obtain ⟨k', v⟩ := e
    obtain ⟨hhead, htail⟩ := List.pairwise_cons.1 h
    rw [insertAll_cons, ih htail, get?_insert, lookup]
    split
    · rename_i he
      subst he
      simp [lookup_eq_none_of_lt hhead, ReflCmp.compare_self]
    · rename_i hne
      split
      · rename_i hlt
        rw [lookup_eq_none_of_lt fun e he => TransCmp.lt_trans hlt (hhead e he)]
      · rename_i heq
        exact absurd (LawfulEqCmp.eq_of_compare heq) hne
      · rfl

/-- Of entries in any order, the last one under a key counts. -/
theorem get?_insertAll_last [TransOrd α] [LawfulEqOrd α] [DecidableEq α] (m : OrderedMap α β)
    (l : List (α × β)) (k : α) :
    (m.insertAll l).get? k = ((l.reverse.find? (·.1 = k)).map (·.2)).or (m.get? k) := by
  induction l generalizing m with
  | nil => rfl
  | cons e l ih =>
    rw [insertAll_cons, ih, get?_insert, List.reverse_cons, List.find?_append]
    cases l.reverse.find? (·.1 = k) with
    | some last => rfl
    | none =>
      by_cases h : k = e.1
      · simp [h]
      · simp [h, Ne.symm h]

/-- A list of entries leads from a key to the last value under it. -/
theorem get?_ofList [TransOrd α] [LawfulEqOrd α] [DecidableEq α] (l : List (α × β)) (k : α) :
    (ofList l).get? k = (l.reverse.find? (·.1 = k)).map (·.2) := by
  rw [ofList, get?_insertAll_last, get?_empty, Option.or_none]

/-- A map is made again from its entries. -/
theorem ofList_entries [TransOrd α] [LawfulEqOrd α] (m : OrderedMap α β) :
    ofList m.entries = m := by
  apply ext_get?
  intro k
  rw [ofList, get?_insertAll m.ascending, get?_empty, Option.or_none, get?]

end OrderedMap
end KeyedRows
