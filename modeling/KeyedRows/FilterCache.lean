/-
# A cache of encoded filters

A client encodes the same filters again and again. The cache keeps the bytes of
the filters used last, at most `capacity` of them and at least one; when it is
full the filter that has not been used for longest gives way. Every encoding
that had to be made is numbered, so that one can tell whether two answers are
the same buffer or two equal ones.

Main statements: an encoding hands out the buffer of an entry or a new one
(`encode_cases`); as long as the entries are right the bytes handed out are the
encoding of the filter, hit or miss (`bytes_encode`), and the entries stay right
(`sound_encode`).
-/

import KeyedRows.Wire.Data

namespace KeyedRows

/-- Encoded bytes, with the number of encodings made before them. -/
structure Buffer where
  bytes : Bytes
  serial : Nat
deriving DecidableEq, Repr, Inhabited

/-- The filters used last, the latest first. -/
structure FilterCache where
  capacity : Nat
  entries : List (Filter × Buffer)
  hits : Nat
  misses : Nat
deriving DecidableEq, Repr

namespace FilterCache

/-- An empty cache. It has room for one entry even if it is to have room for none. -/
def create (capacity : Nat) : FilterCache := ⟨max capacity 1, [], 0, 0⟩

/-- The entry of a filter. -/
def find? (c : FilterCache) (f : Filter) : Option Buffer :=
  (c.entries.find? fun e => e.1 = f).map (·.2)

/-- The bytes of a filter, encoded only if they are not at hand. -/
def encode (c : FilterCache) (f : Filter) : Buffer × FilterCache :=
  match c.find? f with
  | some buffer =>
    (buffer, { c with
      entries := (f, buffer) :: c.entries.filter (fun e => e.1 ≠ f)
      hits := c.hits + 1 })
  | none =>
    let buffer : Buffer := ⟨Wire.encode f, c.misses⟩
    (buffer, { c with
      entries := ((f, buffer) :: c.entries).take c.capacity
      misses := c.misses + 1 })

/-- Forgets every entry. The counts go on. -/
def clear (c : FilterCache) : FilterCache := { c with entries := [] }

/-- The number of entries. -/
def size (c : FilterCache) : Nat := c.entries.length

theorem mem_of_find? {c : FilterCache} {f : Filter} {buffer : Buffer}
    (h : c.find? f = some buffer) : (f, buffer) ∈ c.entries := by
  obtain ⟨e, he, rfl⟩ := Option.map_eq_some_iff.1 h
  have hf : e.1 = f := by simpa using List.find?_some he
  rw [← hf]
  exact List.mem_of_find?_eq_some he

/-- An encoding hands out the buffer of an entry, which comes to the front, or else a new one, which
joins the entries as far as there is room. -/
theorem encode_cases (c : FilterCache) (f : Filter) :
    (∃ buffer, (f, buffer) ∈ c.entries ∧ c.encode f = (buffer, { c with
        entries := (f, buffer) :: c.entries.filter (fun e => e.1 ≠ f)
        hits := c.hits + 1 })) ∨
      (∀ e ∈ c.entries, e.1 ≠ f) ∧ c.encode f = (⟨Wire.encode f, c.misses⟩, { c with
        entries := ((f, ⟨Wire.encode f, c.misses⟩) :: c.entries).take c.capacity
        misses := c.misses + 1 }) := by
  cases h : c.find? f with
  | some buffer => exact .inl ⟨buffer, mem_of_find? h, by rw [encode, h]⟩
  | none =>
    refine .inr ⟨fun e he heq => ?_, by rw [encode, h]⟩
    have hnone := List.find?_eq_none.1 (Option.map_eq_none_iff.1 h) e he
    exact hnone (decide_eq_true heq)

/-- Every entry holds the encoding of its filter. -/
def Sound (c : FilterCache) : Prop := ∀ e ∈ c.entries, e.2.bytes = Wire.encode e.1

theorem sound_create (capacity : Nat) : (create capacity).Sound := by
  simp [Sound, create]

/-- The bytes handed out are the encoding of the filter. -/
theorem bytes_encode {c : FilterCache} (h : c.Sound) (f : Filter) :
    (c.encode f).1.bytes = Wire.encode f := by
  rcases c.encode_cases f with ⟨buffer, hmem, heq⟩ | ⟨-, heq⟩ <;> rw [heq]
  exact h _ hmem

/-- Encoding a filter leaves right entries right. -/
theorem sound_encode {c : FilterCache} (h : c.Sound) (f : Filter) : (c.encode f).2.Sound := by
  intro e he
  rcases c.encode_cases f with ⟨buffer, hmem, heq⟩ | ⟨-, heq⟩ <;> rw [heq] at he
  · rcases List.mem_cons.1 he with rfl | he
    · exact h _ hmem
    · exact h e (List.mem_filter.1 he).1
  · rcases List.mem_cons.1 (List.mem_of_mem_take he) with rfl | he
    · rfl
    · exact h e he

end FilterCache
end KeyedRows
