/-
# Reading back what was written

A reader *takes* bytes for a value when it gives that value on these bytes,
whatever follows them, and leaves what follows. Readers are sequences of smaller
readers, and so are the bytes they take (`Takes.bind`).

A type is lawful on the wire when its reader takes whatever its writer puts down.
Lengths travel as words of eight bytes, so this is said of encodings of less than
`2 ^ 64` bytes; no list is longer than its encoding, because every encoding has at
least one byte.

Main statement: `decode_encode_append`, a payload that begins with the encoding
of a value decodes to this value.
-/

import KeyedRows.Wire.Basic

namespace KeyedRows
namespace Wire

/-! ### Taking -/

/-- On these bytes, whatever follows, the reader gives the value and leaves what follows. -/
def Takes {α : Type} (r : Reader α) (bytes : Bytes) (x : α) : Prop :=
  ∀ rest, r.run (bytes ++ rest) = .ok (x, rest)

namespace Takes
variable {α β : Type} {r : Reader α} {front bytes : Bytes} {x : α}

protected theorem pure (x : α) : Takes (pure x) [] x := fun _ => rfl

/-- Two readers in a row take the bytes of both. -/
protected theorem bind {k : α → Reader β} {y : β} (hr : Takes r front x)
    (hk : Takes (k x) bytes y) : Takes (r >>= k) (front ++ bytes) y := by
  intro rest
  rw [List.append_assoc, StateT.run_bind, hr]
  exact hk rest

/-- What is done after the last byte takes nothing more. -/
protected theorem bind_nil {k : α → Reader β} {y : β} (hr : Takes r bytes x)
    (hk : Takes (k x) [] y) : Takes (r >>= k) bytes y := by
  rw [← List.append_nil bytes]
  exact hr.bind hk

/-- A reader that only goes on to rework the value takes the same bytes. -/
protected theorem map (hr : Takes r bytes x) (f : α → β) :
    Takes (do return f (← r)) bytes (f x) :=
  hr.bind_nil (k := fun a => pure (f a)) (.pure (f x))

end Takes

/-- What stands behind other bytes is no longer than the whole. -/
theorem length_lt_of_append {front bytes : Bytes} {n : Nat} (h : (front ++ bytes).length < n) :
    bytes.length < n := by
  rw [List.length_append] at h
  omega

/-! ### Fixed parts -/

theorem takes_bytes (fault : Fault) (bytes : Bytes) :
    Takes (readBytes fault bytes.length) bytes bytes := by
  intro rest
  have hsplit : (bytes ++ rest).splitAt bytes.length = (bytes, rest) := by
    rw [List.splitAt_eq, List.take_left, List.drop_left]
  show (if ((bytes ++ rest).splitAt bytes.length).1.length = bytes.length
    then Except.ok ((bytes ++ rest).splitAt bytes.length) else Except.error fault) = _
  rw [hsplit]
  exact if_pos rfl

/-- A word is taken for the number in it, if it has room for the number. -/
theorem takes_word {w n : Nat} (h : n < 1 <<< (8 * w)) :
    Takes (readWord w) (Bytes.ofNat w n) n := by
  have hbytes := (takes_bytes .endOfInput (Bytes.ofNat w n)).map Bytes.toNat
  rwa [Bytes.length_ofNat, Bytes.toNat_ofNat, Nat.mod_eq_of_lt h] at hbytes

theorem takes_length {n : Nat} (h : n < UInt64.size) : Takes readLength (writeLength n) n :=
  takes_word h

theorem takes_variant {count n : Nat} (h : n < count) (hcount : count ≤ UInt32.size) :
    Takes (readVariant count) (writeVariant n) ⟨n, h⟩ := by
  have hword : Takes (readWord 4) (writeVariant n) n := takes_word (Nat.lt_of_lt_of_le h hcount)
  refine hword.bind_nil ?_
  show Takes (if h : n < count then return (⟨n, h⟩ : Fin count) else _) [] _
  rw [dif_pos h]
  exact .pure _

/-- A blob is taken for its bytes. -/
theorem takes_blob {bytes : Bytes} (h : (writeBlob bytes).length < UInt64.size) :
    Takes readBlob (writeBlob bytes) bytes :=
  (takes_length (length_lt_of_append h)).bind (takes_bytes .endOfInput bytes)

/-- A list is taken if each of its members is. -/
theorem takes_list {α : Type} {read : Reader α} {write : α → Bytes} {xs : List α}
    (hlength : xs.length < UInt64.size) (hmembers : ∀ x ∈ xs, Takes read (write x) x) :
    Takes (readListWith read) (writeLength xs.length ++ xs.flatMap write) xs := by
  refine (takes_length hlength).bind ?_
  clear hlength
  induction xs with
  | nil => exact .pure []
  | cons x xs ih =>
    rw [List.forall_mem_cons] at hmembers
    obtain ⟨hx, hxs⟩ := hmembers
    exact hx.bind ((ih hxs).map (x :: ·))

/-! ### Lawful types -/

/-- What is written is read back. -/
class Lawful (α : Type) [Wire α] : Prop where
  write_ne_nil (x : α) : write x ≠ []
  takes_write (x : α) (h : (write x).length < UInt64.size) : Takes read (write x) x

export Lawful (write_ne_nil takes_write)

section Lawful
variable {α β ε : Type}

/-- No list is longer than the encodings of its members together. -/
theorem length_le_flatMap_write [Wire α] (hwrite : ∀ x : α, write x ≠ []) (xs : List α) :
    xs.length ≤ (xs.flatMap write).length := by
  induction xs with
  | nil => exact Nat.le_refl _
  | cons x xs ih =>
    have hx := List.length_pos_iff.2 (hwrite x)
    rw [List.flatMap_cons, List.length_append, List.length_cons]
    omega

/-- No member of a list has a longer encoding than all of them together. -/
theorem length_write_le_flatMap [Wire α] {x : α} {xs : List α} (h : x ∈ xs) :
    (write x).length ≤ (xs.flatMap write).length :=
  (List.sublist_flatten_of_mem (List.mem_map_of_mem h)).length_le

theorem writeLength_append_ne_nil (n : Nat) (bytes : Bytes) : writeLength n ++ bytes ≠ [] :=
  List.append_ne_nil_of_left_ne_nil (List.cons_ne_nil _ _) _

theorem writeVariant_append_ne_nil (n : Nat) (bytes : Bytes) : writeVariant n ++ bytes ≠ [] :=
  List.append_ne_nil_of_left_ne_nil (List.cons_ne_nil _ _) _

instance : Lawful Bool where
  write_ne_nil _ := List.cons_ne_nil _ _
  takes_write b _ := by
    cases b
    · exact (takes_word (w := 1) (n := 0) (by decide)).bind (.pure false)
    · exact (takes_word (w := 1) (n := 1) (by decide)).bind (.pure true)

instance : Lawful UInt64 where
  write_ne_nil _ := List.cons_ne_nil _ _
  takes_write n _ := by
    have h := (takes_word (w := 8) n.toNat_lt).map UInt64.ofNat
    rwa [UInt64.ofNat_toNat] at h

instance : Lawful Int64 where
  write_ne_nil _ := List.cons_ne_nil _ _
  takes_write i _ := by
    have h := (takes_word (w := 8) i.toUInt64.toNat_lt).map fun n => (UInt64.ofNat n).toInt64
    rwa [UInt64.ofNat_toNat] at h

instance : Lawful String where
  write_ne_nil _ := writeLength_append_ne_nil _ _
  takes_write s h := by
    have hlength : (Utf8.encode s).length < UInt64.size := length_lt_of_append h
    have htext : Utf8.decode (Utf8.encode s) = .ok s := Utf8.decode_eq_ok_iff.2 rfl
    refine (takes_length hlength).bind ((takes_bytes .shortText (Utf8.encode s)).bind_nil ?_)
    show Takes (match Utf8.decode (Utf8.encode s) with
      | .ok s => return s
      | .error fault => throw (.badText fault)) [] s
    rw [htext]
    exact .pure s

instance [Wire α] [Lawful α] : Lawful (List α) where
  write_ne_nil _ := writeLength_append_ne_nil _ _
  takes_write xs h := by
    have htotal : (xs.flatMap write).length < UInt64.size := length_lt_of_append h
    have hcount := length_le_flatMap_write write_ne_nil xs
    refine takes_list (by omega) fun x hx => ?_
    have hmember := length_write_le_flatMap hx
    exact takes_write x (by omega)

instance [Wire α] [Lawful α] : Lawful (Option α) where
  write_ne_nil x := by cases x <;> exact List.cons_ne_nil _ _
  takes_write x h := by
    cases x with
    | none => exact (takes_word (w := 1) (n := 0) (by decide)).bind (.pure none)
    | some x =>
      have hx : (write x).length < UInt64.size := Nat.lt_of_succ_lt h
      exact (takes_word (w := 1) (n := 1) (by decide)).bind ((takes_write x hx).map some)

instance [Wire α] [Wire β] [Lawful α] [Lawful β] : Lawful (α × β) where
  write_ne_nil p := List.append_ne_nil_of_left_ne_nil (write_ne_nil p.1) _
  takes_write p h := by
    have hboth : (write p.1).length + (write p.2).length < UInt64.size := by
      rw [← List.length_append]
      exact h
    have hfirst := takes_write p.1 (by omega)
    have hsecond := takes_write p.2 (by omega)
    exact hfirst.bind (hsecond.map (p.1, ·))

/-- A map is taken for its entries, which are in the order in which the map keeps them. -/
instance [Ord α] [Std.TransOrd α] [Std.LawfulEqOrd α] [Wire α] [Wire β] [Lawful α] [Lawful β] :
    Lawful (OrderedMap α β) where
  write_ne_nil m := write_ne_nil m.entries
  takes_write m h := by
    have hmap := (takes_write m.entries h).map OrderedMap.ofList
    rwa [OrderedMap.ofList_entries] at hmap

instance [Wire ε] [Wire α] [Lawful ε] [Lawful α] : Lawful (Except ε α) where
  write_ne_nil x := by cases x <;> exact writeVariant_append_ne_nil _ _
  takes_write x h := by
    cases x with
    | ok x =>
      exact (takes_word (w := 4) (n := 0) (by decide)).bind
        ((takes_write x (length_lt_of_append h)).map Except.ok)
    | error e =>
      exact (takes_word (w := 4) (n := 1) (by decide)).bind
        ((takes_write e (length_lt_of_append h)).map Except.error)

/-! ### Derived forms -/

/-- A record is lawful if it can be made again from its fields. -/
theorem Lawful.ofFields [Wire β] [Lawful β] {fields : α → β} {make : β → α}
    (h : ∀ x, make (fields x) = x) : @Lawful α (Wire.ofFields fields make) :=
  letI := Wire.ofFields fields make
  { write_ne_nil := fun x => write_ne_nil (fields x)
    takes_write := fun x hx => by
      have htaken := (takes_write (fields x) hx).map make
      rwa [h] at htaken }

/-- An enumeration is lawful if every value is listed. -/
theorem Lawful.ofCases [BEq α] [LawfulBEq α] {cases : List α} (h : ∀ x, x ∈ cases)
    (hcount : cases.length ≤ UInt32.size) : @Lawful α (Wire.ofCases cases) :=
  letI := Wire.ofCases cases
  { write_ne_nil := fun x => List.cons_ne_nil _ _
    takes_write := fun x _ => by
      have hplace : cases.idxOf x < cases.length := List.idxOf_lt_length_of_mem (h x)
      have htaken := (takes_variant hplace hcount).map cases.get
      rwa [List.get_eq_getElem, List.getElem_idxOf] at htaken }

/-! ### Whole payloads -/

/-- **A payload that begins with the encoding of a value decodes to this value**, whatever
follows. -/
theorem decode_encode_append [Wire α] [Lawful α] {x : α} (h : (encode x).length < UInt64.size)
    (rest : Bytes) : decode (encode x ++ rest) = .ok x := by
  rw [decode, encode, takes_write x h]
  rfl

theorem decode_encode [Wire α] [Lawful α] {x : α} (h : (encode x).length < UInt64.size) :
    decode (encode x) = .ok x := by
  rw [← List.append_nil (encode x)]
  exact decode_encode_append h []

end Lawful
end Wire
end KeyedRows
