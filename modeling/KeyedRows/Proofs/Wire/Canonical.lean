/-
# One encoding for each value

A type is canonical on the wire when its reader takes nothing but what its writer
puts down: whatever value is given, the bytes that were taken are the encoding of
this value. Every type that travels is canonical as long as it holds no map.
The entries of a map may come in any order and may be repeated, so a map has
many encodings that are read and one that is written.

With the other direction (`Lawful`) this says what the format is, as a set of
byte strings: a payload decodes to a value exactly if it begins with the encoding
of the value. Lengths travel as words of eight bytes, so this is said of payloads,
or encodings, of less than `2 ^ 64` bytes.

Main statement: `exact_mapFree`.
-/

import KeyedRows.Proofs.Wire.Messages

namespace KeyedRows
namespace Wire

/-! ### What readers have taken -/

section Readers
variable {α β : Type} {bytes rest : Bytes}

/-- Two readers in a row have given a value if the first has given one to the second. -/
theorem run_bind_eq_ok {r : Reader α} {k : α → Reader β} {y : β} :
    (r >>= k).run bytes = .ok (y, rest) ↔
      ∃ x middle, r.run bytes = .ok (x, middle) ∧ (k x).run middle = .ok (y, rest) := by
  rw [StateT.run_bind]
  cases r.run bytes with
  | error fault => simp [bind, Except.bind]
  | ok p =>
    obtain ⟨x, middle⟩ := p
    constructor
    · exact fun h => ⟨x, middle, rfl, h⟩
    · rintro ⟨_, _, ⟨⟩, h⟩
      exact h

theorem run_pure_eq_ok {x y : α} :
    (pure x : Reader α).run bytes = .ok (y, rest) ↔ x = y ∧ bytes = rest := by
  rw [StateT.run_pure]
  show Except.ok (x, bytes) = Except.ok (y, rest) ↔ _
  rw [Except.ok.injEq, Prod.mk.injEq]

/-- A reader that reworks a value has been given one. -/
theorem run_map_eq_ok {r : Reader α} {f : α → β} {y : β} :
    (do return f (← r) : Reader β).run bytes = .ok (y, rest) ↔
      ∃ x, r.run bytes = .ok (x, rest) ∧ f x = y := by
  rw [run_bind_eq_ok]
  constructor
  · rintro ⟨x, middle, hr, h⟩
    obtain ⟨rfl, rfl⟩ := run_pure_eq_ok.1 h
    exact ⟨x, hr, rfl⟩
  · rintro ⟨x, hr, rfl⟩
    exact ⟨x, rest, hr, run_pure_eq_ok.2 ⟨rfl, rfl⟩⟩

/-- A reader that refuses gives nothing. -/
theorem run_throw_ne_ok {fault : Fault} {y : α} :
    (throw fault : Reader α).run bytes ≠ .ok (y, rest) := by
  intro h
  cases h

/-! ### Fixed parts -/

theorem eq_append_of_readBytes {fault : Fault} {n : Nat} {front : Bytes}
    (h : (readBytes fault n).run bytes = .ok (front, rest)) :
    front.length = n ∧ bytes = front ++ rest := by
  have hrun : (readBytes fault n).run bytes =
      if (bytes.take n).length = n then .ok (bytes.take n, bytes.drop n) else .error fault := by
    show (if (bytes.splitAt n).1.length = n then Except.ok (bytes.splitAt n) else _) = _
    rw [List.splitAt_eq]
  rw [hrun] at h
  split at h
  · rename_i hlength
    rw [Except.ok.injEq, Prod.mk.injEq] at h
    obtain ⟨rfl, rfl⟩ := h
    exact ⟨hlength, (List.take_append_drop n bytes).symm⟩
  · contradiction

/-- A word was taken for the number in it. -/
theorem eq_append_of_readWord {w n : Nat} (h : (readWord w).run bytes = .ok (n, rest)) :
    n < 1 <<< (8 * w) ∧ bytes = Bytes.ofNat w n ++ rest := by
  obtain ⟨front, hfront, rfl⟩ := run_map_eq_ok.1 h
  obtain ⟨rfl, rfl⟩ := eq_append_of_readBytes hfront
  exact ⟨Bytes.toNat_lt front, by rw [Bytes.ofNat_toNat]⟩

theorem eq_append_of_readVariant {count : Nat} {n : Fin count}
    (h : (readVariant count).run bytes = .ok (n, rest)) : bytes = writeVariant n ++ rest := by
  obtain ⟨m, middle, hword, hnext⟩ := run_bind_eq_ok.1 h
  obtain ⟨-, rfl⟩ := eq_append_of_readWord hword
  split at hnext
  · obtain ⟨rfl, rfl⟩ := run_pure_eq_ok.1 hnext
    rfl
  · exact absurd hnext run_throw_ne_ok

theorem eq_append_of_readBlob {blob : Bytes} (h : readBlob.run bytes = .ok (blob, rest)) :
    bytes = writeBlob blob ++ rest := by
  obtain ⟨n, middle, hlength, hblob⟩ := run_bind_eq_ok.1 h
  obtain ⟨-, rfl⟩ := eq_append_of_readWord hlength
  obtain ⟨rfl, rfl⟩ := eq_append_of_readBytes hblob
  rw [writeBlob, List.append_assoc]
  rfl

/-! ### Lists -/

/-- Values one after another were taken from their encodings one after another. -/
theorem eq_append_of_readMany {read : Reader α} {write : α → Bytes}
    (hread : ∀ {bytes x rest}, read.run bytes = .ok (x, rest) → bytes = write x ++ rest)
    {n : Nat} {xs : List α} (h : (readMany read n).run bytes = .ok (xs, rest)) :
    xs.length = n ∧ bytes = xs.flatMap write ++ rest := by
  induction n generalizing bytes xs with
  | zero =>
    obtain ⟨rfl, rfl⟩ := run_pure_eq_ok.1 h
    exact ⟨rfl, rfl⟩
  | succ n ih =>
    obtain ⟨x, middle, hx, h⟩ := run_bind_eq_ok.1 h
    obtain ⟨xs, hxs, rfl⟩ := run_map_eq_ok.1 h
    obtain ⟨rfl, rfl⟩ := ih hxs
    exact ⟨rfl, by rw [hread hx, List.flatMap_cons, List.append_assoc]⟩

theorem eq_append_of_readListWith {read : Reader α} {write : α → Bytes}
    (hread : ∀ {bytes x rest}, read.run bytes = .ok (x, rest) → bytes = write x ++ rest)
    {xs : List α} (h : (readListWith read).run bytes = .ok (xs, rest)) :
    bytes = (writeLength xs.length ++ xs.flatMap write) ++ rest := by
  obtain ⟨n, middle, hlength, hmany⟩ := run_bind_eq_ok.1 h
  obtain ⟨-, rfl⟩ := eq_append_of_readWord hlength
  obtain ⟨rfl, rfl⟩ := eq_append_of_readMany hread hmany
  rw [List.append_assoc]
  rfl

end Readers

/-! ### Canonical types -/

/-- What is read was written: a value is taken from its encoding and from nothing else. -/
class Canonical (α : Type) [Wire α] : Prop where
  eq_write_append {bytes rest : Bytes} {x : α} (h : read.run bytes = .ok (x, rest)) :
    bytes = write x ++ rest

export Canonical (eq_write_append)

section Canonical
variable {α β ε : Type}

instance : Canonical Bool where
  eq_write_append h := by
    obtain ⟨n, middle, hword, hnext⟩ := run_bind_eq_ok.1 h
    obtain ⟨-, rfl⟩ := eq_append_of_readWord hword
    split at hnext
    · obtain ⟨rfl, rfl⟩ := run_pure_eq_ok.1 hnext
      rfl
    · obtain ⟨rfl, rfl⟩ := run_pure_eq_ok.1 hnext
      rfl
    · exact absurd hnext run_throw_ne_ok

instance : Canonical UInt64 where
  eq_write_append h := by
    obtain ⟨n, hword, rfl⟩ := run_map_eq_ok.1 h
    obtain ⟨hn, rfl⟩ := eq_append_of_readWord hword
    show _ = Bytes.ofNat 8 (UInt64.ofNat n).toNat ++ _
    rw [UInt64.toNat_ofNat_of_lt' hn]

instance : Canonical Int64 where
  eq_write_append h := by
    obtain ⟨n, hword, rfl⟩ := run_map_eq_ok.1 h
    obtain ⟨hn, rfl⟩ := eq_append_of_readWord hword
    show _ = Bytes.ofNat 8 (UInt64.ofNat n).toInt64.toUInt64.toNat ++ _
    rw [UInt64.toUInt64_toInt64, UInt64.toNat_ofNat_of_lt' hn]

instance : Canonical String where
  eq_write_append h := by
    obtain ⟨n, middle, hlength, htext⟩ := run_bind_eq_ok.1 h
    obtain ⟨-, rfl⟩ := eq_append_of_readWord hlength
    obtain ⟨front, middle, hfront, hnext⟩ := run_bind_eq_ok.1 htext
    obtain ⟨rfl, rfl⟩ := eq_append_of_readBytes hfront
    split at hnext
    · rename_i s hs
      obtain ⟨rfl, rfl⟩ := run_pure_eq_ok.1 hnext
      obtain rfl := Utf8.decode_eq_ok_iff.1 hs
      show _ = (writeLength _ ++ Utf8.encode _) ++ _
      rw [List.append_assoc]
      rfl
    · exact absurd hnext run_throw_ne_ok

instance [Wire α] [Canonical α] : Canonical (List α) where
  eq_write_append h := eq_append_of_readListWith eq_write_append h

instance [Wire α] [Canonical α] : Canonical (Option α) where
  eq_write_append h := by
    obtain ⟨n, middle, hword, hnext⟩ := run_bind_eq_ok.1 h
    obtain ⟨-, rfl⟩ := eq_append_of_readWord hword
    split at hnext
    · obtain ⟨rfl, rfl⟩ := run_pure_eq_ok.1 hnext
      rfl
    · obtain ⟨x, hx, rfl⟩ := run_map_eq_ok.1 hnext
      rw [eq_write_append hx]
      rfl
    · exact absurd hnext run_throw_ne_ok

instance [Wire α] [Wire β] [Canonical α] [Canonical β] : Canonical (α × β) where
  eq_write_append h := by
    obtain ⟨a, middle, ha, hnext⟩ := run_bind_eq_ok.1 h
    obtain ⟨b, hb, rfl⟩ := run_map_eq_ok.1 hnext
    rw [eq_write_append ha, eq_write_append hb, ← List.append_assoc]
    rfl

instance [Wire ε] [Wire α] [Canonical ε] [Canonical α] : Canonical (Except ε α) where
  eq_write_append h := by
    obtain ⟨n, middle, hword, hnext⟩ := run_bind_eq_ok.1 h
    obtain ⟨-, rfl⟩ := eq_append_of_readWord hword
    split at hnext
    · obtain ⟨x, hx, rfl⟩ := run_map_eq_ok.1 hnext
      rw [eq_write_append hx, ← List.append_assoc]
      rfl
    · obtain ⟨e, he, rfl⟩ := run_map_eq_ok.1 hnext
      rw [eq_write_append he, ← List.append_assoc]
      rfl
    · exact absurd hnext run_throw_ne_ok

/-- A record is canonical if the fields of what is made are what it is made of. -/
theorem Canonical.ofFields [Wire β] [Canonical β] {fields : α → β} {make : β → α}
    (h : ∀ y, fields (make y) = y) : @Canonical α (Wire.ofFields fields make) :=
  letI := Wire.ofFields fields make
  { eq_write_append := fun {bytes rest x} hx => by
      obtain ⟨y, hy, rfl⟩ := run_map_eq_ok.1 hx
      show bytes = write (fields (make y)) ++ rest
      rw [h]
      exact eq_write_append hy }

/-- An enumeration is canonical if no value is listed twice. -/
theorem Canonical.ofCases [BEq α] [LawfulBEq α] {cases : List α} (h : cases.Nodup) :
    @Canonical α (Wire.ofCases cases) :=
  letI := Wire.ofCases cases
  { eq_write_append := fun {bytes rest x} hx => by
      obtain ⟨n, hn, rfl⟩ := run_map_eq_ok.1 hx
      show bytes = writeVariant (cases.idxOf (cases.get n)) ++ rest
      rw [List.get_eq_getElem, h.idxOf_getElem]
      exact eq_append_of_readVariant hn }

/-! ### Exact types -/

/-- A payload decodes to a value exactly if it begins with the encoding of the value, provided that
the payload or the encoding has less than `2 ^ 64` bytes. -/
def Exact (α : Type) [Wire α] : Prop :=
  ∀ (bytes : Bytes) (x : α),
    bytes.length < UInt64.size ∨ (encode x).length < UInt64.size →
      (decode bytes = .ok x ↔ encode x <+: bytes)

/-- Whatever decodes begins with an encoding, of whatever length. -/
theorem isPrefix_of_decode [Wire α] [Canonical α] {bytes : Bytes} {x : α}
    (h : decode bytes = .ok x) : encode x <+: bytes := by
  rw [decode] at h
  cases hread : (read (α := α)).run bytes with
  | error fault =>
    rw [hread] at h
    contradiction
  | ok p =>
    obtain ⟨y, rest⟩ := p
    rw [hread] at h
    obtain rfl : y = x := Except.ok.inj h
    exact ⟨rest, (eq_write_append hread).symm⟩

/-- **Lawful and canonical is exact.** -/
theorem exact_of_canonical [Wire α] [Lawful α] [Canonical α] : Exact α := by
  refine fun bytes x hsize => ⟨isPrefix_of_decode, fun hprefix => ?_⟩
  have hle := hprefix.length_le
  obtain ⟨rest, rfl⟩ := hprefix
  exact decode_encode_append (by omega) rest

end Canonical
end Wire

open Wire

/-! ### Values -/

instance : Canonical Double := .ofFields fun _ => rfl

instance : Canonical Value where
  eq_write_append h := by
    obtain ⟨n, middle, hvariant, hnext⟩ := run_bind_eq_ok.1 h
    obtain rfl := eq_append_of_readVariant hvariant
    split at hnext
    · obtain ⟨rfl, rfl⟩ := run_pure_eq_ok.1 hnext
      rfl
    · obtain ⟨b, hb, rfl⟩ := run_map_eq_ok.1 hnext
      rw [eq_write_append hb, ← List.append_assoc]
      rfl
    · obtain ⟨i, hi, rfl⟩ := run_map_eq_ok.1 hnext
      rw [eq_write_append hi, ← List.append_assoc]
      rfl
    · obtain ⟨x, hx, rfl⟩ := run_map_eq_ok.1 hnext
      rw [eq_write_append hx, ← List.append_assoc]
      rfl
    · obtain ⟨s, hs, rfl⟩ := run_map_eq_ok.1 hnext
      rw [eq_write_append hs, ← List.append_assoc]
      rfl
    · obtain ⟨b, hb, rfl⟩ := run_map_eq_ok.1 hnext
      rw [eq_append_of_readBlob hb, ← List.append_assoc]
      rfl

instance : Canonical RowId := .ofFields fun _ => rfl

instance : Canonical ColumnKind := .ofCases (by decide)

instance : Canonical Column := .ofFields fun _ => rfl

instance : Canonical Relation := .ofCases (by decide)

instance : Canonical Condition := .ofFields fun _ => rfl

/-! ### Expressions -/

namespace Expr

/-- Whatever bound the reader descends with, an expression is taken from its encoding. -/
theorem eq_append_of_readNested {depth : Nat} {bytes rest : Bytes} {e : Expr}
    (h : (readNested depth).run bytes = .ok (e, rest)) : bytes = write e ++ rest := by
  induction depth generalizing bytes e rest with
  | zero => exact absurd h run_throw_ne_ok
  | succ depth ih =>
    have hmembers : ∀ {bytes es rest},
        (readListWith (readNested depth)).run bytes = .ok (es, rest) → bytes = write es ++ rest :=
      eq_append_of_readListWith ih
    obtain ⟨n, middle, hvariant, hnext⟩ := run_bind_eq_ok.1 h
    obtain rfl := eq_append_of_readVariant hvariant
    split at hnext
    · obtain ⟨c, hc, rfl⟩ := run_map_eq_ok.1 hnext
      rw [write_compare, eq_write_append hc, List.append_assoc]
      rfl
    · obtain ⟨es, hes, rfl⟩ := run_map_eq_ok.1 hnext
      rw [write_and, hmembers hes, List.append_assoc]
      rfl
    · obtain ⟨es, hes, rfl⟩ := run_map_eq_ok.1 hnext
      rw [write_or, hmembers hes, List.append_assoc]
      rfl
    · obtain ⟨b, hb, rfl⟩ := run_map_eq_ok.1 hnext
      rw [write_const, eq_write_append hb, List.append_assoc]
      rfl

instance : Canonical Expr := ⟨eq_append_of_readNested⟩

end Expr

instance : Canonical Aggregate := .ofCases (by decide)

instance : Canonical Projection := .ofFields fun _ => rfl

instance : Canonical Filter := .ofFields fun _ => rfl

/-! ### Messages -/

instance : Canonical FailureKind := .ofCases (by decide)

instance : Canonical Failure := .ofFields fun _ => rfl

instance : Canonical Operation := .ofCases (by decide)

instance : Canonical TableName := .ofFields fun _ => rfl

instance : Canonical Blob where
  eq_write_append h := by
    obtain ⟨bytes, hbytes, rfl⟩ := run_map_eq_ok.1 h
    exact eq_append_of_readBlob hbytes

instance : Canonical Request := .ofFields fun _ => rfl

instance : Canonical Response := .ofFields fun _ => rfl

/-! ### The format -/

/-- **The format of what travels, maps apart.** A payload decodes to a value, a key, a list of keys,
an expression, a filter, a declaration, a request, a response, a failure or a list of outcomes
exactly if it begins with the encoding of it. So each of them is read back bit for bit whatever
follows, has one encoding only, and a payload that begins with no encoding is refused. -/
theorem Wire.exact_mapFree :
    Exact Value ∧ Exact RowId ∧ Exact (List RowId) ∧ Exact Expr ∧ Exact Filter ∧
      Exact (List Column) ∧ Exact Request ∧ Exact Response ∧ Exact Failure ∧
      Exact (List (Except Failure RowId)) :=
  ⟨exact_of_canonical, exact_of_canonical, exact_of_canonical, exact_of_canonical,
    exact_of_canonical, exact_of_canonical, exact_of_canonical, exact_of_canonical,
    exact_of_canonical, exact_of_canonical⟩

/-- A disjunction of one constant, with a byte behind it that belongs to nothing. -/
theorem Wire.decode_orTrue :
    let bytes : Bytes := [2, 0, 0, 0, 1, 0, 0, 0, 0, 0, 0, 0, 3, 0, 0, 0, 1, 0xff]
    bytes.length < UInt64.size ∧ decode bytes = .ok (Expr.or [.const true]) := by
  intro bytes
  have hsize : bytes.length < UInt64.size := by decide
  obtain ⟨-, -, -, hexact, -⟩ := exact_mapFree
  exact ⟨hsize, (hexact bytes _ (.inl hsize)).2 ⟨[0xff], rfl⟩⟩

end KeyedRows
