/-
# One order, one equality

Keys are sorted by the total order of values, looked up by its "equal", hashed by
what they hold and sent as bytes. These agree: values compare as equal exactly if
they are the same variant with the same content bit for bit, and then, and only
then, a hasher is given the same and the same bytes are written.

The order itself rests on two facts shown beside the definitions: rounding an
integer to a double keeps the order (`Double.rank_ofInt64_mono`), so integers and
floats can be sorted together by the rank of a double, and the rank separates all
patterns (`Double.rank_injective`).

Main statement: `compare_total`.
-/

import KeyedRows.Proofs.Wire.Messages

namespace KeyedRows

open Std

/-! ### What a hasher is given -/

theorem Bytes.ofNat_injective {w m n : Nat} (hm : m < 1 <<< (8 * w)) (hn : n < 1 <<< (8 * w))
    (h : Bytes.ofNat w m = Bytes.ofNat w n) : m = n := by
  have hnumber := congrArg Bytes.toNat h
  rwa [Bytes.toNat_ofNat, Bytes.toNat_ofNat, Nat.mod_eq_of_lt hm, Nat.mod_eq_of_lt hn] at hnumber

theorem Utf8.encode_injective {s t : String} (h : Utf8.encode s = Utf8.encode t) : s = t := by
  have hs : Utf8.decode (Utf8.encode s) = .ok s := Utf8.decode_eq_ok_iff.2 rfl
  have ht : Utf8.decode (Utf8.encode t) = .ok t := Utf8.decode_eq_ok_iff.2 rfl
  rw [h, ht] at hs
  exact (Except.ok.inj hs).symm

namespace Value

/-- **What a value writes tells the value**, and where its writes end. -/
theorem hashInput_append_inj {v w : Value} {s t : List Bytes}
    (h : v.hashInput ++ s = w.hashInput ++ t) : v = w ∧ s = t := by
  -- the first write is the number of the variant, so only equal variants are left
  cases v <;> cases w <;> simp only [hashInput, List.cons_append, List.nil_append, List.cons.injEq,
    and_assoc] at h <;> try exact absurd h.1 (by decide)
  case null.null => exact ⟨rfl, h.2⟩
  case bool.bool a b =>
    obtain ⟨-, hbit, -, hrest⟩ := h
    have hsame : ∀ a b : Bool, (if a then 1 else 0 : UInt8) = (if b then 1 else 0) → a = b := by
      decide
    exact ⟨congrArg bool (hsame a b hbit), hrest⟩
  case int.int i j =>
    obtain ⟨-, hword, hrest⟩ := h
    have hbits : i.toUInt64.toNat = j.toUInt64.toNat :=
      Bytes.ofNat_injective (w := 8) i.toUInt64.toNat_lt j.toUInt64.toNat_lt hword
    have hsame := congrArg UInt64.toInt64 (UInt64.toNat_inj.1 hbits)
    rw [Int64.toInt64_toUInt64, Int64.toInt64_toUInt64] at hsame
    exact ⟨congrArg int hsame, hrest⟩
  case float.float x y =>
    obtain ⟨-, hword, hrest⟩ := h
    have hbits : x.bits.toNat = y.bits.toNat :=
      Bytes.ofNat_injective (w := 8) x.bits.toNat_lt y.bits.toNat_lt hword
    have hsame : x = y := by
      cases x
      cases y
      exact congrArg Double.mk (UInt64.toNat_inj.1 hbits)
    exact ⟨congrArg float hsame, hrest⟩
  case str.str a b =>
    obtain ⟨-, htext, -, hrest⟩ := h
    exact ⟨congrArg str (Utf8.encode_injective htext), hrest⟩
  case bytes.bytes a b =>
    obtain ⟨-, -, hbytes, hrest⟩ := h
    exact ⟨congrArg bytes hbytes, hrest⟩

theorem hashInput_eq_iff {v w : Value} : v.hashInput = w.hashInput ↔ v = w := by
  constructor
  · intro h
    have happend : v.hashInput ++ [] = w.hashInput ++ [] := by rw [h]
    exact (hashInput_append_inj happend).1
  · rintro rfl
    rfl

theorem hashInput_ne_nil (v : Value) : v.hashInput ≠ [] := by
  cases v <;> exact List.cons_ne_nil _ _

/-- What values write one after another tells how many there are and which. -/
theorem flatMap_hashInput_inj {vs ws : List Value}
    (h : vs.flatMap hashInput = ws.flatMap hashInput) : vs = ws := by
  induction vs generalizing ws with
  | nil =>
    cases ws with
    | nil => rfl
    | cons w ws =>
      rw [List.flatMap_nil, List.flatMap_cons] at h
      exact absurd (List.append_eq_nil_iff.1 h.symm).1 w.hashInput_ne_nil
  | cons v vs ih =>
    cases ws with
    | nil =>
      rw [List.flatMap_nil, List.flatMap_cons] at h
      exact absurd (List.append_eq_nil_iff.1 h).1 v.hashInput_ne_nil
    | cons w ws =>
      rw [List.flatMap_cons, List.flatMap_cons] at h
      obtain ⟨rfl, hrest⟩ := hashInput_append_inj h
      rw [ih hrest]

end Value

theorem RowId.hashInput_eq_iff {a b : RowId} : a.hashInput = b.hashInput ↔ a = b := by
  constructor
  · intro h
    rw [hashInput, hashInput, List.cons.injEq] at h
    have hparts := Value.flatMap_hashInput_inj h.2
    cases a
    cases b
    exact congrArg RowId.mk hparts
  · rintro rfl
    rfl

/-! ### Bytes -/

/-- Different values have different encodings. -/
theorem Wire.encode_inj {α : Type} [Wire α] [Wire.Lawful α] {x y : α}
    (h : (Wire.encode x).length < UInt64.size) : Wire.encode x = Wire.encode y ↔ x = y := by
  constructor
  · intro hsame
    have hx : Wire.decode (Wire.encode x) = .ok x := Wire.decode_encode h
    have hy : Wire.decode (Wire.encode y) = .ok y := Wire.decode_encode (hsame ▸ h)
    rw [hsame, hy] at hx
    exact (Except.ok.inj hx).symm
  · rintro rfl
    rfl

/-! ### Keys -/

section Lists
variable {α : Type} [Ord α] [ReflOrd α]

/-- What two lists begin with alike plays no part in their order. -/
theorem compare_append_left (front xs ys : List α) :
    compare (front ++ xs) (front ++ ys) = compare xs ys := by
  induction front with
  | nil => rfl
  | cons x front ih =>
    rw [List.cons_append, List.cons_append, List.compare_cons_cons, ReflOrd.compare_self, ih]
    rfl

end Lists

namespace RowId

/-- The first parts that differ decide. -/
theorem compare_of_differ {front s t : List Value} {v w : Value} (h : v ≠ w) :
    compare (⟨front ++ v :: s⟩ : RowId) ⟨front ++ w :: t⟩ = compare v w := by
  rw [compare_def, compare_append_left, List.compare_cons_cons]
  cases hvw : compare v w with
  | eq => exact absurd (LawfulEqOrd.eq_of_compare hvw) h
  | lt | gt => rfl

/-- A key comes before its extensions. -/
theorem compare_of_extends (front t : List Value) (w : Value) :
    compare (⟨front⟩ : RowId) ⟨front ++ w :: t⟩ = .lt := by
  have h : compare (front ++ []) (front ++ w :: t) = .lt := by
    rw [compare_append_left, List.compare_nil_cons]
  rwa [List.append_nil] at h

end RowId

/-- **Values and keys are totally ordered, and only what is the same is equal.** Integers and floats
are sorted together, each integer just before the floats it rounds to, and still the order is
transitive across all kinds. Two values compare as equal exactly if they are the same variant with
the same content, every NaN and both zeros by their bits; then a hasher is given the same and the
same bytes are written, and otherwise neither. Keys inherit this: the first parts that differ
decide, and a key comes before its extensions. -/
theorem Value.compare_total :
    ((∀ a b : Value, compare a b = (compare b a).swap) ∧
      (∀ a b c : Value, (compare a b).isLE → (compare b c).isLE → (compare a c).isLE) ∧
      ∀ a b : Value, (compare a b = .eq ↔ a = b) ∧ (a.hashInput = b.hashInput ↔ a = b) ∧
        ((Wire.encode a).length < UInt64.size → (Wire.encode a = Wire.encode b ↔ a = b))) ∧
    ((∀ a b : RowId, compare a b = (compare b a).swap) ∧
      (∀ a b c : RowId, (compare a b).isLE → (compare b c).isLE → (compare a c).isLE) ∧
      ∀ a b : RowId, (compare a b = .eq ↔ a = b) ∧ (a.hashInput = b.hashInput ↔ a = b) ∧
        ((Wire.encode a).length < UInt64.size → (Wire.encode a = Wire.encode b ↔ a = b))) ∧
    (∀ (front s t : List Value) (v w : Value), v ≠ w →
      compare (⟨front ++ v :: s⟩ : RowId) ⟨front ++ w :: t⟩ = compare v w) ∧
    ∀ (front t : List Value) (w : Value), compare (⟨front⟩ : RowId) ⟨front ++ w :: t⟩ = .lt := by
  refine ⟨⟨fun a b => OrientedOrd.eq_swap, fun a b c => TransOrd.isLE_trans, fun a b => ?_⟩,
    ⟨fun a b => OrientedOrd.eq_swap, fun a b c => TransOrd.isLE_trans, fun a b => ?_⟩,
    fun front s t v w => RowId.compare_of_differ,
    fun front t w => RowId.compare_of_extends front t w⟩
  · exact ⟨LawfulEqOrd.compare_eq_iff_eq, hashInput_eq_iff, Wire.encode_inj⟩
  · exact ⟨LawfulEqOrd.compare_eq_iff_eq, RowId.hashInput_eq_iff, Wire.encode_inj⟩

/-- Two integers that round to one float come before it, the smaller one by way of the larger. The
bytes of the integer are not those of the float. -/
theorem Value.compare_rounded :
    let exact : Value := .int 9007199254740992
    let rounded : Value := .int 9007199254740993
    let float : Value := .float ⟨0x4340000000000000⟩
    (compare exact rounded).isLE ∧ (compare rounded float).isLE ∧ (compare exact float).isLE ∧
      (Wire.encode exact).length < UInt64.size ∧ Wire.encode exact ≠ Wire.encode float := by
  intro exact rounded float
  obtain ⟨⟨-, htrans, hequal⟩, -⟩ := compare_total
  have hfirst : (compare exact rounded).isLE := by decide +kernel
  have hsecond : (compare rounded float).isLE := by decide +kernel
  have hsize : (Wire.encode exact).length < UInt64.size := by decide +kernel
  have hne : exact ≠ float := by simp [exact, float]
  obtain ⟨-, -, hencode⟩ := hequal exact float
  exact ⟨hfirst, hsecond, htrans exact rounded float hfirst hsecond, hsize,
    fun hsame => hne ((hencode hsize).1 hsame)⟩

end KeyedRows
