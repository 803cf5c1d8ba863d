/-
# Encodings without their end

An encoding is a row of parts: words, flags, variant numbers and blobs on the one
hand, the text of strings on the other. A reader that is given the first bytes of
an encoding, but not all, takes the parts that are whole and stops in the one in
which the bytes end. So no cut yields a value, of whatever type and wherever it
falls. What is reported depends on the part: text cut short goes without words,
everything else is the end of the input.

What is said of readers one after another (`Stops.bind`) is carried over to every
type that travels: `Parted` names the parts of its encodings and says that its
reader stops there.

Main statement: `decode_take`.
-/

import KeyedRows.Counters
import KeyedRows.Proofs.Wire.Messages

namespace KeyedRows
namespace Wire

/-! ### Parts -/

/-- A stretch of an encoding that a reader takes whole or not at all. -/
inductive Part where
  /-- A word, a flag, the number of a variant or the bytes of a blob. -/
  | fixed (bytes : Bytes)
  /-- The text of a string. -/
  | text (bytes : Bytes)

namespace Part

def bytes : Part → Bytes
  | fixed bytes | text bytes => bytes

/-- What is reported when the bytes end inside the part. -/
def fault : Part → Fault
  | fixed _ => .endOfInput
  | text _ => .shortText

end Part

/-- The bytes of parts, one after another. -/
def joined (parts : List Part) : Bytes := parts.flatMap Part.bytes

@[simp] theorem joined_nil : joined [] = [] := rfl

@[simp] theorem joined_cons (p : Part) (ps : List Part) : joined (p :: ps) = p.bytes ++ joined ps :=
  rfl

@[simp] theorem joined_append (ps qs : List Part) : joined (ps ++ qs) = joined ps ++ joined qs :=
  List.flatMap_append

/-- What is reported when bytes that should be the given parts end after the first `n`: the fault of
the part in which they end. -/
def faultAt : List Part → Nat → Fault
  | [], _ => .endOfInput
  | p :: ps, n => if n < p.bytes.length then p.fault else faultAt ps (n - p.bytes.length)

theorem faultAt_append_left {ps : List Part} {n : Nat} (h : n < (joined ps).length)
    (qs : List Part) : faultAt (ps ++ qs) n = faultAt ps n := by
  induction ps generalizing n with
  | nil => contradiction
  | cons p ps ih =>
    rw [joined_cons, List.length_append] at h
    rw [List.cons_append, faultAt, faultAt]
    by_cases hp : n < p.bytes.length
    · rw [if_pos hp, if_pos hp]
    · rw [if_neg hp, if_neg hp, ih (by omega)]

theorem faultAt_append_right (ps qs : List Part) (n : Nat) :
    faultAt (ps ++ qs) ((joined ps).length + n) = faultAt qs n := by
  induction ps with
  | nil => rw [List.nil_append, joined_nil, List.length_nil, Nat.zero_add]
  | cons p ps ih =>
    rw [List.cons_append, faultAt, joined_cons, List.length_append, if_neg (by omega),
      Nat.add_assoc, Nat.add_sub_cancel_left, ih]

/-- The bytes of the parts end after `n` inside the text of a string. -/
def EndsInText (parts : List Part) (n : Nat) : Prop :=
  ∃ front text back, parts = front ++ .text text :: back ∧ (joined front).length ≤ n ∧
    n < (joined front).length + text.length

theorem faultAt_of_endsInText {parts : List Part} {n : Nat} (h : EndsInText parts n) :
    faultAt parts n = .shortText := by
  obtain ⟨front, text, back, rfl, hle, hlt⟩ := h
  obtain ⟨m, rfl⟩ := Nat.exists_eq_add_of_le hle
  have hm : m < (Part.text text).bytes.length := Nat.lt_of_add_lt_add_left hlt
  rw [faultAt_append_right, faultAt, if_pos hm]
  rfl

theorem faultAt_of_not_endsInText {parts : List Part} {n : Nat} (h : ¬ EndsInText parts n) :
    faultAt parts n = .endOfInput := by
  induction parts generalizing n with
  | nil => rfl
  | cons p ps ih =>
    rw [faultAt]
    by_cases hp : n < p.bytes.length
    · rw [if_pos hp]
      cases p with
      | fixed bytes => rfl
      | text text => exact absurd ⟨[], text, ps, rfl, Nat.zero_le n, by simpa [Part.bytes] using hp⟩ h
    · rw [if_neg hp]
      refine ih fun ⟨front, text, back, hps, hle, hlt⟩ => h ⟨p :: front, text, back, ?_, ?_, ?_⟩
      · rw [hps, List.cons_append]
      · rw [joined_cons, List.length_append]
        omega
      · rw [joined_cons, List.length_append]
        omega

/-! ### Stopping -/

/-- Given the first bytes of the parts, but not all, the reader stops in the part in which they
end. -/
def Stops {α : Type} (r : Reader α) (parts : List Part) : Prop :=
  ∀ n < (joined parts).length, r.run ((joined parts).take n) = .error (faultAt parts n)

namespace Stops
variable {α β : Type} {r : Reader α} {k : α → Reader β} {ps qs : List Part} {x : α}

theorem nil (r : Reader α) : Stops r [] := fun _ h => absurd h (Nat.not_lt_zero _)

/-- A reader that has stopped goes on to nothing. -/
protected theorem bind_nil (hr : Stops r ps) (k : α → Reader β) : Stops (r >>= k) ps := by
  intro n hn
  rw [StateT.run_bind, hr n hn]
  rfl

/-- Two readers in a row stop in the parts of the first, or take these and stop in the parts of the
second. -/
protected theorem bind (hr : Stops r ps) (htakes : Takes r (joined ps) x) (hk : Stops (k x) qs) :
    Stops (r >>= k) (ps ++ qs) := by
  intro n hn
  rw [joined_append, List.length_append] at hn
  rw [joined_append]
  by_cases h : n < (joined ps).length
  · rw [List.take_append_of_le_length (Nat.le_of_lt h), faultAt_append_left h]
    exact hr.bind_nil k n h
  · obtain ⟨m, rfl⟩ := Nat.exists_eq_add_of_le (Nat.le_of_not_lt h)
    rw [List.take_length_add_append, faultAt_append_right, StateT.run_bind, htakes]
    exact hk m (by omega)

/-- A part, and what comes behind it. -/
protected theorem cons {p : Part} (hr : Stops r [p]) (htakes : Takes r p.bytes x)
    (hk : Stops (k x) qs) : Stops (r >>= k) (p :: qs) := by
  refine Stops.bind hr (x := x) ?_ hk
  rwa [joined_cons, joined_nil, List.append_nil]

end Stops

/-! ### Fixed parts -/

/-- Bytes are taken all at once. -/
theorem stops_bytes (p : Part) : Stops (readBytes p.fault p.bytes.length) [p] := by
  intro n hn
  rw [joined_cons, joined_nil, List.append_nil] at hn ⊢
  have hshort : (p.bytes.take n).length ≠ p.bytes.length := by
    rw [List.length_take]
    omega
  show (if ((p.bytes.take n).splitAt p.bytes.length).1.length = p.bytes.length
    then Except.ok _ else Except.error p.fault) = _
  rw [List.splitAt_eq, List.take_of_length_le (by rw [List.length_take]; omega), if_neg hshort,
    faultAt, if_pos hn]

theorem stops_word (w n : Nat) : Stops (readWord w) [.fixed (Bytes.ofNat w n)] := by
  have hbytes := stops_bytes (.fixed (Bytes.ofNat w n))
  rw [Part.bytes, Bytes.length_ofNat] at hbytes
  exact hbytes.bind_nil _

theorem stops_length (n : Nat) : Stops readLength [.fixed (writeLength n)] := stops_word 8 n

theorem stops_variant (count n : Nat) : Stops (readVariant count) [.fixed (writeVariant n)] :=
  (stops_word 4 n).bind_nil _

/-- A number that is too large for its word is taken for what is left of it. -/
theorem takes_count (n : Nat) :
    Takes (readWord 8) (Bytes.ofNat 8 n) (n % UInt64.size) := by
  have hbytes := (takes_bytes .endOfInput (Bytes.ofNat 8 n)).map Bytes.toNat
  rwa [Bytes.length_ofNat, Bytes.toNat_ofNat] at hbytes

/-- A blob, behind its length. -/
theorem stops_blob {bytes : Bytes} (h : bytes.length < UInt64.size) :
    Stops readBlob [.fixed (writeLength bytes.length), .fixed bytes] :=
  (stops_length bytes.length).cons (takes_length h) (stops_bytes (.fixed bytes))

/-- A list, behind its length, if each of its members is taken from its parts and stopped in
them. -/
theorem stops_list {α : Type} {read : Reader α} {parts : α → List Part} {xs : List α}
    (hlength : xs.length < UInt64.size)
    (hmembers : ∀ x ∈ xs, Takes read (joined (parts x)) x ∧ Stops read (parts x)) :
    Stops (readListWith read) (.fixed (writeLength xs.length) :: xs.flatMap parts) := by
  refine (stops_length xs.length).cons (takes_length hlength) ?_
  clear hlength
  induction xs with
  | nil => exact .nil _
  | cons x xs ih =>
    rw [List.forall_mem_cons] at hmembers
    obtain ⟨⟨htakes, hstops⟩, hxs⟩ := hmembers
    exact hstops.bind htakes ((ih hxs).bind_nil _)

/-! ### Types with parts -/

/-- The parts of an encoding, in which readers stop. -/
class Parted (α : Type) [Wire α] where
  parts : α → List Part
  joined_parts (x : α) : joined (parts x) = write x
  stops_read (x : α) (h : (write x).length < UInt64.size) : Stops (read : Reader α) (parts x)

export Parted (parts joined_parts stops_read)

section Parted
variable {α β ε : Type}

/-- What is lawful is taken from its parts. -/
theorem takes_parts [Wire α] [Lawful α] [Parted α] (x : α) (h : (write x).length < UInt64.size) :
    Takes read (joined (parts x)) x := by
  rw [joined_parts]
  exact takes_write x h

theorem joined_flatMap_parts [Wire α] [Parted α] (xs : List α) :
    joined (xs.flatMap parts) = xs.flatMap write := by
  induction xs with
  | nil => rfl
  | cons x xs ih => rw [List.flatMap_cons, List.flatMap_cons, joined_append, joined_parts, ih]

instance : Parted Bool where
  parts b := [.fixed (write b)]
  joined_parts _ := List.append_nil _
  stops_read b _ := by
    have hword : write b = Bytes.ofNat 1 (if b then 1 else 0) := by cases b <;> rfl
    rw [hword]
    exact (stops_word 1 _).bind_nil _

instance : Parted UInt64 where
  parts n := [.fixed (write n)]
  joined_parts _ := List.append_nil _
  stops_read n _ := (stops_word 8 n.toNat).bind_nil _

instance : Parted Int64 where
  parts i := [.fixed (write i)]
  joined_parts _ := List.append_nil _
  stops_read i _ := (stops_word 8 i.toUInt64.toNat).bind_nil _

instance : Parted String where
  parts s := [.fixed (writeLength (Utf8.encode s).length), .text (Utf8.encode s)]
  joined_parts s := by
    rw [joined_cons, joined_cons, joined_nil, List.append_nil]
    rfl
  stops_read s h := by
    have hlength : (Utf8.encode s).length < UInt64.size := length_lt_of_append h
    have htext := stops_bytes (.text (Utf8.encode s))
    exact (stops_length _).cons (takes_length hlength) (htext.bind_nil _)

instance [Wire α] [Lawful α] [Parted α] : Parted (List α) where
  parts xs := .fixed (writeLength xs.length) :: xs.flatMap parts
  joined_parts xs := by
    rw [joined_cons, joined_flatMap_parts]
    rfl
  stops_read xs h := by
    have htotal : (xs.flatMap write).length < UInt64.size := length_lt_of_append h
    have hcount : xs.length < UInt64.size :=
      Nat.lt_of_le_of_lt (length_le_flatMap_write write_ne_nil xs) htotal
    refine stops_list hcount fun x hx => ?_
    have hmember : (write x).length < UInt64.size :=
      Nat.lt_of_le_of_lt (length_write_le_flatMap hx) htotal
    exact ⟨takes_parts x hmember, stops_read x hmember⟩

instance [Wire α] [Parted α] : Parted (Option α) where
  parts
    | none => [.fixed [0]]
    | some x => .fixed [1] :: parts x
  joined_parts x := by
    cases x with
    | none => rfl
    | some x =>
      rw [joined_cons, joined_parts]
      rfl
  stops_read x h := by
    cases x with
    | none => exact (stops_word 1 0).bind_nil _
    | some x =>
      have hx : (write x).length < UInt64.size := Nat.lt_of_succ_lt h
      exact (stops_word 1 1).cons (takes_word (by decide)) ((stops_read x hx).bind_nil _)

instance [Wire α] [Wire β] [Lawful α] [Parted α] [Parted β] : Parted (α × β) where
  parts p := parts p.1 ++ parts p.2
  joined_parts p := by
    rw [joined_append, joined_parts, joined_parts]
    rfl
  stops_read p h := by
    have hboth : (write p.1).length + (write p.2).length < UInt64.size := by
      rw [← List.length_append]
      exact h
    have hfirst : (write p.1).length < UInt64.size :=
      Nat.lt_of_le_of_lt (Nat.le_add_right _ _) hboth
    have hsecond : (write p.2).length < UInt64.size :=
      Nat.lt_of_le_of_lt (Nat.le_add_left _ _) hboth
    exact (stops_read p.1 hfirst).bind (takes_parts p.1 hfirst)
      ((stops_read p.2 hsecond).bind_nil _)

instance [Ord α] [Std.TransOrd α] [Std.LawfulEqOrd α] [Wire α] [Wire β] [Lawful α] [Lawful β]
    [Parted α] [Parted β] : Parted (OrderedMap α β) where
  parts m := parts m.entries
  joined_parts m := joined_parts m.entries
  stops_read m h := (stops_read m.entries h).bind_nil _

instance [Wire ε] [Wire α] [Parted ε] [Parted α] : Parted (Except ε α) where
  parts
    | .ok x => .fixed (writeVariant 0) :: parts x
    | .error e => .fixed (writeVariant 1) :: parts e
  joined_parts x := by
    cases x <;> rw [joined_cons, joined_parts] <;> rfl
  stops_read x h := by
    cases x with
    | ok x =>
      have hx := stops_read x (length_lt_of_append h)
      exact (stops_word 4 0).cons (takes_word (by decide)) (hx.bind_nil _)
    | error e =>
      have he := stops_read e (length_lt_of_append h)
      exact (stops_word 4 1).cons (takes_word (by decide)) (he.bind_nil _)

/-- A record has the parts of its fields. -/
abbrev Parted.ofFields [Wire β] [Parted β] {fields : α → β} {make : β → α} :
    @Parted α (Wire.ofFields fields make) :=
  letI := Wire.ofFields fields make
  { parts := fun x => parts (fields x)
    joined_parts := fun x => joined_parts (fields x)
    stops_read := fun x hx => (stops_read (fields x) hx).bind_nil _ }

/-- A plain enumeration has one part. -/
abbrev Parted.ofCases [BEq α] {cases : List α} : @Parted α (Wire.ofCases cases) :=
  letI := Wire.ofCases cases
  { parts := fun x => [.fixed (write x)]
    joined_parts := fun _ => List.append_nil _
    stops_read := fun x _ => (stops_variant cases.length (cases.idxOf x)).bind_nil _ }

/-! ### Whole payloads -/

/-- **An encoding without its end is refused**, with the fault of the part in which it ends. -/
theorem decode_take [Wire α] [Parted α] {x : α} {n : Nat} (hsize : (encode x).length < UInt64.size)
    (hn : n < (encode x).length) :
    (decode ((encode x).take n) : Except Fault α) = .error (faultAt (parts x) n) := by
  have hstops := stops_read x hsize
  rw [Stops, joined_parts] at hstops
  rw [decode, encode, hstops n hn]
  rfl

end Parted
end Wire

open Wire

/-! ### Values, rows and filters -/

instance : Parted Double := .ofFields

instance : Parted Value where
  parts
    | .null => [.fixed (writeVariant 0)]
    | .bool b => .fixed (writeVariant 1) :: parts b
    | .int i => .fixed (writeVariant 2) :: parts i
    | .float x => .fixed (writeVariant 3) :: parts x
    | .str s => .fixed (writeVariant 4) :: parts s
    | .bytes b => [.fixed (writeVariant 5), .fixed (writeLength b.length), .fixed b]
  joined_parts v := by
    cases v with
    | null => rfl
    | bytes b =>
      rw [joined_cons, joined_cons, joined_cons, joined_nil, List.append_nil]
      rfl
    | bool | int | float | str =>
      rw [joined_cons, joined_parts]
      rfl
  stops_read v h := by
    have hnumber : ∀ n (hn : n < 6), Takes (readVariant 6) (writeVariant n) ⟨n, hn⟩ :=
      fun n hn => takes_variant hn (by decide)
    cases v with
    | null => exact (stops_variant 6 0).bind_nil _
    | bool b =>
      have hb := stops_read b (length_lt_of_append h)
      exact (stops_variant 6 1).cons (hnumber 1 (by decide)) (hb.bind_nil _)
    | int i =>
      have hi := stops_read i (length_lt_of_append h)
      exact (stops_variant 6 2).cons (hnumber 2 (by decide)) (hi.bind_nil _)
    | float x =>
      have hx := stops_read x (length_lt_of_append h)
      exact (stops_variant 6 3).cons (hnumber 3 (by decide)) (hx.bind_nil _)
    | str s =>
      have hs := stops_read s (length_lt_of_append h)
      exact (stops_variant 6 4).cons (hnumber 4 (by decide)) (hs.bind_nil _)
    | bytes b =>
      have hb := stops_blob (length_lt_of_append (length_lt_of_append h))
      exact (stops_variant 6 5).cons (hnumber 5 (by decide)) (hb.bind_nil _)

instance : Parted RowId := .ofFields

instance : Parted Row := .ofFields

instance : Parted ColumnKind := .ofCases

instance : Parted Column := .ofFields

instance : Parted Relation := .ofCases

instance : Parted Condition := .ofFields

/-! ### Expressions -/

namespace Expr

mutual

/-- The parts of the encoding of an expression. -/
protected def parts : Expr → List Part
  | compare c => .fixed (writeVariant 0) :: Parted.parts c
  | and es => .fixed (writeVariant 1) :: .fixed (writeLength es.length) :: Expr.partsAll es
  | or es => .fixed (writeVariant 2) :: .fixed (writeLength es.length) :: Expr.partsAll es
  | const b => .fixed (writeVariant 3) :: Parted.parts b

/-- The parts of expressions, one after another. -/
protected def partsAll : List Expr → List Part
  | [] => []
  | e :: es => Expr.parts e ++ Expr.partsAll es

end

theorem partsAll_eq (es : List Expr) : Expr.partsAll es = es.flatMap Expr.parts := by
  induction es with
  | nil => rfl
  | cons e es ih => rw [Expr.partsAll, ih, List.flatMap_cons]

mutual

theorem joined_parts (e : Expr) : joined e.parts = write e := by
  cases e with
  | compare c =>
    rw [Expr.parts, joined_cons, Wire.joined_parts, write_compare]
    rfl
  | and es =>
    rw [Expr.parts, joined_cons, joined_cons, joined_partsAll es, write_and]
    rfl
  | or es =>
    rw [Expr.parts, joined_cons, joined_cons, joined_partsAll es, write_or]
    rfl
  | const b =>
    rw [Expr.parts, joined_cons, Wire.joined_parts, write_const]
    rfl

theorem joined_partsAll (es : List Expr) : joined (Expr.partsAll es) = es.flatMap write := by
  cases es with
  | nil => rfl
  | cons e es =>
    rw [Expr.partsAll, joined_append, joined_parts e, joined_partsAll es, List.flatMap_cons]

end

/-- The members of a connective are stopped one level deeper, where their encodings still fit. -/
theorem stops_members {depth n : Nat} {es : List Expr}
    (ih : ∀ e : Expr, (write e).length ≤ depth → (write e).length < UInt64.size →
      Stops (readNested depth) e.parts)
    (hdepth : (writeVariant n ++ write es).length ≤ depth + 1)
    (hsize : (writeVariant n ++ write es).length < UInt64.size) :
    Stops (readListWith (readNested depth))
      (.fixed (writeLength es.length) :: Expr.partsAll es) := by
  have hlist : (write es).length = 8 + (es.flatMap write).length := by
    show (writeLength _ ++ _).length = _
    rw [List.length_append, writeLength, Bytes.length_ofNat]
  rw [List.length_append, writeVariant, Bytes.length_ofNat] at hdepth hsize
  have hcount := length_le_flatMap_write write_ne_nil es
  rw [partsAll_eq]
  refine stops_list (by omega) fun e he => ?_
  have hmember := length_write_le_flatMap he
  rw [joined_parts]
  exact ⟨takes_readNested (by omega) (by omega), ih e (by omega) (by omega)⟩

/-- A reader of bounded depth is stopped in the parts of every expression whose encoding is no
longer than the bound. -/
theorem stops_readNested {depth : Nat} {e : Expr} (hdepth : (write e).length ≤ depth)
    (hsize : (write e).length < UInt64.size) : Stops (readNested depth) e.parts := by
  induction depth generalizing e with
  | zero => exact absurd (List.eq_nil_of_length_eq_zero (Nat.le_zero.1 hdepth)) (write_ne_nil e)
  | succ depth ih =>
    have hnumber : ∀ n (hn : n < 4), Takes (readVariant 4) (writeVariant n) ⟨n, hn⟩ :=
      fun n hn => takes_variant hn (by decide)
    cases e with
    | compare c =>
      rw [write_compare] at hsize
      rw [Expr.parts]
      have hc := stops_read c (length_lt_of_append hsize)
      exact (stops_variant 4 0).cons (hnumber 0 (by decide)) (hc.bind_nil _)
    | and es =>
      rw [write_and] at hdepth hsize
      rw [Expr.parts]
      have hes := stops_members (fun _ => ih) hdepth hsize
      exact (stops_variant 4 1).cons (hnumber 1 (by decide)) (hes.bind_nil _)
    | or es =>
      rw [write_or] at hdepth hsize
      rw [Expr.parts]
      have hes := stops_members (fun _ => ih) hdepth hsize
      exact (stops_variant 4 2).cons (hnumber 2 (by decide)) (hes.bind_nil _)
    | const b =>
      rw [write_const] at hsize
      rw [Expr.parts]
      have hb := stops_read b (length_lt_of_append hsize)
      exact (stops_variant 4 3).cons (hnumber 3 (by decide)) (hb.bind_nil _)

instance : Parted Expr where
  parts := Expr.parts
  joined_parts := joined_parts
  stops_read _ h := stops_readNested (Nat.le_of_lt h) h

end Expr

instance : Parted Aggregate := .ofCases

instance : Parted Projection := .ofFields

instance : Parted Filter := .ofFields

/-! ### Messages -/

instance : Parted FailureKind := .ofCases

instance : Parted Failure := .ofFields

instance : Parted Operation := .ofCases

instance : Parted TableName := .ofFields

instance : Parted Blob where
  parts b := [.fixed (writeLength b.bytes.length), .fixed b.bytes]
  joined_parts b := by
    rw [joined_cons, joined_cons, joined_nil, List.append_nil]
    rfl
  stops_read b h := (stops_blob (length_lt_of_append h)).bind_nil _

instance : Parted Request := .ofFields

instance : Parted Response := .ofFields

instance : Parted UpdatePayload := .ofFields

/-! ### Reports -/

/-- Counts one after another. -/
def Wire.countParts (counts : List Nat) : List Part := counts.map fun n => .fixed (Bytes.ofNat 8 n)

instance : Parted ServerCounters where
  parts c := countParts [c.connectionsTotal, c.connectionsActive, c.requestsTotal,
    c.requestsSuccess, c.requestsError, c.bytesReceived, c.bytesSent]
  joined_parts c := by
    simp only [countParts, List.map_cons, List.map_nil, joined_cons, joined_nil, List.append_nil,
      ← List.append_assoc]
    rfl
  stops_read c _ := by
    have hcount : ∀ n, Stops (readWord 8) [.fixed (Bytes.ofNat 8 n)] := stops_word 8
    exact (hcount _).cons (takes_count _) <| (hcount _).cons (takes_count _) <|
      (hcount _).cons (takes_count _) <| (hcount _).cons (takes_count _) <|
      (hcount _).cons (takes_count _) <| (hcount _).cons (takes_count _) <| (hcount _).bind_nil _

instance : Parted QueueCounters where
  parts c := countParts [c.submitted, c.completed, c.failed, c.rejected, c.cancelled]
  joined_parts c := by
    simp only [countParts, List.map_cons, List.map_nil, joined_cons, joined_nil, List.append_nil,
      ← List.append_assoc]
    rfl
  stops_read c _ := by
    have hcount : ∀ n, Stops (readWord 8) [.fixed (Bytes.ofNat 8 n)] := stops_word 8
    exact (hcount _).cons (takes_count _) <| (hcount _).cons (takes_count _) <|
      (hcount _).cons (takes_count _) <| (hcount _).cons (takes_count _) <| (hcount _).bind_nil _

/-- The counters of a server are taken, too large ones for what is left of them. -/
theorem ServerCounters.exists_takes (c : ServerCounters) :
    ∃ c' : ServerCounters, Takes read (joined (parts c)) c' :=
  ⟨_, (takes_count _).bind <| (takes_count _).bind <| (takes_count _).bind <|
    (takes_count _).bind <| (takes_count _).bind <| (takes_count _).bind <|
    (takes_count _).bind (.pure _)⟩

theorem QueueCounters.exists_takes (c : QueueCounters) :
    ∃ c' : QueueCounters, Takes read (joined (parts c)) c' :=
  ⟨_, (takes_count _).bind <| (takes_count _).bind <| (takes_count _).bind <|
    (takes_count _).bind <| (takes_count _).bind (.pure _)⟩

instance : Parted Report where
  parts r := parts r.server ++ (parts r.startTime ++
    (.fixed (Bytes.ofNat 8 r.uptimeSeconds) :: (parts r.queue ++ parts r.databases)))
  joined_parts r := by
    simp only [joined_append, joined_cons, joined_parts, ← List.append_assoc]
    rfl
  stops_read r h := by
    have hwrite : (write r).length = (write r.server).length + (write r.startTime).length + 8 +
        (write r.queue).length + (write r.databases).length := by
      show (write r.server ++ write r.startTime ++ Bytes.ofNat 8 r.uptimeSeconds ++
        write r.queue ++ write r.databases).length = _
      simp only [List.length_append, Bytes.length_ofNat]
    obtain ⟨_, hserver⟩ := r.server.exists_takes
    obtain ⟨_, hqueue⟩ := r.queue.exists_takes
    have hstart := stops_read r.startTime (by omega)
    have hdatabases := stops_read r.databases (by omega)
    exact (stops_read r.server (by omega)).bind hserver <|
      hstart.bind (takes_parts r.startTime (by omega)) <|
      (stops_word 8 r.uptimeSeconds).cons (takes_count _) <|
      (stops_read r.queue (by omega)).bind hqueue (hdatabases.bind_nil _)

end KeyedRows
