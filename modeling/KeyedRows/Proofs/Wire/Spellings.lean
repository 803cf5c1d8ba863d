/-
# Maps on the wire

A map travels as the list of its entries in the order of its keys. Read back, the
entries may come in any order, and of two under one key the later wins. So the
value of a type that holds a map has many spellings that are read, and one among
them that is written.

Reading such a type is reading its entries as a plain list and making the map of
them (`ReadsAs`). Plain lists have one encoding each, so a payload decodes to a
value exactly if it begins with a spelling of it (`ReadsAs.decode_eq_ok_iff`).
Making a map drops entries and adds none, so what is written is no longer than
what was read, and it is read as the same value.

Main statement: `format_maps`. Beside it stands that not every cut is reported in
the same words (`cut_in_text_goes_without_words`).
-/

import KeyedRows.Proofs.Wire.Canonical
import KeyedRows.Proofs.Wire.Truncation

namespace KeyedRows
namespace Wire

/-! ### Reading one type as another -/

section ReadsAs
variable {α β σ τ : Type}

/-- Reading an `α` is reading a `σ` and making an `α` of it. -/
def ReadsAs [Wire σ] [Wire α] (make : σ → α) : Prop :=
  (read : Reader α) = do return make (← read)

namespace ReadsAs

protected theorem id [Wire α] : ReadsAs (id : α → α) := (bind_pure _).symm

/-- A map is read as the list of its entries. -/
theorem ofList [Ord α] [Std.TransOrd α] [Std.LawfulEqOrd α] [Wire α] [Wire β] :
    ReadsAs (OrderedMap.ofList : List (α × β) → OrderedMap α β) := rfl

theorem prod [Wire α] [Wire β] [Wire σ] [Wire τ] {f : σ → α} {g : τ → β} (hf : ReadsAs f)
    (hg : ReadsAs g) : ReadsAs (Prod.map f g) := by
  show (do let a ← read; let b ← read; return (a, b) : Reader (α × β)) =
    do return Prod.map f g (← (do let s ← read; let t ← read; return (s, t) : Reader (σ × τ)))
  rw [hf, hg]
  simp only [bind_assoc, pure_bind, Prod.map]

theorem readMany_map {r : Reader σ} (f : σ → α) (n : Nat) :
    readMany (do return f (← r)) n = do return (← readMany r n).map f := by
  induction n with
  | zero => rfl
  | succ n ih => simp only [readMany, ih, bind_assoc, pure_bind, List.map_cons]

theorem list [Wire α] [Wire σ] {f : σ → α} (hf : ReadsAs f) : ReadsAs (List.map f) := by
  show readListWith (read : Reader α) = do return List.map f (← readListWith read)
  rw [hf, readListWith, readListWith]
  simp only [readMany_map, bind_assoc]

/-- A record is read as its fields are. -/
theorem ofFields [Wire β] [Wire σ] {fields : α → β} {make : β → α} {f : σ → β} (hf : ReadsAs f) :
    letI := Wire.ofFields fields make
    ReadsAs (make ∘ f) := by
  show (do return make (← read) : Reader α) = do return make (f (← read))
  rw [hf]
  simp only [bind_assoc, pure_bind]

variable [Wire σ] [Wire α] {make : σ → α}

theorem decode_eq (h : ReadsAs make) (bytes : Bytes) :
    (decode bytes : Except Fault α) = (decode bytes).map make := by
  rw [decode, decode, h, StateT.run_bind]
  cases (read : Reader σ).run bytes <;> rfl

/-- **A payload decodes to a value exactly if it begins with a spelling of it.** -/
theorem decode_eq_ok_iff [Lawful σ] [Canonical σ] (h : ReadsAs make) {bytes : Bytes} {x : α}
    (hsize : bytes.length < UInt64.size) :
    decode bytes = .ok x ↔ ∃ s, encode s <+: bytes ∧ make s = x := by
  have hexact : ∀ s : σ, decode bytes = .ok s ↔ encode s <+: bytes :=
    fun s => exact_of_canonical bytes s (.inl hsize)
  rw [h.decode_eq]
  constructor
  · intro hdecode
    cases hs : (decode bytes : Except Fault σ) with
    | error fault => simp [hs, Except.map] at hdecode
    | ok s =>
      rw [hs] at hdecode
      exact ⟨s, (hexact s).1 hs, Except.ok.inj hdecode⟩
  · rintro ⟨s, hs, rfl⟩
    rw [(hexact s).2 hs]
    rfl

end ReadsAs

/-! ### Shorter forms -/

/-- What is made is written no longer than what it is made of. -/
def Shortens [Wire σ] [Wire α] (make : σ → α) : Prop :=
  ∀ s, (write (make s)).length ≤ (write s).length

theorem length_flatMap_put_le [Ord α] (f : α × β → Bytes) (k : α) (v : β) (l : List (α × β)) :
    ((OrderedMap.put k v l).flatMap f).length ≤ (f (k, v)).length + (l.flatMap f).length := by
  induction l with
  | nil => simp [OrderedMap.put]
  | cons e rest ih =>
    obtain ⟨k', v'⟩ := e
    rw [OrderedMap.put]
    split <;> simp only [List.flatMap_cons, List.length_append] at ih ⊢ <;> omega

section Entries
variable [Ord α] [Std.TransOrd α] [Std.LawfulEqOrd α]

theorem length_flatMap_insertAll_le (f : α × β → Bytes) (m : OrderedMap α β) (l : List (α × β)) :
    ((m.insertAll l).entries.flatMap f).length ≤
      (m.entries.flatMap f).length + (l.flatMap f).length := by
  induction l generalizing m with
  | nil => exact Nat.le_add_right ..
  | cons e l ih =>
    have hput : ((m.insert e.1 e.2).entries.flatMap f).length ≤
        (f e).length + (m.entries.flatMap f).length := length_flatMap_put_le f e.1 e.2 m.entries
    have hrest := ih (m.insert e.1 e.2)
    rw [OrderedMap.insertAll_cons, List.flatMap_cons, List.length_append]
    omega

/-- Making a map drops the entries that later ones replace, and adds none. -/
theorem shortens_ofList [Wire α] [Wire β] :
    Shortens (OrderedMap.ofList : List (α × β) → OrderedMap α β) := by
  intro l
  show (writeLength _ ++ (OrderedMap.ofList l).entries.flatMap write).length ≤
    (writeLength _ ++ l.flatMap write).length
  have hentries := length_flatMap_insertAll_le write (∅ : OrderedMap α β) l
  rw [OrderedMap.entries_empty, List.flatMap_nil, List.length_nil, Nat.zero_add] at hentries
  rw [List.length_append, List.length_append, writeLength, writeLength, Bytes.length_ofNat,
    Bytes.length_ofNat]
  exact Nat.add_le_add_left hentries 8

end Entries

namespace Shortens

protected theorem id [Wire α] : Shortens (id : α → α) := fun _ => Nat.le_refl _

theorem prod [Wire α] [Wire β] [Wire σ] [Wire τ] {f : σ → α} {g : τ → β} (hf : Shortens f)
    (hg : Shortens g) : Shortens (Prod.map f g) := by
  rintro ⟨s, t⟩
  show (write (f s) ++ write (g t)).length ≤ (write s ++ write t).length
  rw [List.length_append, List.length_append]
  exact Nat.add_le_add (hf s) (hg t)

theorem list [Wire α] [Wire σ] {f : σ → α} (hf : Shortens f) : Shortens (List.map f) := by
  intro l
  have hmembers : ((l.map f).flatMap write).length ≤ (l.flatMap write).length := by
    induction l with
    | nil => exact Nat.le_refl _
    | cons s l ih =>
      rw [List.map_cons, List.flatMap_cons, List.flatMap_cons, List.length_append,
        List.length_append]
      exact Nat.add_le_add (hf s) ih
  show (writeLength _ ++ _).length ≤ (writeLength _ ++ _).length
  rw [List.length_append, List.length_append, writeLength, writeLength, Bytes.length_ofNat,
    Bytes.length_ofNat]
  exact Nat.add_le_add_left hmembers 8

end Shortens

/-- **What was read is written no longer, and is read again.** -/
theorem normal_of_decode [Wire σ] [Wire α] [Lawful σ] [Canonical σ] [Lawful α] {make : σ → α}
    (hreads : ReadsAs make) (hshort : Shortens make) {bytes : Bytes} {x : α}
    (hsize : bytes.length < UInt64.size) (h : decode bytes = .ok x) :
    (encode x).length ≤ bytes.length ∧ decode (encode x) = .ok x := by
  obtain ⟨s, hprefix, rfl⟩ := (hreads.decode_eq_ok_iff hsize).1 h
  have hlength : (encode (make s)).length ≤ bytes.length :=
    Nat.le_trans (hshort s) hprefix.length_le
  exact ⟨hlength, decode_encode (by omega)⟩

end ReadsAs
end Wire

/-! ### Rows and updates -/

/-- A row from its key and its cells in any order. -/
def Row.ofEntries (p : RowId × List (String × Value)) : Row := ⟨p.1, .ofList p.2⟩

/-- The argument of an update from its filter and the cells of its patch in any order. -/
def UpdatePayload.ofEntries (p : Blob × List (String × Value)) : UpdatePayload :=
  ⟨p.1.bytes, .ofList p.2⟩

namespace Wire

theorem readsAs_row : ReadsAs Row.ofEntries :=
  ReadsAs.ofFields (ReadsAs.prod .id .ofList)

theorem readsAs_update : ReadsAs UpdatePayload.ofEntries :=
  ReadsAs.ofFields (ReadsAs.prod .id .ofList)

theorem shortens_row : Shortens Row.ofEntries := fun p => Shortens.prod .id shortens_ofList p

theorem shortens_update : Shortens UpdatePayload.ofEntries :=
  fun p => Shortens.prod .id shortens_ofList p

/-! ### The format -/

/-- A value is read back from its encoding, whatever follows. -/
def RoundTrips (α : Type) [Wire α] : Prop :=
  ∀ (x : α) (rest : Bytes), (encode x).length < UInt64.size → decode (encode x ++ rest) = .ok x

/-- An encoding without its end is refused: inside the text of a string without words, anywhere else
as the end of the input. -/
def RefusesCut (α : Type) [Wire α] [Parted α] : Prop :=
  ∀ (x : α) (n : Nat), (encode x).length < UInt64.size → n < (encode x).length →
    let refused := (decode ((encode x).take n) : Except Fault α).mapError Fault.failure
    (EndsInText (parts x) n → refused = .error ⟨.decode, "payload: io error: "⟩) ∧
      (¬ EndsInText (parts x) n →
        refused = .error ⟨.decode, "payload: io error: unexpected end of file"⟩)

/-- What is read is written no longer than it was, and is read again. -/
def Normalises (α : Type) [Wire α] : Prop :=
  ∀ (bytes : Bytes) (x : α), bytes.length < UInt64.size → decode bytes = .ok x →
    (encode x).length ≤ bytes.length ∧ decode (encode x) = .ok x

/-- A payload decodes to a value exactly if it begins with the encoding of what the value can be
made of. -/
def SpelledBy {σ α : Type} [Wire σ] [Wire α] (make : σ → α) : Prop :=
  ∀ (bytes : Bytes) (x : α), bytes.length < UInt64.size →
    (decode bytes = .ok x ↔ ∃ s, encode s <+: bytes ∧ make s = x)

theorem refusesCut (α : Type) [Wire α] [Parted α] : RefusesCut α := by
  intro x n hsize hn
  rw [decode_take hsize hn]
  refine ⟨fun htext => ?_, fun htext => ?_⟩
  · rw [faultAt_of_endsInText htext]
    rfl
  · rw [faultAt_of_not_endsInText htext]
    rfl

/-- **The format of what holds maps.** A row, a list of rows and the argument of an update are read
back whatever follows them. Of these and of everything else that travels, an encoding without its
end is refused; the failure names the end of the input unless the bytes end inside the text of a
string. What is read of a row, of rows or of an update is written no longer than it was and is read
again. It may have been spelled with its cells in any order and repeated: then the last one of a
column counts. -/
theorem format_maps :
    (RoundTrips Row ∧ RoundTrips (List Row) ∧ RoundTrips UpdatePayload) ∧
    (RefusesCut Row ∧ RefusesCut (List Row) ∧ RefusesCut UpdatePayload ∧ RefusesCut Value ∧
      RefusesCut RowId ∧ RefusesCut (List RowId) ∧ RefusesCut Expr ∧ RefusesCut Filter ∧
      RefusesCut (List Column) ∧ RefusesCut Request ∧ RefusesCut Response ∧ RefusesCut Failure ∧
      RefusesCut (List (Except Failure RowId)) ∧ RefusesCut Report) ∧
    (Normalises Row ∧ Normalises (List Row) ∧ Normalises UpdatePayload) ∧
    (SpelledBy Row.ofEntries ∧ SpelledBy (List.map Row.ofEntries) ∧
      SpelledBy UpdatePayload.ofEntries) ∧
    ∀ (entries : List (String × Value)) (column : String),
      (OrderedMap.ofList entries : Cells).get? column =
        (entries.reverse.find? (·.1 = column)).map (·.2) := by
  refine ⟨⟨?_, ?_, ?_⟩, ⟨refusesCut _, refusesCut _, refusesCut _, refusesCut _, refusesCut _,
    refusesCut _, refusesCut _, refusesCut _, refusesCut _, refusesCut _, refusesCut _,
    refusesCut _, refusesCut _, refusesCut _⟩, ⟨?_, ?_, ?_⟩, ⟨?_, ?_, ?_⟩, OrderedMap.get?_ofList⟩
  · exact fun x rest h => decode_encode_append h rest
  · exact fun x rest h => decode_encode_append h rest
  · exact fun x rest h => decode_encode_append h rest
  · exact fun bytes x hsize h => normal_of_decode readsAs_row shortens_row hsize h
  · exact fun bytes x hsize h => normal_of_decode readsAs_row.list shortens_row.list hsize h
  · exact fun bytes x hsize h => normal_of_decode readsAs_update shortens_update hsize h
  · exact fun bytes x hsize => readsAs_row.decode_eq_ok_iff hsize
  · exact fun bytes x hsize => readsAs_row.list.decode_eq_ok_iff hsize
  · exact fun bytes x hsize => readsAs_update.decode_eq_ok_iff hsize

/-- An order, with its columns out of order and its status twice, and a byte behind it. -/
def spelledOrder : Bytes :=
  encode ((.single (.int 1), [("status", .str "open"), ("id", .int 1), ("status", .str "shut")]) :
    RowId × List (String × Value)) ++ [0xff]

/-- The later status counts, and the order is written in fewer bytes. -/
theorem decode_spelledOrder :
    let order : Row := ⟨.single (.int 1), .ofList [("id", .int 1), ("status", .str "shut")]⟩
    spelledOrder.length < UInt64.size ∧ decode spelledOrder = .ok order ∧
      (encode order).length ≤ spelledOrder.length ∧ decode (encode order) = .ok order := by
  intro order
  obtain ⟨-, -, ⟨hnormal, -⟩, ⟨hspelled, -⟩, -⟩ := format_maps
  have hsize : spelledOrder.length < UInt64.size := by decide +kernel
  have hdecode : decode spelledOrder = .ok order := by
    refine (hspelled spelledOrder order hsize).2 ⟨_, List.prefix_append _ [0xff], ?_⟩
    decide +kernel
  exact ⟨hsize, hdecode, hnormal spelledOrder order hsize hdecode⟩

/-- An order of one cell, cut behind the first letter of `id`: the refusal does not name the end of
the input. -/
theorem cut_in_text_goes_without_words :
    let order : Row := ⟨.single (.int 1), .ofList [("id", .int 1)]⟩
    let refused := (decode ((encode order).take 37) : Except Fault Row).mapError Fault.failure
    37 < (encode order).length ∧ refused = .error ⟨.decode, "payload: io error: "⟩ ∧
      refused ≠ .error ⟨.decode, "payload: io error: unexpected end of file"⟩ := by
  intro order refused
  have hn : 37 < (encode order).length := by decide +kernel
  have hfault : faultAt (parts order) 37 = .shortText := by decide +kernel
  have hrefused : refused = .error ⟨.decode, "payload: io error: "⟩ := by
    show (decode ((encode order).take 37) : Except Fault Row).mapError Fault.failure = _
    rw [decode_take (by decide +kernel) hn, hfault]
    rfl
  refine ⟨hn, hrefused, ?_⟩
  rw [hrefused, Ne, Except.error.injEq]
  decide

end Wire
end KeyedRows
