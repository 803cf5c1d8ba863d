/-
# Names that are given, taken away and given again

A directory leads from names to objects. Somebody who uses it takes notes: a
name was given to an object (or led to it already), a name led to an object, a
name was taken away from an object. What the directory holds at any time can be
read off the notes alone, as long as a free name is only ever given to a new
object: a name leads to an object exactly if it was given to that object and has
not been taken away since (`Tracks.find_iff`).

Both names of databases and names of tables in a database are directories of
this kind. What one note says of the directory before and after it is `Noted`,
what the directory and all notes have in common is `Tracks`, and each note keeps
it (`Tracks.noted`). So does a step that leaves no note (`Tracks.follows`).

Main statements: `Tracks.find_iff`, `Tracks.same` (two notes on one name are
about one object exactly if the name was not taken away between them) and
`Tracks.gone` (what a name was taken away from is never found again).
-/

namespace KeyedRows

/-- What was done with a name. -/
inductive Deed where
  /-- It was given to an object, or led to it already. -/
  | made
  /-- It was looked up. -/
  | seen
  /-- It was taken away. -/
  | dropped
deriving DecidableEq, Repr

/-- What was done with a name, and the object that it led to. -/
structure Note (κ ρ : Type) where
  deed : Deed
  name : κ
  object : ρ
deriving DecidableEq, Repr

/-- Where names lead, and the objects there have been. -/
structure Directory (κ ρ : Type) where
  find : κ → Option ρ
  known : ρ → Prop

section
variable {κ ρ : Type}

/-- The object that the name leads to afterwards. -/
def Note.left (n : Note κ ρ) : Option ρ := if n.deed = .dropped then none else some n.object

theorem Note.left_eq_some_iff {n : Note κ ρ} {r : ρ} :
    n.left = some r ↔ n.deed ≠ .dropped ∧ n.object = r := by
  simp [left]

/-- None of the notes takes the name away. -/
def Undropped (k : κ) (notes : List (Note κ ρ)) : Prop :=
  ∀ n ∈ notes, n.name = k → n.deed ≠ .dropped

theorem undropped_nil (k : κ) : Undropped k ([] : List (Note κ ρ)) :=
  fun _ h => absurd h List.not_mem_nil

theorem undropped_concat_iff {k : κ} {notes : List (Note κ ρ)} {n : Note κ ρ} :
    Undropped k (notes ++ [n]) ↔ Undropped k notes ∧ (n.name = k → n.deed ≠ .dropped) := by
  simp [Undropped, or_imp, forall_and]

/-- The object was given the name, and the name has not been taken away since. -/
def Alive (notes : List (Note κ ρ)) (k : κ) (r : ρ) : Prop :=
  ∃ before since, notes = before ++ ⟨.made, k, r⟩ :: since ∧ Undropped k since

namespace Alive
variable {notes : List (Note κ ρ)} {k : κ} {r : ρ}

theorem mem (h : Alive notes k r) : ⟨.made, k, r⟩ ∈ notes := by
  obtain ⟨before, since, rfl, -⟩ := h
  exact List.mem_append_right _ List.mem_cons_self

theorem concat (h : Alive notes k r) {n : Note κ ρ} (hn : n.name = k → n.deed ≠ .dropped) :
    Alive (notes ++ [n]) k r := by
  obtain ⟨before, since, rfl, hsince⟩ := h
  exact ⟨before, since ++ [n], by simp, undropped_concat_iff.2 ⟨hsince, hn⟩⟩

end Alive

/-- Two notes on one name are about one object exactly if the name was not taken away between
them. -/
def OneObject (notes : List (Note κ ρ)) : Prop :=
  ∀ xs n ys m zs, notes = xs ++ n :: (ys ++ m :: zs) → n.deed ≠ .dropped → m.deed ≠ .dropped →
    m.name = n.name → (m.object = n.object ↔ Undropped n.name ys)

/-- An element comes last, or it was there before the last one. -/
theorem concat_eq_append_cons {α : Type} {l xs ys : List α} {a b : α}
    (h : l ++ [a] = xs ++ b :: ys) :
    (ys = [] ∧ l = xs ∧ a = b) ∨ ∃ zs, ys = zs ++ [a] ∧ l = xs ++ b :: zs := by
  rcases List.eq_nil_or_concat ys with rfl | ⟨zs, z, rfl⟩
  · obtain ⟨hl, ha⟩ := List.append_inj' h rfl
    exact .inl ⟨rfl, hl, List.singleton_inj.1 ha⟩
  · rw [List.concat_eq_append, ← List.cons_append, ← List.append_assoc] at h
    obtain ⟨hl, ha⟩ := List.append_inj' h rfl
    exact .inr ⟨zs, by rw [List.concat_eq_append, List.singleton_inj.1 ha], hl⟩

end

/-- The note is true: what it is about was found before or is new, and the name leads where the note
leaves it, while all else is as before. -/
structure Noted {κ ρ : Type} [DecidableEq κ] (d : Directory κ ρ) (n : Note κ ρ)
    (d' : Directory κ ρ) : Prop where
  before : d.find n.name = some n.object ∨
    n.deed = .made ∧ d.find n.name = none ∧ ¬ d.known n.object ∧ d'.known n.object
  after : ∀ k, d'.find k = if k = n.name then n.left else d.find k
  grows : ∀ r, d.known r → d'.known r

/-- What a step does to a directory: it leaves a true note, or none and names lead where they did. -/
def Follows {κ ρ : Type} [DecidableEq κ] (d : Directory κ ρ) (n? : Option (Note κ ρ))
    (d' : Directory κ ρ) : Prop :=
  match n? with
  | none => (∀ k, d'.find k = d.find k) ∧ ∀ r, d.known r → d'.known r
  | some n => Noted d n d'

namespace Follows
variable {κ ρ : Type} [DecidableEq κ] {d d' : Directory κ ρ} {k : κ} {r : ρ}

theorem refl (d : Directory κ ρ) : Follows d none d := ⟨fun _ => rfl, fun _ h => h⟩

/-- The name leads somewhere already. -/
theorem met {deed : Deed} (hdeed : deed ≠ .dropped) (h : d.find k = some r) :
    Follows d (some ⟨deed, k, r⟩) d := by
  refine ⟨.inl h, fun k' => ?_, fun _ h => h⟩
  by_cases hk : k' = k
  · subst hk
    rw [if_pos rfl, h, Note.left, if_neg hdeed]
  · rw [if_neg hk]

theorem look (d : Directory κ ρ) (k : κ) : Follows d ((d.find k).map fun r => ⟨.seen, k, r⟩) d := by
  cases h : d.find k with
  | none => exact refl d
  | some r => exact met (by decide) h

/-- A name that leads nowhere is given to a new object. -/
theorem give (hfree : d.find k = none) (hnew : ¬ d.known r) (hknown : d'.known r)
    (hfind : ∀ k', d'.find k' = if k' = k then some r else d.find k')
    (hgrows : ∀ s, d.known s → d'.known s) : Follows d (some ⟨.made, k, r⟩) d' :=
  ⟨.inr ⟨rfl, hfree, hnew, hknown⟩, hfind, hgrows⟩

/-- A name is taken away, if it leads somewhere. -/
theorem drop (hfind : ∀ k', d'.find k' = if k' = k then none else d.find k')
    (hgrows : ∀ s, d.known s → d'.known s) :
    Follows d ((d.find k).map fun r => ⟨.dropped, k, r⟩) d' := by
  cases h : d.find k with
  | none =>
    refine ⟨fun k' => ?_, hgrows⟩
    rw [hfind]
    by_cases hk : k' = k
    · rw [if_pos hk, hk, h]
    · rw [if_neg hk]
  | some r => exact ⟨.inl h, hfind, hgrows⟩

end Follows

/-- What a directory and the notes on it have in common. -/
structure Tracks {κ ρ : Type} (d : Directory κ ρ) (notes : List (Note κ ρ)) : Prop where
  known_of_note : ∀ n ∈ notes, d.known n.object
  known_of_find : ∀ k r, d.find k = some r → d.known r
  /-- A name leads to an object for as long as it is not taken away. -/
  still : ∀ xs n ys, notes = xs ++ n :: ys → n.deed ≠ .dropped →
    (d.find n.name = some n.object ↔ Undropped n.name ys)
  made : ∀ k r, d.find k = some r → Alive notes k r
  /-- An object has one name. -/
  own : ∀ n ∈ notes, ∀ k, d.find k = some n.object → k = n.name
  /-- What a name was taken away from is not found again. -/
  gone : ∀ n ∈ notes, n.deed = .dropped → ∀ k, d.find k ≠ some n.object
  same : OneObject notes

namespace Tracks

section
variable {κ ρ : Type} {d d' : Directory κ ρ} {notes : List (Note κ ρ)}

theorem empty (hfind : ∀ k, d.find k = none) : Tracks d [] := by
  constructor <;> simp [hfind, OneObject]

/-- Without a note the directory leads where it did. -/
theorem silent (h : Tracks d notes) (hfind : ∀ k, d'.find k = d.find k)
    (hgrows : ∀ r, d.known r → d'.known r) : Tracks d' notes where
  known_of_note n hn := hgrows _ (h.known_of_note n hn)
  known_of_find k r hr := hgrows _ (h.known_of_find k r (hfind k ▸ hr))
  still xs n ys hnotes hdeed := by
    rw [hfind]
    exact h.still xs n ys hnotes hdeed
  made k r hr := h.made k r (hfind k ▸ hr)
  own n hn k hk := h.own n hn k (hfind k ▸ hk)
  gone n hn hdeed k := by
    rw [hfind]
    exact h.gone n hn hdeed k
  same := h.same

/-- What is not known yet was never noted. -/
theorem object_ne (h : Tracks d notes) {r : ρ} (hr : ¬ d.known r) : ∀ n ∈ notes, n.object ≠ r := by
  rintro n hn rfl
  exact hr (h.known_of_note n hn)

/-- **What a name leads to is what it was given to and not taken away from since.** -/
theorem find_iff (h : Tracks d notes) {k : κ} {r : ρ} : d.find k = some r ↔ Alive notes k r := by
  refine ⟨h.made k r, fun halive => ?_⟩
  obtain ⟨before, since, hnotes, hsince⟩ := halive
  exact (h.still before ⟨.made, k, r⟩ since hnotes (by simp)).2 hsince

/-- A name leads nowhere if it was given to nothing or has been taken away since. -/
theorem find_eq_none_iff (h : Tracks d notes) {k : κ} :
    d.find k = none ↔ ¬ ∃ r, Alive notes k r := by
  simp only [← h.find_iff, Option.eq_none_iff_forall_ne_some, not_exists, ne_eq]

end

variable {κ ρ : Type} [DecidableEq κ] {d d' : Directory κ ρ} {notes : List (Note κ ρ)}
  {n : Note κ ρ}

/-- What is found after a note was found before it and kept, or is new. -/
theorem found (hn : Noted d n d') {k : κ} {r : ρ} (hr : d'.find k = some r) :
    (d.find k = some r ∧ (n.name = k → n.deed ≠ .dropped)) ∨
      (¬ d.known r ∧ n = ⟨.made, k, r⟩) := by
  rw [hn.after] at hr
  by_cases hk : k = n.name
  · subst hk
    rw [if_pos rfl] at hr
    obtain ⟨hdeed, rfl⟩ := Note.left_eq_some_iff.1 hr
    rcases hn.before with hfound | ⟨hmade, -, hnew, -⟩
    · exact .inl ⟨hfound, fun _ => hdeed⟩
    · exact .inr ⟨hnew, by rw [← hmade]⟩
  · rw [if_neg hk] at hr
    exact .inl ⟨hr, fun h => absurd h.symm hk⟩

/-- An object that is not new is found after a note if it was before and was not dropped. -/
theorem find_iff_of_known (hn : Noted d n d') {r : ρ} (hr : d.known r) (k : κ) :
    d'.find k = some r ↔ d.find k = some r ∧ (n.name = k → n.deed ≠ .dropped) := by
  refine ⟨fun h => (found hn h).resolve_right fun hnew => hnew.1 hr, fun ⟨hfind, hdeed⟩ => ?_⟩
  rw [hn.after]
  by_cases hk : k = n.name
  · subst hk
    rw [if_pos rfl, Note.left_eq_some_iff]
    rcases hn.before with hfound | ⟨-, hfree, -⟩
    · rw [hfind, Option.some.injEq] at hfound
      exact ⟨hdeed rfl, hfound.symm⟩
    · rw [hfree] at hfind
      contradiction
  · rw [if_neg hk, hfind]

theorem known_object (h : Tracks d notes) (hn : Noted d n d') : d'.known n.object := by
  rcases hn.before with hfound | ⟨-, -, -, hknown⟩
  · exact hn.grows _ (h.known_of_find _ _ hfound)
  · exact hknown

/-- An object still has one name after a note. -/
theorem own_of_noted (h : Tracks d notes) (hn : Noted d n d') :
    ∀ m ∈ notes ++ [n], ∀ k, d'.find k = some m.object → k = m.name := by
  intro m hm k hk
  rcases List.mem_append.1 hm with hm | hm
  · exact h.own m hm k ((find_iff_of_known hn (h.known_of_note m hm) k).1 hk).1
  · obtain rfl := List.mem_singleton.1 hm
    rcases found hn hk with ⟨hfind, -⟩ | ⟨-, hnew⟩
    · rcases hn.before with hfound | ⟨-, -, hnew, -⟩
      · exact h.own _ (h.made _ _ hfound).mem k hfind
      · exact absurd (h.known_of_find _ _ hfind) hnew
    · rw [hnew]

/-- **Every true note keeps what the directory and the notes have in common.** -/
theorem noted (h : Tracks d notes) (hn : Noted d n d') : Tracks d' (notes ++ [n]) := by
  have hown := h.own_of_noted hn
  constructor
  case known_of_note =>
    intro m hm
    rcases List.mem_append.1 hm with hm | hm
    · exact hn.grows _ (h.known_of_note m hm)
    · rw [List.mem_singleton.1 hm]
      exact h.known_object hn
  case known_of_find =>
    intro k r hr
    rcases found hn hr with ⟨hfind, -⟩ | ⟨-, rfl⟩
    · exact hn.grows _ (h.known_of_find k r hfind)
    · exact h.known_object hn
  case still =>
    intro xs m ys hnotes hdeed
    rcases concat_eq_append_cons hnotes with ⟨rfl, -, rfl⟩ | ⟨zs, rfl, hold⟩
    · have hleft : d'.find n.name = some n.object := by
        rw [hn.after, if_pos rfl, Note.left_eq_some_iff]
        exact ⟨hdeed, rfl⟩
      exact iff_of_true hleft (undropped_nil _)
    · have hm : m ∈ notes := hold ▸ List.mem_append_right _ List.mem_cons_self
      rw [undropped_concat_iff, find_iff_of_known hn (h.known_of_note m hm),
        h.still xs m zs hold hdeed]
  case made =>
    intro k r hr
    rcases found hn hr with ⟨hfind, hdeed⟩ | ⟨-, rfl⟩
    · exact (h.made k r hfind).concat hdeed
    · exact ⟨notes, [], rfl, undropped_nil k⟩
  case own => exact hown
  case gone =>
    intro m hm hdeed k hk
    rcases List.mem_append.1 hm with hold | hnew
    · exact h.gone m hold hdeed k ((find_iff_of_known hn (h.known_of_note m hold) k).1 hk).1
    · obtain rfl := hown m hm k hk
      obtain rfl := List.mem_singleton.1 hnew
      rw [hn.after, if_pos rfl, Note.left_eq_some_iff] at hk
      exact hk.1 hdeed
  case same =>
    intro xs m ys o zs hnotes hm ho hname
    rw [← List.cons_append, ← List.append_assoc] at hnotes
    rcases concat_eq_append_cons hnotes with ⟨rfl, hold, rfl⟩ | ⟨ws, rfl, hold⟩
    · rw [← h.still xs m ys hold hm, ← hname]
      have hmem : m ∈ notes := hold ▸ List.mem_append_right _ List.mem_cons_self
      rcases hn.before with hfound | ⟨-, hfree, hnew, -⟩
      · rw [hfound, Option.some.injEq]
      · -- a new object differs from what was noted, and the name led nowhere
        exact iff_of_false (h.object_ne hnew m hmem).symm (by simp [hfree])
    · rw [List.append_assoc, List.cons_append] at hold
      exact h.same xs m ys o ws hold hm ho hname

/-- A step with or without a note. -/
theorem follows (h : Tracks d notes) {n? : Option (Note κ ρ)} (hstep : Follows d n? d') :
    Tracks d' (notes ++ n?.toList) := by
  cases n? with
  | none =>
    rw [Option.toList_none, List.append_nil]
    exact h.silent hstep.1 hstep.2
  | some n => exact h.noted hstep

end Tracks
end KeyedRows
