/-
# Which filters are still at hand

A full cache gives up the filter that has not been used for longest. So which
filters it has can be told from the history alone: of the filters encoded since
the entries were last forgotten, those used last, as many as there is room for.
A filter is among them if it was encoded and fewer different filters than there
is room for came after it (`AtHand`); how often each of them came, and what was
a hit, plays no part.

The invariant is that the entries are the distinct filters of the history, the
latest first, cut off at the capacity (`Recalls.keys`). A hit takes a filter out
of its place and a miss pushes one out at the end, and both come to putting it
in front of what is left of the history without it (`filter_take`,
`take_filter`): a filter that was pushed out before is not missed again by the
others.

Main statement: `encode_recency`.
-/

import KeyedRows.Proofs.Filter.Distinct

namespace KeyedRows
namespace FilterCache

/-! ### Lists in which the latest comes first -/

section Lists
variable {α : Type} [DecidableEq α]

/-- A member is among the first `n` different ones if fewer than `n` come before it. -/
theorem mem_take_eraseDups {xs : List α} {x : α} {n : Nat} :
    x ∈ xs.eraseDups.take n ↔ x ∈ xs ∧ (xs.takeWhile (· ≠ x)).toFinset.card < n := by
  by_cases hx : x ∈ xs
  · obtain ⟨before, behind, rfl, hbefore⟩ := List.eq_append_cons_of_mem hx
    have hfront : (before ++ x :: behind).takeWhile (· ≠ x) = before := by
      have hother : ∀ y ∈ before, decide (y ≠ x) = true := by
        rintro y hy
        exact decide_eq_true (ne_of_mem_of_not_mem hy hbefore)
      rw [List.takeWhile_append_of_pos hother, List.takeWhile_cons_of_neg (by simp),
        List.append_nil]
    have hplace : (before ++ x :: behind).eraseDups.idxOf x = before.eraseDups.length := by
      have hkept : (x :: behind).removeAll before = x :: behind.removeAll before :=
        List.filter_cons_of_pos (by simpa using hbefore)
      rw [List.eraseDups_append, hkept, List.eraseDups_cons,
        List.idxOf_append_of_notMem (mt List.mem_eraseDups.1 hbefore), List.idxOf_cons_self,
        Nat.add_zero]
    rw [List.mem_take_iff_idxOf_lt (List.mem_eraseDups.2 hx), hplace, hfront, length_eraseDups,
      and_iff_right hx]
  · constructor
    · intro h
      exact absurd (List.mem_eraseDups.1 (List.mem_of_mem_take h)) hx
    · rintro ⟨h, -⟩
      exact absurd h hx

/-- What is left of the first `n + 1` without one of them are the first `n` of the others. -/
theorem filter_take {xs : List α} {x : α} {n : Nat} (hxs : xs.Nodup) (hx : x ∈ xs.take (n + 1)) :
    (xs.take (n + 1)).filter (· ≠ x) = (xs.filter (· ≠ x)).take n := by
  induction xs generalizing n with
  | nil => simp at hx
  | cons y ys ih =>
    obtain ⟨hy, hys⟩ := List.nodup_cons.1 hxs
    rw [List.take_succ_cons] at hx ⊢
    by_cases hyx : y = x
    · subst hyx
      have hrest : ∀ z ∈ ys, decide (z ≠ y) = true := by
        rintro z hz
        exact decide_eq_true (ne_of_mem_of_not_mem hz hy)
      rw [List.filter_cons_of_neg (by simp), List.filter_cons_of_neg (by simp),
        List.filter_eq_self.2 hrest, List.filter_eq_self.2 fun z hz => hrest z (List.mem_of_mem_take hz)]
    · have hlater : x ∈ ys.take n := by
        rcases List.mem_cons.1 hx with h | h
        · exact absurd h.symm hyx
        · exact h
      obtain ⟨m, rfl⟩ : ∃ m, n = m + 1 := by
        cases n with
        | zero => simp at hlater
        | succ m => exact ⟨m, rfl⟩
      rw [List.filter_cons_of_pos (by simpa using hyx), List.filter_cons_of_pos (by simpa using hyx),
        List.take_succ_cons, ih hys hlater]

/-- What is not among the first `n` can be taken out without a trace there. -/
theorem take_filter {xs : List α} {x : α} {n : Nat} (hx : x ∉ xs.take n) :
    (xs.filter (· ≠ x)).take n = xs.take n := by
  induction xs generalizing n with
  | nil => rfl
  | cons y ys ih =>
    cases n with
    | zero => simp
    | succ n =>
      rw [List.take_succ_cons, List.mem_cons, not_or] at hx
      rw [List.filter_cons_of_pos (by simpa using Ne.symm hx.1), List.take_succ_cons,
        List.take_succ_cons, ih hx.2]

end Lists

/-! ### Histories -/

/-- The filters encoded since the entries were last forgotten, the latest first. -/
def recent (uses : List Use) : List Filter :=
  (uses.reverse.takeWhile (· ≠ .clear)).filterMap Use.filter?

@[simp] theorem recent_nil : recent [] = [] := rfl

@[simp] theorem recent_encode (uses : List Use) (f : Filter) :
    recent (uses ++ [.encode f]) = f :: recent uses := by
  simp [recent, Use.filter?]

@[simp] theorem recent_clear (uses : List Use) : recent (uses ++ [.clear]) = [] := by
  simp [recent]

/-- The filter has been encoded since then, and fewer than `room` different ones after it. -/
def AtHand (room : Nat) (uses : List Use) (f : Filter) : Prop :=
  f ∈ recent uses ∧ ((recent uses).takeWhile (· ≠ f)).toFinset.card < room

instance (room : Nat) (uses : List Use) (f : Filter) : Decidable (AtHand room uses f) :=
  inferInstanceAs (Decidable (_ ∧ _))

theorem atHand_iff {room : Nat} {uses : List Use} {f : Filter} :
    AtHand room uses f ↔ f ∈ (recent uses).eraseDups.take room :=
  mem_take_eraseDups.symm

/-- Each encoding among the uses, with the uses that came before it. -/
def encodings (past : List Use) : List Use → List (List Use × Filter)
  | [] => []
  | .encode f :: uses => (past, f) :: encodings (past ++ [.encode f]) uses
  | .clear :: uses => encodings (past ++ [.clear]) uses

theorem encodings_append (past uses more : List Use) :
    encodings past (uses ++ more) = encodings past uses ++ encodings (past ++ uses) more := by
  induction uses generalizing past with
  | nil => simp [encodings]
  | cons u uses ih => cases u <;> simp [encodings, ih]

@[simp] theorem encodings_encode (uses : List Use) (f : Filter) :
    encodings [] (uses ++ [.encode f]) = encodings [] uses ++ [(uses, f)] := by
  rw [encodings_append]
  rfl

@[simp] theorem encodings_clear (uses : List Use) :
    encodings [] (uses ++ [.clear]) = encodings [] uses := by
  rw [encodings_append]
  exact List.append_nil _

/-- What came before the last encoding of the filter at which it was not at hand. -/
def lastMiss? (room : Nat) (uses : List Use) (f : Filter) : Option (List Use) :=
  ((encodings [] uses).reverse.find? fun e => e.2 = f ∧ ¬ AtHand room e.1 f).map (·.1)

@[simp] theorem lastMiss?_clear (room : Nat) (uses : List Use) (f : Filter) :
    lastMiss? room (uses ++ [.clear]) f = lastMiss? room uses f := by
  rw [lastMiss?, encodings_clear, lastMiss?]

theorem lastMiss?_encode (room : Nat) (uses : List Use) (f g : Filter) :
    lastMiss? room (uses ++ [.encode g]) f =
      if g = f ∧ ¬ AtHand room uses f then some uses else lastMiss? room uses f := by
  rw [lastMiss?, encodings_encode, List.reverse_append, List.reverse_singleton,
    List.singleton_append, List.find?_cons]
  by_cases h : g = f ∧ ¬ AtHand room uses f
  · simp [h]
  · rw [if_neg h, decide_eq_false h]
    rfl

/-! ### Caches after a history -/

/-- A new cache after uses. -/
def after (capacity : Nat) (uses : List Use) : FilterCache := ((create capacity).run uses).2

theorem run_append (c : FilterCache) (uses more : List Use) :
    (c.run (uses ++ more)).2 = ((c.run uses).2.run more).2 := by
  induction uses generalizing c with
  | nil => rfl
  | cons u uses ih => cases u <;> exact ih _

theorem after_encode (capacity : Nat) (uses : List Use) (f : Filter) :
    after capacity (uses ++ [.encode f]) = ((after capacity uses).encode f).2 :=
  run_append ..

theorem after_clear (capacity : Nat) (uses : List Use) :
    after capacity (uses ++ [.clear]) = (after capacity uses).clear :=
  run_append ..

/-- What a cache with the given room has kept of a history. Buffers are those that `made` says were
made at an encoding. -/
structure Recalls (room : Nat) (made : List Use → Filter → Buffer) (uses : List Use)
    (c : FilterCache) : Prop where
  positive : 0 < room
  capacity : c.capacity = room
  /-- The entries are for the filters used last, the latest first. -/
  keys : c.entries.map (·.1) = (recent uses).eraseDups.take room
  /-- An entry has the buffer made when its filter was last not at hand. -/
  buffers : ∀ e ∈ c.entries, ∃ past, lastMiss? room uses e.1 = some past ∧ e.2 = made past e.1
  hits : c.hits = (encodings [] uses).countP fun e => AtHand room e.1 e.2
  misses : c.misses = (encodings [] uses).countP fun e => ¬ AtHand room e.1 e.2

namespace Recalls
variable {room : Nat} {made : List Use → Filter → Buffer} {uses : List Use} {c : FilterCache}

theorem create (capacity : Nat) (made : List Use → Filter → Buffer) :
    Recalls (max capacity 1) made [] (create capacity) := by
  constructor <;> simp [FilterCache.create, encodings]

/-- There is an entry for a filter if it is at hand. -/
theorem exists_entry_iff (h : Recalls room made uses c) (f : Filter) :
    (∃ buffer, (f, buffer) ∈ c.entries) ↔ AtHand room uses f := by
  rw [atHand_iff, ← h.keys, List.mem_map]
  constructor
  · rintro ⟨buffer, hmem⟩
    exact ⟨_, hmem, rfl⟩
  · rintro ⟨⟨g, buffer⟩, hmem, rfl⟩
    exact ⟨buffer, hmem⟩

/-- A filter that is encoded again moves to the front. -/
theorem hit (h : Recalls room made uses c) {f : Filter} {buffer : Buffer}
    (hmem : (f, buffer) ∈ c.entries) :
    Recalls room made (uses ++ [.encode f]) { c with
      entries := (f, buffer) :: c.entries.filter (fun e => e.1 ≠ f)
      hits := c.hits + 1 } := by
  have hhand : AtHand room uses f := (h.exists_entry_iff f).1 ⟨buffer, hmem⟩
  constructor
  case positive => exact h.positive
  case capacity => exact h.capacity
  case keys =>
    obtain ⟨n, rfl⟩ : ∃ n, room = n + 1 := ⟨room - 1, by have := h.positive; omega⟩
    have hothers : (c.entries.filter fun e => e.1 ≠ f).map (·.1) =
        (c.entries.map (·.1)).filter (· ≠ f) := by
      rw [List.filter_map]
      rfl
    rw [recent_encode, eraseDups_cons, List.take_succ_cons, List.map_cons, hothers, h.keys,
      filter_take (nodup_eraseDups _) (atHand_iff.1 hhand)]
  case buffers =>
    rintro e he
    have hold : e ∈ c.entries := by
      rcases List.mem_cons.1 he with rfl | he
      · exact hmem
      · exact (List.mem_filter.1 he).1
    obtain ⟨past, hpast, hbuffer⟩ := h.buffers e hold
    refine ⟨past, ?_, hbuffer⟩
    rw [lastMiss?_encode, if_neg, hpast]
    rintro ⟨rfl, hmiss⟩
    exact hmiss hhand
  case hits => simp [h.hits, hhand]
  case misses => simp [h.misses, hhand]

/-- A filter that was not at hand comes in at the front, and the entries are cut off behind it. -/
theorem miss (h : Recalls room made uses c) {f : Filter} (hnone : ∀ e ∈ c.entries, e.1 ≠ f)
    (hmade : made uses f = ⟨Wire.encode f, c.misses⟩) :
    Recalls room made (uses ++ [.encode f]) { c with
      entries := ((f, ⟨Wire.encode f, c.misses⟩) :: c.entries).take c.capacity
      misses := c.misses + 1 } := by
  have hmiss : ¬ AtHand room uses f := by
    rw [← h.exists_entry_iff f]
    rintro ⟨buffer, hmem⟩
    exact hnone _ hmem rfl
  constructor
  case positive => exact h.positive
  case capacity => exact h.capacity
  case keys =>
    obtain ⟨n, rfl⟩ : ∃ n, room = n + 1 := ⟨room - 1, by have := h.positive; omega⟩
    have hout : f ∉ (recent uses).eraseDups.take n := fun hin =>
      hmiss (atHand_iff.2 (List.take_subset_take_left _ (Nat.le_succ n) hin))
    rw [recent_encode, eraseDups_cons, List.take_succ_cons, h.capacity, List.map_take, List.map_cons,
      h.keys, List.take_succ_cons, List.take_take, take_filter hout]
    congr 2
    omega
  case buffers =>
    rintro e he
    rcases List.mem_cons.1 (List.mem_of_mem_take he) with rfl | hold
    · exact ⟨uses, by rw [lastMiss?_encode, if_pos ⟨rfl, hmiss⟩], hmade.symm⟩
    · obtain ⟨past, hpast, hbuffer⟩ := h.buffers e hold
      refine ⟨past, ?_, hbuffer⟩
      rw [lastMiss?_encode, if_neg fun hf => hnone e hold hf.1.symm, hpast]
  case hits => simp [h.hits, hmiss]
  case misses => simp [h.misses, hmiss]

theorem encode (h : Recalls room made uses c) {f : Filter} (hmade : made uses f = (c.encode f).1) :
    Recalls room made (uses ++ [.encode f]) (c.encode f).2 := by
  rcases c.encode_cases f with ⟨buffer, hmem, heq⟩ | ⟨hnone, heq⟩
  · rw [heq]
    exact h.hit hmem
  · rw [heq] at hmade ⊢
    exact h.miss hnone hmade

theorem clear (h : Recalls room made uses c) : Recalls room made (uses ++ [.clear]) c.clear where
  positive := h.positive
  capacity := h.capacity
  keys := by simp [FilterCache.clear]
  buffers := fun _ he => absurd he List.not_mem_nil
  hits := by simpa [FilterCache.clear] using h.hits
  misses := by simpa [FilterCache.clear] using h.misses

end Recalls

/-- The buffer handed out for a filter after uses. -/
def handedOut (capacity : Nat) (uses : List Use) (f : Filter) : Buffer :=
  ((after capacity uses).encode f).1

/-- **A cache recalls its whole history.** -/
theorem recalls_after (capacity : Nat) (uses : List Use) :
    Recalls (max capacity 1) (handedOut capacity) uses (after capacity uses) := by
  induction uses using List.reverseRecOn with
  | nil => exact .create capacity _
  | append_singleton uses u ih =>
    cases u with
    | encode f =>
      rw [after_encode]
      exact ih.encode rfl
    | clear =>
      rw [after_clear]
      exact ih.clear

/-- **Which encodings are hits, and what a hit hands out.** After any uses a cache has the distinct
filters encoded since the entries were last forgotten, those used last and as many as there is room
for. Encoding a filter is a hit if it was encoded since then and fewer different filters than there
is room for came after it, and a miss otherwise. It counts as such, next to all the encodings before
that were hits and misses in this sense, on either side of a `clear`, which leaves the counts alone.

A hit hands out the very buffer made when the filter was last missed, and a miss a new one: as its
number it has the number of misses before it. -/
theorem encode_recency (capacity : Nat) (uses : List Use) :
    let room := max capacity 1
    let c := after capacity uses
    c.capacity = room ∧
    c.entries.map (·.1) = (recent uses).eraseDups.take room ∧
    c.size = min room (recent uses).toFinset.card ∧
    (c.hits = (encodings [] uses).countP (fun e => AtHand room e.1 e.2) ∧
      c.misses = (encodings [] uses).countP fun e => ¬ AtHand room e.1 e.2) ∧
    (c.clear.hits = c.hits ∧ c.clear.misses = c.misses) ∧
    ∀ f,
      (AtHand room uses f →
        (c.encode f).2.hits = c.hits + 1 ∧ (c.encode f).2.misses = c.misses ∧
          ∃ past, lastMiss? room uses f = some past ∧ (c.encode f).1 = handedOut capacity past f) ∧
      (¬ AtHand room uses f →
        (c.encode f).2.hits = c.hits ∧ (c.encode f).2.misses = c.misses + 1 ∧
          (c.encode f).1 = ⟨Wire.encode f, c.misses⟩) := by
  intro room c
  have h : Recalls room (handedOut capacity) uses c := recalls_after capacity uses
  have hsize : c.size = min room (recent uses).toFinset.card := by
    rw [← length_eraseDups, ← List.length_take, ← h.keys, List.length_map, size]
  refine ⟨h.capacity, h.keys, hsize, ⟨h.hits, h.misses⟩, ⟨rfl, rfl⟩, fun f => ?_⟩
  rw [← h.exists_entry_iff f]
  rcases c.encode_cases f with ⟨buffer, hmem, heq⟩ | ⟨hnone, heq⟩
  · refine ⟨fun _ => ?_, fun hmiss => absurd ⟨buffer, hmem⟩ hmiss⟩
    obtain ⟨past, hpast, hbuffer⟩ := h.buffers _ hmem
    rw [heq]
    exact ⟨rfl, rfl, past, hpast, hbuffer⟩
  · refine ⟨?_, fun _ => by rw [heq]; exact ⟨rfl, rfl, rfl⟩⟩
    rintro ⟨buffer, hmem⟩
    exact absurd rfl (hnone _ hmem)

/-- With room for two, a third filter pushes out the one that was not used again: `all` is handed
out as it was made the first time, and `nothing` has to be made anew. -/
theorem encode_twoOfThree :
    let uses : List Use := [.encode .all, .encode .nothing, .encode .all, .encode (.ofConditions [])]
    AtHand 2 uses .all ∧ ¬ AtHand 2 uses .nothing ∧ lastMiss? 2 uses .all = some [] ∧
      ((after 2 uses).encode .all).1 = handedOut 2 [] .all ∧
      ((after 2 uses).encode .nothing).1 = ⟨Wire.encode Filter.nothing, (after 2 uses).misses⟩ ∧
      (after 2 uses).misses = 3 ∧ (after 2 uses).size = 2 := by
  intro uses
  have hhand : AtHand 2 uses .all := by decide
  have hmiss : ¬ AtHand 2 uses .nothing := by decide
  have hlast : lastMiss? 2 uses .all = some [] := by decide
  obtain ⟨-, -, hsize, ⟨-, hmisses⟩, -, hencode⟩ := encode_recency 2 uses
  obtain ⟨-, -, past, hpast, hbuffer⟩ := (hencode .all).1 hhand
  obtain ⟨-, -, hnew⟩ := (hencode .nothing).2 hmiss
  obtain rfl : [] = past := Option.some.inj (hlast.symm.trans hpast)
  have hthree : ((encodings [] uses).countP fun e => ¬ AtHand 2 e.1 e.2) = 3 := by decide
  have htwo : min 2 (recent uses).toFinset.card = 2 := by decide
  exact ⟨hhand, hmiss, hlast, hbuffer, hnew, hmisses.trans hthree, hsize.trans htwo⟩

end FilterCache
end KeyedRows
