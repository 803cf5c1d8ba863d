/-
# What a failure says about the catalog

A peer that is sent a failure will think that nothing has happened. For a request
that failed this is so, whatever the failure was, and for one that the task queue
did not take. But a request that succeeded may be answered by a failure too, when
its response is too long for a frame. If it has changed anything it was an
operation on any number of rows (`Service.unchanged_or_fits`); then all of it has
happened, and the failure that is sent names the length of the response that was
not (`LostAnswer`).

Main statement: `serve_failuresTell`.
-/

import KeyedRows.Proofs.Server.Serving
import KeyedRows.Proofs.Service.Brevity

namespace KeyedRows

/-- A request for a bulk operation that was carried out on the catalog. Its response is longer than
the limit, and this is the failure that is sent in its place. -/
structure LostAnswer (limit : Nat) (a : Arrival) (c : Catalog) (f : Failure) : Prop where
  bulk : a.request.operation.isBulk = true
  succeeded : ∃ bytes, (a.service.execute a.now a.request c).1 = .ok bytes
  tooLong : limit < (Wire.encode (a.service.respond a.now a.request c)).length
  failure : f = (a.service.respond a.now a.request c).tooLarge limit

/-- **What a failure says about one request** that fitted a frame. -/
theorem Arrival.unchanged_or_lost {limit : Nat} {a : Arrival} {c : Catalog} {sent : Response}
    {f : Failure} (hfits : (Wire.encode a.request).length ≤ limit)
    (hsent : (a.service.respond a.now a.request c).sendable? limit = some sent)
    (hfailure : sent.failure = some f) :
    (a.service.execute a.now a.request c).2 = c ∨ LostAnswer limit a c f := by
  cases hok : (a.service.execute a.now a.request c).1 with
  | error f' =>
    left
    rw [Service.execute_eq_run] at hok ⊢
    rw [Service.Plan.run_effect]
    exact Service.Plan.effect_of_error (a.service.plan_isSound a.now a.request) hok
  | ok bytes =>
    obtain ⟨-, rfl⟩ | ⟨htooLong, -, rfl⟩ := Response.sendable?_eq_some_iff.1 hsent
    · -- a success is sent as such if it fits
      rw [Service.respond, hok] at hfailure
      contradiction
    · cases hbulk : a.request.operation.isBulk with
      | true => exact .inr ⟨hbulk, ⟨bytes, hok⟩, htooLong, (Option.some.inj hfailure).symm⟩
      | false =>
        refine .inl ((a.service.unchanged_or_fits a.now hbulk hok).resolve_right fun hle => ?_)
        omega

theorem Catalog.after_take_succ (c : Catalog) {as : List Arrival} {k : Nat} {a : Arrival}
    (ha : as[k]? = some a) :
    c.after (as.take (k + 1)) =
      (a.service.execute a.now a.request (c.after (as.take k))).2 := by
  induction as generalizing c k with
  | nil => simp at ha
  | cons first as ih =>
    cases k with
    | zero =>
      obtain rfl : first = a := Option.some.inj ha
      rfl
    | succ k => exact ih (first.service.execute first.now first.request c).2 ha

/-- What the failures of a talk say about the catalog: the request in the same place has left it as
it was, unless the answer to it was lost. -/
def Talk.FailuresTell (limit : Nat) (c : Catalog) (t : Talk) : Prop :=
  ∀ (k : Nat) (a : Arrival) (r : Response) (f : Failure),
    t.arrivals[k]? = some a → t.responses[k]? = some r → r.failure = some f →
      c.after (t.arrivals.take (k + 1)) = c.after (t.arrivals.take k) ∨
        LostAnswer limit a (c.after (t.arrivals.take k)) f

theorem Talks.failuresTell {service : Service} {limit : Nat} {c : Catalog} {frames : List Bytes}
    {t : Talk} (h : Talks service limit c frames t)
    (hframes : ∀ frame ∈ frames, frame.length ≤ limit) : t.FailuresTell limit c := by
  intro k a r f ha hr hf
  obtain ⟨-, frame, hframe, hdecode⟩ := h.request ha
  have hfits : (Wire.encode a.request).length ≤ limit :=
    Nat.le_trans (Wire.isPrefix_of_decode hdecode).length_le
      (hframes frame (List.mem_of_getElem? hframe))
  rw [c.after_take_succ ha]
  exact Arrival.unchanged_or_lost hfits ((h.answer ha).symm.trans hr) hf

namespace Server
variable {s : Server} {c : Connection}

theorem catalog_reply (s : Server) (r : Response) : (s.reply r).2.catalog = s.catalog := by
  rw [reply]
  split
  · rfl
  · simp only
    split <;> rfl

/-- **What the failures that are sent say.** A server with settings that are accepted serves an open
connection, whose buffer holds no complete frame, with any catalog, and the bytes that arrive do so
in any chunks. A failure that is sent back for a request says that the request has changed nothing,
or else that a bulk operation was carried out whose response is too long. A request that the queue
does not take changes nothing. -/
theorem serve_failuresTell (hcheck : s.settings.check = .ok ()) (hopen : c.ending = none)
    (hdrained : s.drained c [] = ⟨[], none, c.inbound⟩) (chunks : List Bytes) :
    (∃ t sent c' s', s.serve c chunks = (sent, c', s') ∧
        s.Served s' (s.drained c chunks.flatten).frames sent t ∧
        t.FailuresTell s.settings.maxFrameLength s.catalog) ∧
      ∀ (r : Request) (fault : QueueFault), (s.turnAway r fault).2.catalog = s.catalog := by
  obtain ⟨-, -, -, -, hlimit⟩ := Settings.check_eq_ok_iff.1 hcheck
  obtain ⟨t, sent, c', s', hserve, hserved, -⟩ := serve_served hlimit hopen hdrained chunks
  have hframes : ∀ frame ∈ (s.drained c chunks.flatten).frames,
      frame.length ≤ s.settings.maxFrameLength := fun _ => Frame.length_le_of_mem_drain
  exact ⟨⟨t, sent, c', s', hserve, hserved, hserved.talks.failuresTell hframes⟩,
    fun _ _ => catalog_reply _ _⟩

/-- A server that sends no frame of more than 85 bytes, with a shop that has three orders. -/
def crowded : Server :=
  { limited 85 with
    catalog := (Service.shop.onTable ⟨0⟩ fun t =>
      t.saveAll ([1, 2, 3].map fun n =>
        ⟨.single (.int n), OrderedMap.ofList [("id", .int n)]⟩)).2 }

/-- What is sent instead of the keys of the three orders, which take 89 bytes. -/
def lostKeys : Response :=
  ⟨7, .delete, [], some ⟨.tooLarge, "frame of 89 bytes exceeds limit 85"⟩⟩

/-- All three orders are deleted, and the failure that is sent tells what it can. -/
theorem serve_crowded_failuresTell :
    let chunks := [Frame.frame (Wire.encode Service.clearOrders)]
    (crowded.settings.check = .ok () ∧ crowded.drained ⟨[], none⟩ [] = ⟨[], none, []⟩) ∧
      (∃ (t : Talk) (sent : Bytes) (c' : Connection) (s' : Server),
        crowded.serve ⟨[], none⟩ chunks = (sent, c', s') ∧
        sent = Frame.frame (Wire.encode lostKeys) ∧ t.FailuresTell 85 crowded.catalog) ∧
      (crowded.turnAway Service.clearOrders (.full 1)).2.catalog = crowded.catalog := by
  intro chunks
  have hdrained : crowded.drained ⟨[], none⟩ [] = ⟨[], none, []⟩ := by decide +kernel
  obtain ⟨⟨t, sent, c', s', hserve, -, htell⟩, hturnAway⟩ :=
    serve_failuresTell (s := crowded) (c := ⟨[], none⟩) rfl rfl hdrained chunks
  have hsent : (crowded.serve ⟨[], none⟩ chunks).1 = Frame.frame (Wire.encode lostKeys) := by
    decide +kernel
  rw [hserve] at hsent
  exact ⟨⟨rfl, hdrained⟩, ⟨t, sent, c', s', hserve, hsent, htell⟩, hturnAway _ _⟩

/-- The answer to a request to delete all orders is a failure, and the orders are gone. -/
theorem serve_crowded_changes :
    crowded.settings.check = .ok () ∧ lostKeys.failure.isSome = true ∧
      ∃ c' s', crowded.serve ⟨[], none⟩ [Frame.frame (Wire.encode Service.clearOrders)] =
          (Frame.frame (Wire.encode lostKeys), c', s') ∧
        crowded.catalog.tables.map (·.rows.entries.length) = [3] ∧
        s'.catalog.tables.map (·.rows.entries.length) = [0] ∧ s'.catalog ≠ crowded.catalog := by
  let run := crowded.serve ⟨[], none⟩ [Frame.frame (Wire.encode Service.clearOrders)]
  have hsent : run.1 = Frame.frame (Wire.encode lostKeys) := by decide +kernel
  have hbefore : crowded.catalog.tables.map (·.rows.entries.length) = [3] := by decide +kernel
  have hafter : run.2.2.catalog.tables.map (·.rows.entries.length) = [0] := by decide +kernel
  refine ⟨rfl, rfl, run.2.1, run.2.2, by rw [← hsent], hbefore, hafter, fun hsame => ?_⟩
  rw [hsame, hbefore] at hafter
  contradiction

end Server
end KeyedRows
