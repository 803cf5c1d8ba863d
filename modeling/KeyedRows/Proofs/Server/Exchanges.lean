/-
# Requests and their answers, in order

What a server makes of the frames of a connection: it takes them one after
another, carries out the request in each on the catalog that the one before it
left, and sends an answer. It stops at a frame that is no request, and when an
answer cannot be sent. `Talks` says so without buffers, counters or chunks. Of
the clock and the counters it says nothing but that something is read of them,
and only a request for statistics shows what.

Main statements: `Talks.answer`, the answer in each place is the one to the
request in this place, and `Talks.unique`, without requests for statistics the
frames decide everything.
-/

import KeyedRows.Proofs.Server.Reply
import KeyedRows.Proofs.Service.Runs

namespace KeyedRows

/-! ### Talks -/

/-- What comes of the frames of a connection. -/
structure Talk where
  /-- The requests that were carried out. -/
  arrivals : List Arrival
  /-- What was sent back. -/
  responses : List Response
  /-- Why no further frame was taken, if one was left or an answer could not be sent. -/
  failure : Option Failure
  catalog : Catalog

namespace Talk

/-- A talk with an answered request before it. -/
def cons (a : Arrival) (sent : Response) (t : Talk) : Talk :=
  { t with arrivals := a :: t.arrivals, responses := sent :: t.responses }

/-- A talk that goes on as another. -/
def append (t u : Talk) : Talk :=
  ⟨t.arrivals ++ u.arrivals, t.responses ++ u.responses, u.failure, u.catalog⟩

end Talk

/-- **How frames are answered**, by a service on a catalog. -/
inductive Talks (service : Service) (limit : Nat) : Catalog → List Bytes → Talk → Prop where
  | done (c : Catalog) : Talks service limit c [] ⟨[], [], none, c⟩
  /-- A frame that is no request. -/
  | undecodable {c : Catalog} {frame : Bytes} {frames : List Bytes} {fault : Wire.Fault}
      (hframe : (Wire.decode frame : Except Wire.Fault Request) = .error fault) :
      Talks service limit c (frame :: frames) ⟨[], [], some fault.failure, c⟩
  /-- A request that is carried out, but neither its response nor the refusal fits. -/
  | unsendable {c : Catalog} {frame : Bytes} {frames : List Bytes} {now : Readings} {r : Request}
      (hframe : Wire.decode frame = .ok r)
      (hresponse : (service.respond now r c).sendable? limit = none) :
      Talks service limit c (frame :: frames) ⟨[⟨service, now, r⟩], [],
        some (((service.respond now r c).refusal limit).tooLarge limit),
        (service.execute now r c).2⟩
  | answered {c : Catalog} {frame : Bytes} {frames : List Bytes} {now : Readings} {r : Request}
      {sent : Response} {t : Talk} (hframe : Wire.decode frame = .ok r)
      (hresponse : (service.respond now r c).sendable? limit = some sent)
      (hrest : Talks service limit (service.execute now r c).2 frames t) :
      Talks service limit c (frame :: frames) (t.cons ⟨service, now, r⟩ sent)

namespace Talks
variable {service : Service} {limit : Nat} {c : Catalog} {frames more : List Bytes} {t u : Talk}

/-- Every request is carried out on what the ones before it left. -/
theorem catalog_eq (h : Talks service limit c frames t) : t.catalog = c.after t.arrivals := by
  induction h with
  | done | undecodable | unsendable => rfl
  | answered hframe hresponse hrest ih => exact ih

/-- The requests are those of the frames, in the same order. -/
theorem request (h : Talks service limit c frames t) {k : Nat} {a : Arrival}
    (ha : t.arrivals[k]? = some a) :
    a.service = service ∧ ∃ frame, frames[k]? = some frame ∧ Wire.decode frame = .ok a.request := by
  induction h generalizing k with
  | done | undecodable => simp at ha
  | @unsendable c frame frames now r hframe hresponse =>
    obtain ⟨rfl, rfl⟩ : k = 0 ∧ ⟨service, now, r⟩ = a := by
      simpa [List.getElem?_singleton] using ha
    exact ⟨rfl, frame, rfl, hframe⟩
  | @answered c frame frames now r sent t hframe hresponse hrest ih =>
    cases k with
    | zero =>
      obtain rfl : ⟨service, now, r⟩ = a := Option.some.inj ha
      exact ⟨rfl, frame, rfl, hframe⟩
    | succ k => exact ih ha

/-- **The answer in each place is the one to the request in this place**, on the catalog of that
moment. -/
theorem answer (h : Talks service limit c frames t) {k : Nat} {a : Arrival}
    (ha : t.arrivals[k]? = some a) :
    t.responses[k]? =
      (a.service.respond a.now a.request (c.after (t.arrivals.take k))).sendable? limit := by
  induction h generalizing k with
  | done | undecodable => simp at ha
  | @unsendable c frame frames now r hframe hresponse =>
    obtain ⟨rfl, rfl⟩ : k = 0 ∧ ⟨service, now, r⟩ = a := by
      simpa [List.getElem?_singleton] using ha
    exact hresponse.symm
  | @answered c frame frames now r sent t hframe hresponse hrest ih =>
    cases k with
    | zero =>
      obtain rfl : ⟨service, now, r⟩ = a := Option.some.inj ha
      exact hresponse.symm
    | succ k => exact ih ha

/-- No answer comes without a request, and at most one request is without an answer: the last. -/
theorem length_responses (h : Talks service limit c frames t) :
    t.responses.length ≤ t.arrivals.length ∧ t.arrivals.length ≤ t.responses.length + 1 ∧
      t.arrivals.length ≤ frames.length := by
  induction h with
  | done => exact ⟨Nat.le_refl _, Nat.zero_le _, Nat.le_refl _⟩
  | undecodable | unsendable => simp
  | answered hframe hresponse hrest ih =>
    simp only [Talk.cons, List.length_cons]
    omega

/-- What is sent is sent for the response to the request in the same place. -/
theorem of_response (h : Talks service limit c frames t) {k : Nat} {sent : Response}
    (hsent : t.responses[k]? = some sent) :
    ∃ a, t.arrivals[k]? = some a ∧ (a.service.respond a.now a.request
      (c.after (t.arrivals.take k))).sendable? limit = some sent := by
  obtain ⟨hk, -⟩ := List.getElem?_eq_some_iff.1 hsent
  obtain ⟨hle, -, -⟩ := h.length_responses
  have ha : t.arrivals[k]? = some t.arrivals[k] := List.getElem?_eq_getElem (by omega)
  exact ⟨_, ha, (h.answer ha).symm.trans hsent⟩

/-- If every request was answered, no further one follows. -/
theorem undecodable_of_answered (h : Talks service limit c frames t)
    (hall : t.responses.length = t.arrivals.length) {frame : Bytes}
    (hframe : frames[t.arrivals.length]? = some frame) :
    ∃ fault, (Wire.decode frame : Except Wire.Fault Request) = .error fault := by
  induction h with
  | done => simp at hframe
  | @undecodable c frame' frames fault hfault =>
    obtain rfl : frame' = frame := Option.some.inj hframe
    exact ⟨fault, hfault⟩
  | unsendable => simp at hall
  | answered hframe' hresponse hrest ih => exact ih (Nat.succ.inj hall) hframe

/-- There is no failure exactly if every frame was answered. -/
theorem failure_eq_none_iff (h : Talks service limit c frames t) :
    t.failure = none ↔ t.responses.length = frames.length := by
  induction h with
  | done => simp
  | undecodable | unsendable => simp
  | answered hframe hresponse hrest ih => simpa [Talk.cons] using ih

/-! ### One after another -/

/-- A talk without a failure goes on with further frames. -/
theorem append (h : Talks service limit c frames t) (hnone : t.failure = none)
    (hmore : Talks service limit t.catalog more u) :
    Talks service limit c (frames ++ more) (t.append u) := by
  induction h with
  | done => exact hmore
  | undecodable | unsendable => contradiction
  | answered hframe hresponse hrest ih => exact .answered hframe hresponse (ih hnone hmore)

/-- Behind a failure frames are not looked at. -/
theorem append_of_failed (h : Talks service limit c frames t) (hfailed : t.failure ≠ none)
    (more : List Bytes) : Talks service limit c (frames ++ more) t := by
  induction h with
  | done => exact absurd rfl hfailed
  | undecodable hframe => exact .undecodable hframe
  | unsendable hframe hresponse => exact .unsendable hframe hresponse
  | answered hframe hresponse hrest ih => exact .answered hframe hresponse (ih hfailed)

/-! ### The frames decide -/

theorem of_fault {frame : Bytes} {fault : Wire.Fault}
    (h : Talks service limit c (frame :: frames) t)
    (hframe : (Wire.decode frame : Except Wire.Fault Request) = .error fault) :
    t = ⟨[], [], some fault.failure, c⟩ := by
  cases h with
  | undecodable hframe' =>
    obtain rfl := Except.error.inj (hframe'.symm.trans hframe)
    rfl
  | unsendable hframe' | answered hframe' => exact nomatch hframe'.symm.trans hframe

theorem of_request {frame : Bytes} {r : Request} (h : Talks service limit c (frame :: frames) t)
    (hframe : Wire.decode frame = .ok r) :
    ∃ now, (service.respond now r c).sendable? limit = none ∧
        t = ⟨[⟨service, now, r⟩], [],
          some (((service.respond now r c).refusal limit).tooLarge limit),
          (service.execute now r c).2⟩ ∨
      ∃ sent rest, (service.respond now r c).sendable? limit = some sent ∧
        Talks service limit (service.execute now r c).2 frames rest ∧
        t = rest.cons ⟨service, now, r⟩ sent := by
  cases h with
  | undecodable hframe' => exact nomatch hframe'.symm.trans hframe
  | unsendable hframe' hresponse =>
    obtain rfl := Except.ok.inj (hframe'.symm.trans hframe)
    exact ⟨_, .inl ⟨hresponse, rfl⟩⟩
  | answered hframe' hresponse hrest =>
    obtain rfl := Except.ok.inj (hframe'.symm.trans hframe)
    exact ⟨_, .inr ⟨_, _, hresponse, hrest, rfl⟩⟩

/-- **Without requests for statistics the frames decide** what is sent, how it ends and what becomes
of the catalog, whatever is read of the clock and the counters meanwhile. -/
theorem unique (h : Talks service limit c frames t) (h' : Talks service limit c frames u)
    (hstats : ∀ frame ∈ frames, ∀ r : Request, Wire.decode frame = .ok r → r.operation ≠ .stats) :
    t.responses = u.responses ∧ t.failure = u.failure ∧ t.catalog = u.catalog := by
  induction h generalizing u with
  | done =>
    cases h'
    exact ⟨rfl, rfl, rfl⟩
  | undecodable hframe =>
    rw [h'.of_fault hframe]
    exact ⟨rfl, rfl, rfl⟩
  | @unsendable c frame frames now r hframe hresponse =>
    have hne : r.operation ≠ .stats := hstats frame List.mem_cons_self r hframe
    obtain ⟨now', h'⟩ := h'.of_request hframe
    -- what the other talk has read does not matter, so it stops here too
    rw [Service.respond, Service.execute_of_ne_stats hne service now' now, ← Service.respond] at h'
    obtain ⟨-, rfl⟩ | ⟨sent, rest, hsent, -⟩ := h'
    · exact ⟨rfl, rfl, rfl⟩
    · cases hresponse.symm.trans hsent
  | @answered c frame frames now r sent t hframe hresponse hrest ih =>
    have hne : r.operation ≠ .stats := hstats frame List.mem_cons_self r hframe
    obtain ⟨now', h'⟩ := h'.of_request hframe
    rw [Service.respond, Service.execute_of_ne_stats hne service now' now, ← Service.respond] at h'
    obtain ⟨hnone, -⟩ | ⟨sent', rest, hsent, hrest', rfl⟩ := h'
    · cases hresponse.symm.trans hnone
    · obtain rfl := Option.some.inj (hresponse.symm.trans hsent)
      obtain ⟨hresponses, hfailure, hcatalog⟩ :=
        ih hrest' fun frame hmem => hstats frame (List.mem_cons_of_mem _ hmem)
      exact ⟨congrArg (sent :: ·) hresponses, hfailure, hcatalog⟩

end Talks
end KeyedRows
