/-
# A connection from its first byte to its last

A peer talks to a new server, with any settings that are accepted and any catalog.
However its bytes are cut into chunks, what happens is a `Conversation`: the
requests in the frames are carried out in their order, each on the catalog that
the one before it left, and the answers go back in the same order, one frame for
each. Each request is a task of the server's queue, submitted when the one before
it has ended. The conversation stops at the first thing that is no frame or no
request, or at an answer that cannot be sent.

Main statement: `serve_conversation`.
-/

import KeyedRows.Proofs.Server.Serving

namespace KeyedRows
namespace Server
variable {s : Server} {c : Connection}

/-! ### New servers -/

theorem bind_eq_ok_iff {network : Network} {settings : Settings} {catalog : Catalog} :
    bind network settings catalog = .ok s ↔ settings.check = .ok () ∧
      network.bindable settings.bindAddress ∧ s = ⟨settings, catalog, default, default, "", 0⟩ := by
  rw [bind]
  cases hcheck : settings.check with
  | error fault => exact ⟨fun h => (nomatch h), fun h => (nomatch h.1)⟩
  | ok =>
    by_cases haddress : network.bindable settings.bindAddress
    · simp only [haddress, Bool.not_true, Bool.false_eq_true, if_false, true_and]
      exact ⟨fun h => (Except.ok.inj h).symm, fun h => congrArg Except.ok h.symm⟩
    · simp only [haddress, Bool.not_false, if_true, Bool.false_eq_true, false_and, and_false,
        iff_false]
      exact fun h => nomatch h

theorem accept_eq_some {s' : Server} (h : s.accept = (some c, s')) :
    c = ⟨[], none⟩ ∧ s' = { s with counters := { s.counters with
      connectionsTotal := s.counters.connectionsTotal + 1
      connectionsActive := s.counters.connectionsActive + 1 } } := by
  rw [accept] at h
  by_cases hfull : s.settings.maxConnections ≤ s.counters.connectionsActive
  · simp [hfull] at h
  · simp only [hfull, if_false, Prod.mk.injEq, Option.some.injEq] at h
    exact ⟨h.1.symm, h.2.symm⟩

/-! ### Conversations -/

/-- **A conversation**: what was asked of a new server on a connection, and what was answered. -/
structure Conversation (settings : Settings) (catalog : Catalog) (stream : Frame.Drained)
    (arrivals : List Arrival) (responses : List Response) (sent : Bytes) (c : Connection)
    (s : Server) : Prop where
  /-- The requests are those of the frames, one for each and in their order. -/
  request : ∀ (k : Nat) (a : Arrival), arrivals[k]? = some a →
    a.service = Service.standard settings.lenient ∧
      ∃ frame, stream.frames[k]? = some frame ∧ Wire.decode frame = .ok a.request
  /-- Each is carried out on what the ones before it left, and what is sent for its response is in
  the same place. -/
  answer : ∀ (k : Nat) (a : Arrival), arrivals[k]? = some a → responses[k]? =
    (a.service.respond a.now a.request (catalog.after (arrivals.take k))).sendable?
      settings.maxFrameLength
  /-- Nothing else is done to the catalog. -/
  catalog_after : s.catalog = catalog.after arrivals
  /-- A new queue ran each as a task, submitted when the one before it had ended. -/
  tasks : ∃ q : TaskQueue Bytes,
    TaskQueue.create settings.workerThreads settings.queueCapacity = .ok q ∧
      s.RunsOn (q.settle.runInTurn (catalog.tasks arrivals))
  /-- Every answer has the number and the operation of the request in its place. -/
  numbered : ∀ (k : Nat) (r : Response), responses[k]? = some r →
    ∃ a, arrivals[k]? = some a ∧ r.id = a.request.id ∧ r.operation = a.request.operation
  /-- Every request but perhaps the last is answered. -/
  answered : arrivals.length ≤ responses.length + 1
  /-- If the last one is answered too, there is no frame after it, or one that is no request. -/
  complete : responses.length = arrivals.length → ∀ frame,
    stream.frames[arrivals.length]? = some frame →
      ∃ fault, (Wire.decode frame : Except Wire.Fault Request) = .error fault
  /-- What is sent is the frames of the answers and nothing else. -/
  framed : sent = responses.flatMap fun r => Frame.frame (Wire.encode r)
  /-- A peer that takes frames of such a length finds one for each answer. -/
  taken : ∀ limit, settings.maxFrameLength ≤ limit →
    Frame.drain limit sent = ⟨responses.map Wire.encode, none, []⟩
  /-- It reads the answer in each. -/
  readable : ∀ r ∈ responses,
    (Wire.encode r).length ≤ settings.maxFrameLength ∧ Wire.decode (Wire.encode r) = .ok r
  /-- An answered request is counted, once and after it was answered. -/
  total : s.counters.requestsTotal = responses.length
  split : s.counters.requestsTotal = s.counters.requestsSuccess + s.counters.requestsError
  errors : s.counters.requestsError = responses.countP (·.failure.isSome)
  /-- What a request can read of the counter is how many were answered before it. -/
  readings : ∀ (k : Nat) (a : Arrival), arrivals[k]? = some a → a.now.server.requestsTotal = k
  ended : c.ending.isSome
  /-- The connection ends well exactly if every byte was of a frame that was answered. -/
  finished : c.ending = some .finished ↔
    responses.length = stream.frames.length ∧ stream.fault = none ∧ stream.rest = []

/-- Each response has a failure or none. -/
theorem length_eq_countP_failure (responses : List Response) :
    responses.length =
      responses.countP (·.failure.isNone) + responses.countP (·.failure.isSome) := by
  rw [List.length_eq_countP_add_countP (·.failure.isNone)]
  congr 1
  refine List.countP_congr fun r _ => ?_
  cases r.failure <;> simp

/-- **What frames make of a new server is a conversation.** -/
theorem Served.conversation {s' : Server} {stream : Frame.Drained} {sent : Bytes} {t : Talk}
    (hcheck : s.settings.check = .ok ())
    (hnew : s.counters.requestsTotal = 0 ∧ s.counters.requestsSuccess = 0 ∧
      s.counters.requestsError = 0) (hqueue : s.queue = default)
    (h : s.Served s' stream.frames sent t) (hending : c.ending = some (stream.ending t.failure)) :
    Conversation s.settings s.catalog stream t.arrivals t.responses sent c s' := by
  obtain ⟨htotal, hsuccess, herror⟩ := hnew
  obtain ⟨hworkers, hcapacity, -, -, hlimit⟩ := Settings.check_eq_ok_iff.1 hcheck
  obtain ⟨hle, hlast, -⟩ := h.talks.length_responses
  have hsent : ∀ (k : Nat) (r : Response), t.responses[k]? = some r →
      ∃ a, t.arrivals[k]? = some a ∧ (Wire.encode r).length ≤ s.settings.maxFrameLength ∧
        r.id = a.request.id ∧ r.operation = a.request.operation := by
    intro k r hr
    obtain ⟨a, ha, hsendable⟩ := h.talks.of_response hr
    obtain ⟨hfits, hid, hoperation⟩ := Response.of_sendable? hsendable
    exact ⟨a, ha, hfits, hid.trans (Response.id_ofOutcome _ _ _),
      hoperation.trans (Response.operation_ofOutcome _ _ _)⟩
  have hfits : ∀ r ∈ t.responses, (Wire.encode r).length ≤ s.settings.maxFrameLength := by
    intro r hr
    obtain ⟨k, hk⟩ := List.getElem?_of_mem hr
    obtain ⟨-, -, hfits, -⟩ := hsent k r hk
    exact hfits
  constructor
  case request => exact fun k a ha => h.talks.request ha
  case answer => exact fun k a ha => h.talks.answer ha
  case catalog_after => exact h.catalog.trans h.talks.catalog_eq
  case tasks =>
    obtain ⟨q, hcreate, -⟩ := TaskQueue.exists_create _ _ (Nat.pos_of_ne_zero hworkers)
      (Nat.pos_of_ne_zero hcapacity)
    obtain ⟨hidle, hcounters⟩ := TaskQueue.idle_of_create hcreate
    exact ⟨q, hcreate, h.tasks _ ⟨hidle, hqueue.trans hcounters.symm⟩⟩
  case numbered =>
    intro k r hr
    obtain ⟨a, ha, -, hid, hoperation⟩ := hsent k r hr
    exact ⟨a, ha, hid, hoperation⟩
  case answered => exact hlast
  case complete => exact fun hall frame hframe => h.talks.undecodable_of_answered hall hframe
  case framed => exact h.sent
  case taken =>
    intro limit hle
    have hpayloads : sent = (t.responses.map Wire.encode).flatMap Frame.frame ++ [] := by
      rw [h.sent, List.flatMap_map, List.append_nil]
    have hlengths : ∀ payload ∈ t.responses.map Wire.encode,
        payload.length ≤ s.settings.maxFrameLength := by
      intro payload hpayload
      obtain ⟨r, hr, rfl⟩ := List.mem_map.1 hpayload
      exact hfits r hr
    rw [hpayloads, Frame.drain_frames
      (fun payload hmem => Nat.le_trans (hlengths payload hmem) hle)
      (fun payload hmem => Nat.lt_of_le_of_lt (hlengths payload hmem) hlimit),
      Frame.drain_of_none rfl, List.append_nil]
  case readable =>
    intro r hr
    have hword : UInt32.size < UInt64.size := by decide
    have hsize : (Wire.encode r).length < UInt64.size :=
      Nat.lt_trans (Nat.lt_of_le_of_lt (hfits r hr) hlimit) hword
    exact ⟨hfits r hr, Wire.decode_encode hsize⟩
  case total => rw [h.total, htotal, Nat.zero_add]
  case split =>
    rw [h.total, h.success, h.error, htotal, hsuccess, herror, length_eq_countP_failure]
    omega
  case errors => rw [h.error, herror, Nat.zero_add]
  case readings =>
    intro k a ha
    rw [h.readings k a ha, htotal, Nat.zero_add]
  case ended => rw [hending]; rfl
  case finished =>
    rw [hending, Option.some.injEq, Frame.Drained.ending_eq_finished_iff,
      h.talks.failure_eq_none_iff]

/-- **Every connection is a conversation.** A server listens with settings that are accepted, on any
catalog, and takes a connection in; the bytes that arrive there do so in any chunks. Then there are
requests and answers that make it a conversation about the frames of the stream, up to the first
fault. Without requests for statistics, what is sent back, how the connection ends and what becomes
of the catalog do not depend on how the stream is cut into chunks. -/
theorem serve_conversation {network : Network} {settings : Settings} {catalog : Catalog}
    {s₀ : Server} (hbind : bind network settings catalog = .ok s₀)
    (haccept : s₀.accept = (some c, s)) (chunks : List Bytes) :
    let stream := Frame.drain settings.maxFrameLength chunks.flatten
    ∃ sent c' s', s.serve c chunks = (sent, c', s') ∧
      (∃ arrivals responses,
        Conversation settings catalog stream arrivals responses sent c' s') ∧
      ((∀ frame ∈ stream.frames, ∀ r : Request, Wire.decode frame = .ok r → r.operation ≠ .stats) →
        ∀ chunks', chunks'.flatten = chunks.flatten →
          (s.serve c chunks').1 = sent ∧ (s.serve c chunks').2.1.ending = c'.ending ∧
            (s.serve c chunks').2.2.catalog = s'.catalog) := by
  intro stream
  obtain ⟨hcheck, -, rfl⟩ := bind_eq_ok_iff.1 hbind
  obtain ⟨-, -, -, -, hlimit⟩ := Settings.check_eq_ok_iff.1 hcheck
  obtain ⟨rfl, hs⟩ := accept_eq_some haccept
  obtain rfl : settings = s.settings := (congrArg Server.settings hs).symm
  obtain rfl : catalog = s.catalog := (congrArg Server.catalog hs).symm
  have hempty : s.drained ⟨[], none⟩ [] = ⟨[], none, []⟩ := Frame.drain_of_none rfl
  obtain ⟨t, sent, c', s', hrun, hserved, hending⟩ :=
    serve_served (s := s) (c := ⟨[], none⟩) hlimit rfl hempty chunks
  have hnew : s.counters.requestsTotal = 0 ∧ s.counters.requestsSuccess = 0 ∧
      s.counters.requestsError = 0 := by
    rw [hs]
    exact ⟨rfl, rfl, rfl⟩
  have hqueue : s.queue = default := by rw [hs]
  refine ⟨sent, c', s', hrun, ⟨t.arrivals, t.responses,
    hserved.conversation hcheck hnew hqueue hending⟩, fun hstats chunks' hflatten => ?_⟩
  obtain ⟨u, sent', c'', s'', hrun', hserved', hending'⟩ :=
    serve_served (s := s) (c := ⟨[], none⟩) hlimit rfl hempty chunks'
  rw [hflatten] at hserved' hending'
  obtain ⟨hresponses, hfailure, hcatalog⟩ := hserved'.talks.unique hserved.talks hstats
  rw [hrun']
  refine ⟨?_, ?_, ?_⟩
  · show sent' = sent
    rw [hserved'.sent, hserved.sent, hresponses]
  · show c''.ending = c'.ending
    rw [hending', hending, hfailure]
  · show s''.catalog = s'.catalog
    rw [hserved'.catalog, hserved.catalog, hcatalog]

/-- A database is created, there is a ping, and then comes a frame that is no request. The stream is
cut within the second frame. -/
def shortStream : List Bytes :=
  let bytes := [Wire.encode (⟨1, ⟨"shop", ""⟩, .createDatabase, []⟩ : Request),
    Wire.encode (⟨2, ⟨"", ""⟩, .ping, []⟩ : Request), [0xff]].flatMap Frame.frame
  [bytes.take 50, bytes.drop 50]

/-- The two requests are answered, whether the stream arrives in two chunks or in one. -/
theorem serve_shortStream :
    let s := (limited 64).accept.2
    let sent := [Wire.encode (⟨1, .createDatabase, [], none⟩ : Response),
      Wire.encode (⟨2, .ping, [], none⟩ : Response)].flatMap Frame.frame
    (bind .loopback (limited 64).settings (Catalog.empty default) = .ok (limited 64) ∧
        (limited 64).accept = (some ⟨[], none⟩, s)) ∧
      (∃ c' s', s.serve ⟨[], none⟩ shortStream = (sent, c', s') ∧ ∃ arrivals responses,
        Conversation (limited 64).settings (Catalog.empty default)
          (Frame.drain 64 shortStream.flatten) arrivals responses sent c' s') ∧
      (s.serve ⟨[], none⟩ [shortStream.flatten]).1 = sent := by
  intro s sent
  have hbind : bind .loopback (limited 64).settings (Catalog.empty default) = .ok (limited 64) :=
    bind_eq_ok_iff.2 ⟨rfl, by decide +kernel, rfl⟩
  have haccept : (limited 64).accept = (some ⟨[], none⟩, s) := rfl
  have hstats : ∀ frame ∈ (Frame.drain 64 shortStream.flatten).frames,
      ∀ r : Request, Wire.decode frame = .ok r → r.operation ≠ .stats := by
    have hall : (Frame.drain 64 shortStream.flatten).frames.all fun frame =>
        (Wire.decode frame : Except Wire.Fault Request).toOption.all (·.operation ≠ .stats) := by
      decide +kernel
    intro frame hmem r hr
    have hframe := List.all_eq_true.1 hall frame hmem
    rw [hr] at hframe
    exact of_decide_eq_true hframe
  obtain ⟨bytes, c', s', hrun, hconversation, hchunks⟩ :=
    serve_conversation hbind haccept shortStream
  have hbytes : (s.serve ⟨[], none⟩ shortStream).1 = sent := by decide +kernel
  obtain rfl : bytes = sent := by rw [← hbytes, hrun]
  obtain ⟨hsame, -⟩ := hchunks hstats [shortStream.flatten] (List.flatten_singleton ..)
  exact ⟨⟨hbind, haccept⟩, ⟨c', s', hrun, hconversation⟩, hsame⟩

end Server
end KeyedRows
