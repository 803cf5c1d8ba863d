/-
# Serving a connection

What a server does with the bytes of a connection, taken apart: `answerAll`
answers the frames that are complete, `receive` does so after each chunk, and
`serve` goes through the chunks to the end of the stream. Each of them makes of the
server what a talk makes of it (`Served`): the talk says what was answered, the
bytes sent are the frames of the answers, and the counters grew by their number.
The queue behind the server ran the requests of the talk as tasks, one after
another.

Main statement: `serve_served`, what the chunks of a stream make of a server is what
the frames of the stream make of it.
-/

import KeyedRows.Proofs.Server.Exchanges
import KeyedRows.Proofs.Server.Tasks

namespace KeyedRows
namespace Server

/-! ### Frames -/

/-- **What frames make of a server**: a talk, the bytes of its answers one frame after another, the
counters of the requests that were answered, and a queue that ran all its requests. -/
structure Served (s s' : Server) (frames : List Bytes) (sent : Bytes) (t : Talk) : Prop where
  talks : Talks s.service s.settings.maxFrameLength s.catalog frames t
  settings : s'.settings = s.settings
  catalog : s'.catalog = t.catalog
  sent : sent = t.responses.flatMap fun r => Frame.frame (Wire.encode r)
  total : s'.counters.requestsTotal = s.counters.requestsTotal + t.responses.length
  success : s'.counters.requestsSuccess =
    s.counters.requestsSuccess + t.responses.countP (·.failure.isNone)
  error : s'.counters.requestsError =
    s.counters.requestsError + t.responses.countP (·.failure.isSome)
  /-- A request finds the ones before it counted. -/
  readings : ∀ k a, t.arrivals[k]? = some a →
    a.now.server.requestsTotal = s.counters.requestsTotal + k
  /-- Each request is a task, submitted when the one before it has ended. -/
  tasks : ∀ q : TaskQueue Bytes, s.RunsOn q →
    s'.RunsOn (q.runInTurn (s.catalog.tasks t.arrivals))

section Counters
variable (s : Server) (r : Request) (sent : Response)

theorem requestsTotal_answered :
    (s.answered r sent).counters.requestsTotal = s.counters.requestsTotal + 1 := by
  rw [answered, recordReply]
  cases sent.failure.isNone <;> rfl

theorem requestsSuccess_answered :
    (s.answered r sent).counters.requestsSuccess =
      s.counters.requestsSuccess + [sent].countP (·.failure.isNone) := by
  rw [answered, recordReply, List.countP_singleton]
  cases sent.failure.isNone <;> rfl

theorem requestsError_answered :
    (s.answered r sent).counters.requestsError =
      s.counters.requestsError + [sent].countP (·.failure.isSome) := by
  rw [answered, recordReply, List.countP_singleton]
  cases sent.failure <;> rfl

end Counters

namespace Served
variable {s s₁ s' : Server} {frames more : List Bytes} {sent bytes : Bytes} {t u : Talk}

theorem nil (s : Server) : s.Served s [] [] ⟨[], [], none, s.catalog⟩ :=
  ⟨.done s.catalog, rfl, rfl, rfl, rfl, rfl, rfl, by simp, fun _ hq => hq⟩

theorem undecodable {frame : Bytes} {fault : Wire.Fault}
    (hframe : (Wire.decode frame : Except Wire.Fault Request) = .error fault) :
    s.Served s (frame :: frames) [] ⟨[], [], some fault.failure, s.catalog⟩ :=
  ⟨.undecodable hframe, rfl, rfl, rfl, rfl, rfl, rfl, by simp, fun _ hq => hq⟩

/-- A request that is carried out and not counted, for want of an answer. -/
theorem unsendable {frame : Bytes} {r : Request} (hframe : Wire.decode frame = .ok r)
    (hanswer : (s.response r).sendable? s.settings.maxFrameLength = none) :
    s.Served (s.dispatch r).2 (frame :: frames) [] ⟨[⟨s.service, s.now, r⟩], [],
      some (((s.response r).refusal s.settings.maxFrameLength).tooLarge
        s.settings.maxFrameLength), (s.dispatch r).2.catalog⟩ where
  talks := .unsendable hframe hanswer
  settings := rfl
  catalog := rfl
  sent := rfl
  total := rfl
  success := rfl
  error := rfl
  readings k a ha := by
    obtain ⟨rfl, rfl⟩ : k = 0 ∧ ⟨s.service, s.now, r⟩ = a := by
      simpa [List.getElem?_singleton] using ha
    rfl
  tasks q hq := by
    obtain ⟨-, -, -, hruns⟩ := hq.dispatch r
    exact hruns

/-- A request that is answered, and then the rest. -/
theorem cons {frame : Bytes} {r : Request} {answer : Response}
    (hframe : Wire.decode frame = .ok r)
    (hanswer : (s.response r).sendable? s.settings.maxFrameLength = some answer)
    (h : (s.answered r answer).Served s' frames bytes t) :
    s.Served s' (frame :: frames) (Frame.frame (Wire.encode answer) ++ bytes)
      (t.cons ⟨s.service, s.now, r⟩ answer) where
  talks := .answered hframe hanswer h.talks
  settings := h.settings
  catalog := h.catalog
  sent := by rw [h.sent]; rfl
  total := by
    have htotal := h.total
    rw [requestsTotal_answered] at htotal
    simp only [Talk.cons, List.length_cons]
    omega
  success := by
    have hsuccess := h.success
    rw [requestsSuccess_answered] at hsuccess
    simp only [Talk.cons, List.countP_cons, List.countP_nil] at hsuccess ⊢
    omega
  error := by
    have herror := h.error
    rw [requestsError_answered] at herror
    simp only [Talk.cons, List.countP_cons, List.countP_nil] at herror ⊢
    omega
  readings k a ha := by
    cases k with
    | zero =>
      obtain rfl : ⟨s.service, s.now, r⟩ = a := Option.some.inj ha
      rfl
    | succ k =>
      have hk := h.readings k a ha
      rw [requestsTotal_answered] at hk
      omega
  tasks q hq := h.tasks _ (hq.answered r answer)

/-- Frames and further frames, when there is no failure between them. -/
theorem append (h : s.Served s₁ frames sent t) (hnone : t.failure = none)
    (hmore : s₁.Served s' more bytes u) :
    s.Served s' (frames ++ more) (sent ++ bytes) (t.append u) where
  talks := by
    have htalks := hmore.talks
    rw [service, h.settings, h.catalog] at htalks
    exact h.talks.append hnone htalks
  settings := hmore.settings.trans h.settings
  catalog := hmore.catalog
  sent := by rw [h.sent, hmore.sent, Talk.append, List.flatMap_append]
  total := by
    rw [hmore.total, h.total, Talk.append, List.length_append]
    omega
  success := by
    rw [hmore.success, h.success, Talk.append, List.countP_append]
    omega
  error := by
    rw [hmore.error, h.error, Talk.append, List.countP_append]
    omega
  readings k a ha := by
    -- every request up to here was answered, so the place among the later ones is counted right
    have hall : t.responses.length = frames.length := h.talks.failure_eq_none_iff.1 hnone
    have hlength := h.talks.length_responses
    rw [Talk.append] at ha
    by_cases hk : k < t.arrivals.length
    · rw [List.getElem?_append_left hk] at ha
      exact h.readings k a ha
    · rw [List.getElem?_append_right (by omega)] at ha
      have hlater := hmore.readings _ a ha
      rw [h.total] at hlater
      omega
  tasks q hq := by
    have hlater := hmore.tasks _ (h.tasks q hq)
    rw [h.catalog, h.talks.catalog_eq] at hlater
    rwa [Talk.append, Catalog.tasks_append, TaskQueue.runInTurn_append]

/-- Frames behind a failure make no difference. -/
theorem append_of_failed (h : s.Served s' frames sent t) (hfailed : t.failure ≠ none)
    (more : List Bytes) : s.Served s' (frames ++ more) sent t :=
  { h with talks := h.talks.append_of_failed hfailed more }

/-- The bytes that came in are counted apart from the requests. -/
theorem of_counting {chunk : Bytes} (h : (s.counting chunk).Served s' frames sent t) :
    s.Served s' frames sent t :=
  ⟨h.talks, h.settings, h.catalog, h.sent, h.total, h.success, h.error, h.readings,
    fun q hq => h.tasks q ⟨hq.idle, hq.counters⟩⟩

/-- So are the connections. -/
theorem close (h : s.Served s' frames sent t) (c : Connection) (ending : Ending) :
    s.Served (s'.close c ending).2 frames sent t :=
  ⟨h.talks, h.settings, h.catalog, h.sent, h.total, h.success, h.error, h.readings, fun q hq =>
    have hruns := h.tasks q hq
    ⟨hruns.idle, hruns.counters⟩⟩

end Served

/-- **What answering frames makes of a server.** -/
theorem answerAll_served {s : Server} (hlimit : s.settings.maxFrameLength < UInt32.size)
    (frames : List Bytes) :
    ∃ t sent s', s.answerAll frames = (sent, t.failure, s') ∧ s.Served s' frames sent t := by
  induction frames generalizing s with
  | nil => exact ⟨_, _, _, rfl, .nil s⟩
  | cons frame frames ih =>
    cases hframe : (Wire.decode frame : Except Wire.Fault Request) with
    | error fault =>
      exact ⟨_, _, _, answerAll_cons_of_error (answer_of_fault hframe), .undecodable hframe⟩
    | ok r =>
      cases hanswer : (s.response r).sendable? s.settings.maxFrameLength with
      | none =>
        exact ⟨_, _, _, answerAll_cons_of_error (answer_of_unsendable hframe hanswer),
          .unsendable hframe hanswer⟩
      | some answer =>
        obtain ⟨t, sent, s', hrest, hserved⟩ := ih (s := s.answered r answer) hlimit
        refine ⟨_, _, _, ?_, .cons hframe hanswer hserved⟩
        rw [answerAll_cons_of_ok (answer_of_sendable hlimit hframe hanswer), hrest]
        rfl

end Server

/-! ### Chunks -/

namespace Frame

/-- How a connection ends on which this arrives: with what could not be answered, with a fault, in
the middle of a frame, or well. -/
def Drained.ending (d : Drained) (failure : Option Failure) : Ending :=
  match failure.or (d.fault.map (·.failure)) with
  | some f => .failed f
  | none =>
    if d.rest.isEmpty then .finished
    else .failed ⟨.decode, s!"peer closed mid-frame ({d.rest.length} bytes buffered)"⟩

@[simp] theorem Drained.ending_some (d : Drained) (f : Failure) :
    d.ending (some f) = .failed f := rfl

theorem Drained.ending_of_fault {d : Drained} {fault : Fault} (h : d.fault = some fault)
    (failure : Option Failure) : d.ending failure = .failed (failure.getD fault.failure) := by
  rw [ending, h]
  cases failure <;> rfl

theorem Drained.ending_eq_finished_iff {d : Drained} {failure : Option Failure} :
    d.ending failure = .finished ↔ failure = none ∧ d.fault = none ∧ d.rest = [] := by
  rw [ending]
  cases failure <;> cases d.fault <;> simp

end Frame

namespace Server
variable {s : Server} {c : Connection}

theorem serve_of_ended {ending : Ending} (h : c.ending = some ending) (chunks : List Bytes) :
    s.serve c chunks = ([], c, s) := by
  induction chunks with
  | nil => rw [serve, endOfStream, h]; rfl
  | cons chunk chunks ih => rw [serve, receive, h]; simp [ih]

/-- At the end of the stream nothing is left to be answered. -/
theorem endOfStream_served (hopen : c.ending = none) :
    s.Served (s.endOfStream c).2 [] [] ⟨[], [], none, s.catalog⟩ ∧
      (s.endOfStream c).1.ending = some (Frame.Drained.ending ⟨[], none, c.inbound⟩ none) := by
  rw [endOfStream, hopen, Frame.Drained.ending]
  by_cases hempty : c.inbound.isEmpty
  · simp only [Option.isSome_none, Bool.false_eq_true, if_false, hempty, if_true]
    exact ⟨(Served.nil s).close c _, rfl⟩
  · simp only [Option.isSome_none, Bool.false_eq_true, if_false, hempty]
    exact ⟨(Served.nil s).close c _, rfl⟩

theorem serve_cons {chunk sent : Bytes} {c' : Connection} {s' : Server}
    (h : s.receive c chunk = (sent, c', s')) (chunks : List Bytes) :
    s.serve c (chunk :: chunks) = (sent ++ (s'.serve c' chunks).1, (s'.serve c' chunks).2) := by
  rw [serve, h]

/-- Nothing is taken from a connection that has ended. -/
theorem serve_cons_of_ended {chunk sent : Bytes} {c' : Connection} {s' : Server} {ending : Ending}
    (h : s.receive c chunk = (sent, c', s')) (hended : c'.ending = some ending)
    (chunks : List Bytes) : s.serve c (chunk :: chunks) = (sent, c', s') := by
  rw [serve_cons h, serve_of_ended hended, List.append_nil]

/-- **What a chunk makes of a server.** The connection ends for a failure or a fault, or else it goes
on with the rest. -/
theorem receive_served (hlimit : s.settings.maxFrameLength < UInt32.size) (hopen : c.ending = none)
    (chunk : Bytes) :
    ∃ t sent c' s', s.receive c chunk = (sent, c', s') ∧
      s.Served s' (s.drained c chunk).frames sent t ∧
      ((t.failure ≠ none ∨ (s.drained c chunk).fault ≠ none) ∧
          c'.ending = some ((s.drained c chunk).ending t.failure) ∨
        t.failure = none ∧ (s.drained c chunk).fault = none ∧
          c' = ⟨(s.drained c chunk).rest, none⟩) := by
  obtain ⟨t, sent, s₁, hanswers, hserved⟩ :=
    answerAll_served (s := s.counting chunk) hlimit (s.drained c chunk).frames
  have hserved := hserved.of_counting
  cases hfailure : t.failure with
  | some f =>
    rw [hfailure] at hanswers
    refine ⟨t, sent, _, _, receive_of_failed hopen hanswers, hserved.close c (.failed f),
      .inl ⟨.inl (by rw [hfailure]; exact nofun), ?_⟩⟩
    rw [hfailure, Frame.Drained.ending_some]
  | none =>
    rw [hfailure] at hanswers
    cases hfault : (s.drained c chunk).fault with
    | some fault =>
      refine ⟨t, sent, _, _, receive_of_fault hopen hfault hanswers,
        hserved.close c (.failed fault.failure), .inl ⟨.inr nofun, ?_⟩⟩
      rw [hfailure, Frame.Drained.ending_of_fault hfault]
      rfl
    | none =>
      exact ⟨t, sent, _, _, receive_of_answered hopen hfault hanswers, hserved,
        .inr ⟨hfailure, rfl, rfl⟩⟩

/-- When the connection has ended, what more there is of the stream makes no difference. -/
theorem Served.append_of_ended {s' : Server} {chunk sent : Bytes} {t : Talk}
    (h : s.Served s' (s.drained c chunk).frames sent t)
    (hended : t.failure ≠ none ∨ (s.drained c chunk).fault ≠ none) (more : Bytes) :
    s.Served s' (s.drained c (chunk ++ more)).frames sent t ∧
      (s.drained c (chunk ++ more)).ending t.failure = (s.drained c chunk).ending t.failure := by
  rw [drained, ← List.append_assoc]
  cases hfault : (s.drained c chunk).fault with
  | some fault =>
    obtain ⟨hframes, hlater⟩ := Frame.drain_append_of_fault hfault more
    rw [hframes, Frame.Drained.ending_of_fault hlater, Frame.Drained.ending_of_fault hfault]
    exact ⟨h, rfl⟩
  | none =>
    have hfailed : t.failure ≠ none := hended.resolve_right fun hne => hne hfault
    obtain ⟨frames, hframes⟩ :=
      Frame.frames_drain_append (c.inbound ++ chunk) more
    rw [hframes]
    refine ⟨h.append_of_failed hfailed frames, ?_⟩
    obtain ⟨f, hf⟩ := Option.ne_none_iff_exists'.1 hfailed
    rw [hf, Frame.Drained.ending_some, Frame.Drained.ending_some]

/-- **What a connection makes of a server.** Between two chunks the buffer holds no complete frame;
so what the chunks make of it is what the frames of all the bytes make. -/
theorem serve_served (hlimit : s.settings.maxFrameLength < UInt32.size) (hopen : c.ending = none)
    (hdrained : s.drained c [] = ⟨[], none, c.inbound⟩) (chunks : List Bytes) :
    ∃ t sent c' s', s.serve c chunks = (sent, c', s') ∧
      s.Served s' (s.drained c chunks.flatten).frames sent t ∧
      c'.ending = some ((s.drained c chunks.flatten).ending t.failure) := by
  induction chunks generalizing s c with
  | nil =>
    obtain ⟨hserved, hending⟩ := endOfStream_served (s := s) hopen
    rw [List.flatten_nil, hdrained]
    exact ⟨_, _, _, _, rfl, hserved, hending⟩
  | cons chunk chunks ih =>
    obtain ⟨t, sent, c₁, s₁, hreceive, hserved, ⟨hended, hending⟩ | ⟨hfailure, hfault, rfl⟩⟩ :=
      receive_served hlimit hopen chunk
    · -- the chunk has ended the connection, and the later ones are not taken
      obtain ⟨hwhole, hsame⟩ := hserved.append_of_ended hended chunks.flatten
      refine ⟨t, sent, c₁, s₁, serve_cons_of_ended hreceive hending chunks, hwhole, ?_⟩
      rw [hending, List.flatten_cons, hsame]
    · -- the buffer holds no complete frame now, so the later chunks go on from there
      have hrest : s₁.drained ⟨(s.drained c chunk).rest, none⟩ [] =
          ⟨[], none, (s.drained c chunk).rest⟩ := by
        rw [drained, hserved.settings, List.append_nil]
        exact Frame.drain_rest hfault
      obtain ⟨u, bytes, c', s', hgoes, hmore, hending⟩ :=
        ih (by rw [hserved.settings]; exact hlimit) rfl hrest
      have hwhole := Frame.drain_append_of_no_fault hfault chunks.flatten
      rw [drained, hserved.settings] at hmore hending
      refine ⟨t.append u, sent ++ bytes, c', s', ?_, ?_, ?_⟩
      · rw [serve_cons hreceive, hgoes]
      · rw [List.flatten_cons, drained, ← List.append_assoc, hwhole]
        exact hserved.append hfailure hmore
      · rw [List.flatten_cons, drained, ← List.append_assoc, hwhole]
        exact hending

end Server
end KeyedRows
