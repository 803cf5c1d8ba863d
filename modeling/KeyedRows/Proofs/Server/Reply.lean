/-
# What is sent for a response

A response that does not fit a frame is replaced by a failure that says so. The
replacement has to fit a frame as well, and it is no short message: with the
number and the operation of the request and the two sizes in its text it takes 63
bytes and as many as both sizes have digits (`length_encode_refusal`). A limit
from 85 on always leaves room for it. Below that there are responses for which
neither fits, and then nothing is sent and the connection ends.

Main statement: `receive_answers_iff`, a request is answered exactly if its
response or the replacement fits.
-/

import KeyedRows.Proofs.Frame.RoundTrip
import KeyedRows.Proofs.Service.Transparency
import KeyedRows.Server.Basic

namespace KeyedRows

/-! ### How long a failure is -/

namespace Utf8

theorem length_encode (s : String) : (encode s).length = s.utf8ByteSize := by
  rw [encode, Array.length_toList]
  exact String.size_toByteArray

/-- A digit is one byte. -/
theorem utf8Size_of_mem_toDigits {n : Nat} {c : Char} (h : c ∈ Nat.toDigits 10 n) :
    c.utf8Size = 1 := by
  have hdigit := Nat.isDigit_of_mem_toDigits (by decide) (by decide) h
  simp only [Char.isDigit, Bool.and_eq_true, decide_eq_true_eq] at hdigit
  rw [Char.utf8Size_eq_one_iff]
  exact Nat.le_trans (UInt32.le_iff_toNat_le.1 hdigit.2) (by decide)

theorem utf8ByteSize_ofList {cs : List Char} (h : ∀ c ∈ cs, c.utf8Size = 1) :
    (String.ofList cs).utf8ByteSize = cs.length := by
  induction cs with
  | nil => rfl
  | cons c cs ih =>
    obtain ⟨hfirst, hrest⟩ := List.forall_mem_cons.1 h
    rw [String.ofList_cons, String.utf8ByteSize_append, String.utf8ByteSize_singleton, hfirst,
      ih hrest, List.length_cons, Nat.add_comm]

/-- A number has as many bytes as digits. -/
theorem utf8ByteSize_repr (n : Nat) : n.repr.utf8ByteSize = n.repr.length := by
  rw [Nat.repr_eq_ofList_toDigits, String.length_ofList,
    utf8ByteSize_ofList fun _ => utf8Size_of_mem_toDigits]

end Utf8

theorem Frame.Fault.message_tooLarge (size limit : Nat) :
    (tooLarge size limit).message =
      "frame of " ++ size.repr ++ " bytes exceeds limit " ++ limit.repr := by
  unfold message
  rfl

theorem Frame.Fault.utf8ByteSize_message (size limit : Nat) :
    (tooLarge size limit).message.utf8ByteSize =
      30 + size.repr.length + limit.repr.length := by
  have hfront : "frame of ".utf8ByteSize = 9 := rfl
  have hmiddle : " bytes exceeds limit ".utf8ByteSize = 21 := rfl
  rw [message_tooLarge]
  simp only [String.utf8ByteSize_append, Utf8.utf8ByteSize_repr, hfront, hmiddle]
  omega

theorem Failure.length_encode (f : Failure) :
    (Wire.encode f).length = 12 + f.message.utf8ByteSize := by
  have hwrite : Wire.encode f = Wire.writeVariant (FailureKind.all.idxOf f.kind) ++
      (Wire.writeLength (Utf8.encode f.message).length ++ Utf8.encode f.message) := rfl
  rw [hwrite]
  simp only [List.length_append, Wire.writeVariant, Wire.writeLength, Bytes.length_ofNat,
    Utf8.length_encode]
  omega

namespace Response

@[simp] theorem id_ofOutcome (id : UInt64) (operation : Operation) (o : Except Failure Bytes) :
    (ofOutcome id operation o).id = id := by
  cases o <;> rfl

@[simp] theorem operation_ofOutcome (id : UInt64) (operation : Operation)
    (o : Except Failure Bytes) : (ofOutcome id operation o).operation = operation := by
  cases o <;> rfl

theorem length_encode_error (id : UInt64) (operation : Operation) (f : Failure) :
    (Wire.encode (ofOutcome id operation (.error f))).length = 33 + f.message.utf8ByteSize := by
  have hwrite : Wire.encode (ofOutcome id operation (.error f)) = Bytes.ofNat 8 id.toNat ++
      (Wire.writeVariant (Operation.all.idxOf operation) ++
        (Wire.writeBlob [] ++ (1 :: Wire.encode f))) := rfl
  have hfailure := f.length_encode
  rw [hwrite]
  simp only [List.length_append, List.length_cons, List.length_nil, Wire.writeBlob,
    Wire.writeVariant, Wire.writeLength, Bytes.length_ofNat, hfailure]
  omega

/-! ### Instead of a response -/

/-- That a response is too long for a frame. -/
def tooLarge (limit : Nat) (r : Response) : Failure :=
  (Frame.Fault.tooLarge (Wire.encode r).length limit).failure

/-- What the peer is told instead of a response over the limit. -/
def refusal (limit : Nat) (r : Response) : Response :=
  .ofOutcome r.id r.operation (.error (r.tooLarge limit))

/-- What is sent for a response: itself if it fits, and otherwise the refusal if that fits. -/
def sendable? (limit : Nat) (r : Response) : Option Response :=
  if (Wire.encode r).length ≤ limit then some r
  else if (Wire.encode (r.refusal limit)).length ≤ limit then some (r.refusal limit)
  else none

section Sendable
variable {limit : Nat} {r sent : Response}

/-- **The refusal takes room itself**, the more the longer the numbers in it are. -/
theorem length_encode_refusal (limit : Nat) (r : Response) :
    (Wire.encode (r.refusal limit)).length =
      63 + (Wire.encode r).length.repr.length + limit.repr.length := by
  rw [refusal, length_encode_error]
  show 33 + (Frame.Fault.tooLarge _ _).message.utf8ByteSize = _
  rw [Frame.Fault.utf8ByteSize_message]
  omega

/-- Sizes below `2 ^ 64` have twenty digits at most, and then 85 bytes are enough for every
limit. -/
theorem length_encode_refusal_le (hlimit : 85 ≤ limit)
    (hsize : (Wire.encode r).length < UInt64.size) (hword : limit < UInt32.size) :
    (Wire.encode (r.refusal limit)).length ≤ limit := by
  have hdigits : (Wire.encode r).length.repr.length ≤ 20 :=
    (Nat.length_repr_le_iff (by decide)).2 (Nat.lt_trans hsize (by decide))
  rw [length_encode_refusal]
  by_cases htwo : limit < 100
  · have htwoDigits : limit.repr.length ≤ 2 := (Nat.length_repr_le_iff (by decide)).2 htwo
    omega
  · have htenDigits : limit.repr.length ≤ 10 :=
      (Nat.length_repr_le_iff (by decide)).2 (Nat.lt_trans hword (by decide))
    omega

theorem sendable?_eq_some_iff :
    r.sendable? limit = some sent ↔
      (Wire.encode r).length ≤ limit ∧ sent = r ∨
        limit < (Wire.encode r).length ∧ (Wire.encode (r.refusal limit)).length ≤ limit ∧
          sent = r.refusal limit := by
  rw [sendable?]
  by_cases hfits : (Wire.encode r).length ≤ limit
  · simp [hfits, Nat.not_lt.2 hfits, eq_comm]
  by_cases hrefusal : (Wire.encode (r.refusal limit)).length ≤ limit
  · simp [hfits, hrefusal, Nat.lt_of_not_le hfits, eq_comm]
  · simp [hfits, hrefusal]

theorem sendable?_eq_none_iff :
    r.sendable? limit = none ↔
      limit < (Wire.encode r).length ∧ limit < (Wire.encode (r.refusal limit)).length := by
  rw [sendable?]
  by_cases hfits : (Wire.encode r).length ≤ limit
  · simp [hfits, Nat.not_lt.2 hfits]
  by_cases hrefusal : (Wire.encode (r.refusal limit)).length ≤ limit
  · simp [hfits, hrefusal, Nat.not_lt.2 hrefusal]
  · simp [hfits, hrefusal, Nat.lt_of_not_le hfits, Nat.lt_of_not_le hrefusal]

/-- Whatever is sent fits, and repeats the number and the operation of the response. -/
theorem of_sendable? (h : r.sendable? limit = some sent) :
    (Wire.encode sent).length ≤ limit ∧ sent.id = r.id ∧ sent.operation = r.operation := by
  obtain ⟨hfits, rfl⟩ | ⟨-, hfits, rfl⟩ := sendable?_eq_some_iff.1 h
  · exact ⟨hfits, rfl, rfl⟩
  · exact ⟨hfits, rfl, rfl⟩

end Sendable
end Response

/-! ### Replies -/

namespace Server
variable {s : Server}

/-- **A reply is the frame of what is sent**, and it is counted by what was sent. -/
theorem reply_of_sendable {r sent : Response} (hlimit : s.settings.maxFrameLength < UInt32.size)
    (h : r.sendable? s.settings.maxFrameLength = some sent) :
    s.reply r = (.ok (Frame.frame (Wire.encode sent)),
      s.recordReply sent.failure.isNone (Frame.frame (Wire.encode sent))) := by
  rw [reply]
  obtain ⟨hfits, rfl⟩ | ⟨hlarge, hfits, rfl⟩ := Response.sendable?_eq_some_iff.1 h
  · rw [Frame.push_of_fits hfits (Nat.lt_of_le_of_lt hfits hlimit)]
    rfl
  · rw [Frame.push_of_not_fits (by omega)]
    simp only
    rw [← Response.tooLarge, ← Response.refusal,
      Frame.push_of_fits hfits (Nat.lt_of_le_of_lt hfits hlimit)]
    rfl

/-- When not even the refusal fits there is no reply, and nothing is counted. -/
theorem reply_of_unsendable {r : Response} (h : r.sendable? s.settings.maxFrameLength = none) :
    s.reply r = (.error
      ((r.refusal s.settings.maxFrameLength).tooLarge s.settings.maxFrameLength), s) := by
  obtain ⟨hlarge, hrefusal⟩ := Response.sendable?_eq_none_iff.1 h
  rw [reply, Frame.push_of_not_fits (by omega)]
  simp only
  rw [← Response.tooLarge, ← Response.refusal, Frame.push_of_not_fits (by omega)]
  rfl

/-! ### Requests -/

/-- What can be read of the counters and the clock while a request runs. -/
def now (s : Server) : Readings :=
  { s.readings with queue := { s.queue with submitted := s.queue.submitted + 1 } }

/-- The service behind the server. -/
def service (s : Server) : Service := Service.standard s.settings.lenient

/-- The response to a request, which may be too long for a frame. -/
def response (s : Server) (r : Request) : Response := s.service.respond s.now r s.catalog

theorem id_response (s : Server) (r : Request) : (s.response r).id = r.id :=
  Response.id_ofOutcome _ _ _

theorem operation_response (s : Server) (r : Request) : (s.response r).operation = r.operation :=
  Response.operation_ofOutcome _ _ _

/-- The server after a request that was answered. -/
def answered (s : Server) (r : Request) (sent : Response) : Server :=
  (s.dispatch r).2.recordReply sent.failure.isNone (Frame.frame (Wire.encode sent))

section Answer
variable {frame : Bytes} {r : Request} {sent : Response}

theorem answer_of_fault {fault : Wire.Fault}
    (hframe : (Wire.decode frame : Except Wire.Fault Request) = .error fault) :
    s.answer frame = (.error fault.failure, s) := by
  rw [answer, hframe]

/-- **A request is answered by the frame of what is sent for its response.** -/
theorem answer_of_sendable (hlimit : s.settings.maxFrameLength < UInt32.size)
    (hframe : Wire.decode frame = .ok r)
    (h : (s.response r).sendable? s.settings.maxFrameLength = some sent) :
    s.answer frame = (.ok (Frame.frame (Wire.encode sent)), s.answered r sent) := by
  have hreply := reply_of_sendable (s := (s.dispatch r).2) hlimit h
  rw [answer, hframe]
  exact hreply

/-- A request whose answer cannot be sent is carried out nevertheless. -/
theorem answer_of_unsendable (hframe : Wire.decode frame = .ok r)
    (h : (s.response r).sendable? s.settings.maxFrameLength = none) :
    s.answer frame = (.error (((s.response r).refusal s.settings.maxFrameLength).tooLarge
      s.settings.maxFrameLength), (s.dispatch r).2) := by
  have hreply := reply_of_unsendable (s := (s.dispatch r).2) h
  rw [answer, hframe]
  exact hreply

end Answer

theorem answerAll_cons_of_ok {frame sent : Bytes} {frames : List Bytes} {t : Server}
    (h : s.answer frame = (.ok sent, t)) :
    s.answerAll (frame :: frames) =
      (sent ++ (t.answerAll frames).1, (t.answerAll frames).2.1, (t.answerAll frames).2.2) := by
  rw [answerAll, h]

theorem answerAll_cons_of_error {frame : Bytes} {frames : List Bytes} {f : Failure} {t : Server}
    (h : s.answer frame = (.error f, t)) :
    s.answerAll (frame :: frames) = ([], some f, t) := by
  rw [answerAll, h]

/-! ### Chunks -/

/-- The server once a chunk has come in and is counted. -/
def counting (s : Server) (chunk : Bytes) : Server :=
  { s with counters := { s.counters with
    bytesReceived := s.counters.bytesReceived + chunk.length } }

/-- What is in the buffer of a connection once a chunk has come in. -/
def drained (s : Server) (c : Connection) (chunk : Bytes) : Frame.Drained :=
  Frame.drain s.settings.maxFrameLength (c.inbound ++ chunk)

section Receive
variable {c : Connection} {chunk sent : Bytes} {t : Server}

/-- What a chunk brings is answered, and the connection ends if not all of it could be. -/
theorem receive_of_open {failure : Option Failure} (hopen : c.ending = none)
    (h : (s.counting chunk).answerAll (s.drained c chunk).frames = (sent, failure, t)) :
    s.receive c chunk =
      match failure.or ((s.drained c chunk).fault.map (·.failure)) with
      | some f => (sent, t.close ⟨(s.drained c chunk).rest, none⟩ (.failed f))
      | none => (sent, ⟨(s.drained c chunk).rest, none⟩, t) := by
  rw [receive, hopen]
  simp only [Option.isSome_none, Bool.false_eq_true, if_false]
  rw [← drained, ← counting]
  generalize (s.counting chunk).answerAll (s.drained c chunk).frames = answers at h
  subst h
  rfl

theorem receive_of_answered (hopen : c.ending = none) (hfault : (s.drained c chunk).fault = none)
    (h : (s.counting chunk).answerAll (s.drained c chunk).frames = (sent, none, t)) :
    s.receive c chunk = (sent, ⟨(s.drained c chunk).rest, none⟩, t) := by
  rw [receive_of_open hopen h, hfault]
  rfl

theorem receive_of_failed {f : Failure} (hopen : c.ending = none)
    (h : (s.counting chunk).answerAll (s.drained c chunk).frames = (sent, some f, t)) :
    s.receive c chunk = (sent, t.close ⟨(s.drained c chunk).rest, none⟩ (.failed f)) :=
  receive_of_open hopen h

theorem receive_of_fault {fault : Frame.Fault} (hopen : c.ending = none)
    (hfault : (s.drained c chunk).fault = some fault)
    (h : (s.counting chunk).answerAll (s.drained c chunk).frames = (sent, none, t)) :
    s.receive c chunk =
      (sent, t.close ⟨(s.drained c chunk).rest, none⟩ (.failed fault.failure)) := by
  rw [receive_of_open hopen h, hfault]
  rfl

end Receive

/-- **One answer to a request.** The chunk that completes the request is answered by one frame
within the limit, with the number and the operation of the request, and the connection goes on with
what is left. -/
structure Answers (s : Server) (c : Connection) (chunk rest : Bytes) (r : Request)
    (sent : Response) : Prop where
  bytes : (s.receive c chunk).1 = Frame.frame (Wire.encode sent)
  goes_on : (s.receive c chunk).2.1 = ⟨rest, none⟩
  length_le : (Wire.encode sent).length ≤ s.settings.maxFrameLength
  id : sent.id = r.id
  operation : sent.operation = r.operation
  /-- What was found out is sent if it fits. -/
  fits : (Wire.encode ((s.counting chunk).response r)).length ≤ s.settings.maxFrameLength →
    sent = (s.counting chunk).response r
  /-- Otherwise it is said that it does not. -/
  refused : s.settings.maxFrameLength < (Wire.encode ((s.counting chunk).response r)).length →
    ∃ f, sent.outcome = .error f ∧ f.kind = .tooLarge

section Answers
variable {c : Connection} {chunk frame rest : Bytes} {r : Request} {sent : Response}

theorem Answers.bytes_ne_nil (h : s.Answers c chunk rest r sent) :
    (s.receive c chunk).1 ≠ [] := by
  intro hempty
  rw [h.bytes, Frame.frame] at hempty
  exact Frame.header_ne_nil _ (List.append_eq_nil_iff.1 hempty).1

theorem answers_of_sendable (hlimit : s.settings.maxFrameLength < UInt32.size)
    (hopen : c.ending = none) (hdrained : s.drained c chunk = ⟨[frame], none, rest⟩)
    (hrequest : Wire.decode frame = .ok r)
    (h : ((s.counting chunk).response r).sendable? s.settings.maxFrameLength = some sent) :
    s.Answers c chunk rest r sent := by
  have hanswer : (s.counting chunk).answerAll [frame] = _ :=
    answerAll_cons_of_ok (answer_of_sendable hlimit hrequest h)
  have hframes : (s.drained c chunk).frames = [frame] := by rw [hdrained]
  rw [← hframes] at hanswer
  have hreceive := receive_of_answered hopen (by rw [hdrained]) hanswer
  obtain ⟨hfits, hid, hoperation⟩ := Response.of_sendable? h
  refine ⟨?_, ?_, hfits, hid.trans (id_response _ r), hoperation.trans (operation_response _ r),
    fun hsmall => ?_, fun hlarge => ?_⟩
  · rw [hreceive]
    exact List.append_nil _
  · rw [hreceive, hdrained]
  · obtain ⟨-, heq⟩ | ⟨hlarge, -⟩ := Response.sendable?_eq_some_iff.1 h
    · exact heq
    · omega
  · obtain ⟨hsmall, -⟩ | ⟨-, -, rfl⟩ := Response.sendable?_eq_some_iff.1 h
    · omega
    · exact ⟨_, Response.outcome_ofOutcome _ _ _, rfl⟩

/-- Without an answer there is not a byte, and the connection has ended. -/
theorem receive_of_unsendable (hopen : c.ending = none)
    (hdrained : s.drained c chunk = ⟨[frame], none, rest⟩) (hrequest : Wire.decode frame = .ok r)
    (h : ((s.counting chunk).response r).sendable? s.settings.maxFrameLength = none) :
    (s.receive c chunk).1 = [] ∧
      ∃ f, (s.receive c chunk).2.1.ending = some (.failed f) ∧ f.kind = .tooLarge := by
  have hanswer : (s.counting chunk).answerAll [frame] = _ :=
    answerAll_cons_of_error (answer_of_unsendable hrequest h)
  have hframes : (s.drained c chunk).frames = [frame] := by rw [hdrained]
  rw [← hframes] at hanswer
  rw [receive_of_failed hopen hanswer]
  exact ⟨rfl, _, rfl, rfl⟩

/-- **When a request is answered.** On an open connection of a server with settings that are
accepted, a chunk completes the frame of a request. There is one answer, and the connection goes on,
exactly if the response fits or the failure that takes its place does; that has 63 bytes and as many
as the two sizes in it have digits. From a limit of 85 bytes on it always fits. Otherwise not a byte
is sent and the connection ends. -/
theorem receive_answers_iff (hcheck : s.settings.check = .ok ()) (hopen : c.ending = none)
    (hdrained : s.drained c chunk = ⟨[frame], none, rest⟩) (hrequest : Wire.decode frame = .ok r) :
    let limit := s.settings.maxFrameLength
    let size := (Wire.encode ((s.counting chunk).response r)).length
    ((∃ sent, s.Answers c chunk rest r sent) ↔
        size ≤ limit ∨ 63 + size.repr.length + limit.repr.length ≤ limit) ∧
      (85 ≤ limit → size < UInt64.size → ∃ sent, s.Answers c chunk rest r sent) ∧
      ((¬ ∃ sent, s.Answers c chunk rest r sent) → (s.receive c chunk).1 = [] ∧
        ∃ f, (s.receive c chunk).2.1.ending = some (.failed f) ∧ f.kind = .tooLarge) := by
  intro limit size
  have hlimit : limit < UInt32.size := by
    obtain ⟨-, -, -, -, hlt⟩ := Settings.check_eq_ok_iff.1 hcheck
    exact hlt
  have hrefusal := ((s.counting chunk).response r).length_encode_refusal limit
  have hsendable : ∀ sent, ((s.counting chunk).response r).sendable? limit = some sent →
      ∃ sent, s.Answers c chunk rest r sent := fun sent h =>
    ⟨sent, answers_of_sendable hlimit hopen hdrained hrequest h⟩
  have hunsendable : ((s.counting chunk).response r).sendable? limit = none →
      (s.receive c chunk).1 = [] ∧
        ∃ f, (s.receive c chunk).2.1.ending = some (.failed f) ∧ f.kind = .tooLarge :=
    receive_of_unsendable hopen hdrained hrequest
  -- there is an answer exactly if something can be sent, and that is a question of two lengths
  cases hsent : ((s.counting chunk).response r).sendable? limit with
  | some sent =>
    have hanswers := hsendable sent hsent
    refine ⟨⟨fun _ => ?_, fun _ => hanswers⟩, fun _ _ => hanswers,
      fun hnone => absurd hanswers hnone⟩
    obtain ⟨hfits, -⟩ | ⟨-, hfits, -⟩ := Response.sendable?_eq_some_iff.1 hsent
    · exact .inl hfits
    · exact .inr (hrefusal ▸ hfits)
  | none =>
    obtain ⟨hlarge, hlarger⟩ : limit < size ∧ limit < _ := Response.sendable?_eq_none_iff.1 hsent
    have hshort : limit < 63 + size.repr.length + limit.repr.length := hrefusal ▸ hlarger
    have hnone := hunsendable hsent
    have hnever : ¬ ∃ sent, s.Answers c chunk rest r sent := by
      rintro ⟨sent, hanswers⟩
      exact hanswers.bytes_ne_nil hnone.1
    refine ⟨⟨fun hanswers => absurd hanswers hnever, fun hfits => ?_⟩, fun hroom hsize => ?_,
      fun _ => hnone⟩
    · omega
    · have := Response.length_encode_refusal_le hroom hsize hlimit
      omega

end Answers

/-- A server without databases. -/
def limited (limit : Nat) : Server :=
  ⟨{ Settings.initial 2 with maxFrameLength := limit }, Catalog.empty default, default, default,
    "", 0⟩

/-- A query of a database that is not there. -/
def lostQuery (database : String) : Request := ⟨7, ⟨database, ""⟩, .query, []⟩

/-- With a limit of 85 bytes the query is answered, although the response is longer. -/
theorem limited_answers_lostQuery :
    let s := limited 85
    let r := lostQuery "a database whose name takes up many letters"
    let chunk := Frame.frame (Wire.encode r)
    (s.settings.check = .ok () ∧ s.drained ⟨[], none⟩ chunk = ⟨[Wire.encode r], none, []⟩ ∧
        Wire.decode (Wire.encode r) = .ok r) ∧
      85 < (Wire.encode ((s.counting chunk).response r)).length ∧
      ∃ sent, s.Answers ⟨[], none⟩ chunk [] r sent := by
  intro s r chunk
  have hdrained : s.drained ⟨[], none⟩ chunk = ⟨[Wire.encode r], none, []⟩ := by decide +kernel
  have hrequest : Wire.decode (Wire.encode r) = .ok r :=
    Wire.decode_encode (by decide +kernel)
  obtain ⟨-, hroom, -⟩ := receive_answers_iff (s := s) (c := ⟨[], none⟩) rfl rfl hdrained hrequest
  exact ⟨⟨rfl, hdrained, hrequest⟩, by decide +kernel, hroom (by decide) (by decide +kernel)⟩

/-- With a limit of 64 bytes neither the response, of 68 bytes, nor the failure in its place, of 67
bytes, fits a frame: the query is not answered and the connection ends. -/
theorem limited_ignores_lostQuery :
    let s := limited 64
    let r := lostQuery "abcdefghijklmnopqrstuvwx"
    let chunk := Frame.frame (Wire.encode r)
    (s.settings.check = .ok () ∧ s.drained ⟨[], none⟩ chunk = ⟨[Wire.encode r], none, []⟩ ∧
        Wire.decode (Wire.encode r) = .ok r) ∧
      (s.receive ⟨[], none⟩ chunk).1 = [] ∧
      (s.receive ⟨[], none⟩ chunk).2.1.ending =
        some (.failed ⟨.tooLarge, "frame of 67 bytes exceeds limit 64"⟩) ∧
      ¬ ∃ sent, s.Answers ⟨[], none⟩ chunk [] r sent := by
  intro s r chunk
  have hdrained : s.drained ⟨[], none⟩ chunk = ⟨[Wire.encode r], none, []⟩ := by decide +kernel
  have hrequest : Wire.decode (Wire.encode r) = .ok r :=
    Wire.decode_encode (by decide +kernel)
  have hsilent : (s.receive ⟨[], none⟩ chunk).1 = [] := by decide +kernel
  refine ⟨⟨rfl, hdrained, hrequest⟩, hsilent, by decide +kernel, ?_⟩
  rintro ⟨sent, hanswers⟩
  exact hanswers.bytes_ne_nil hsilent

end Server
end KeyedRows
