/-
# Serving connections

A server answers the requests of a connection in the order in which they arrive.
Each request runs as a task on the queue, and its outcome goes back as one
frame with the number and the operation of the request. A response over the
frame limit is replaced by a failure that says so. The connection ends at the
first frame that is not acceptable or is no request, and when not even the
failure fits a frame.

Bytes arrive in chunks; `receive` takes one chunk and gives the bytes to send
back. `endOfStream` is the peer closing its side.
-/

import KeyedRows.Frame
import KeyedRows.Server.Network
import KeyedRows.Service
import KeyedRows.Settings.Basic
import KeyedRows.TaskQueue

namespace KeyedRows

/-- A listening server. -/
structure Server where
  settings : Settings
  catalog : Catalog
  counters : ServerCounters
  queue : QueueCounters
  /-- When the server started, and the seconds since, as the clock was last read. -/
  startTime : String
  uptimeSeconds : Nat

/-- Why a connection is no longer served. -/
inductive Ending where
  | finished
  | failed (failure : Failure)
deriving DecidableEq, Repr

/-- The server's side of a connection. -/
structure Connection where
  /-- What was received and is no complete frame yet. -/
  inbound : Bytes
  ending : Option Ending
deriving DecidableEq, Repr

namespace Server

/-- A server with acceptable settings and an address at which it can listen. -/
def bind (network : Network) (settings : Settings) (catalog : Catalog) :
    Except Failure Server := do
  settings.check.mapError SettingsFault.failure
  if !network.bindable settings.bindAddress then throw ⟨.io, "address cannot be bound"⟩
  return ⟨settings, catalog, default, default, "", 0⟩

/-- A server on an empty catalog. -/
def start (network : Network) (settings : Settings) : Except Failure Server :=
  bind network settings (Catalog.empty settings.scanLimits)

/-- Takes a connection in, unless there are as many as may be. -/
def accept (s : Server) : Option Connection × Server :=
  let c := s.counters
  if s.settings.maxConnections ≤ c.connectionsActive then (none, s)
  else
    (some ⟨[], none⟩, { s with counters := { c with
      connectionsTotal := c.connectionsTotal + 1
      connectionsActive := c.connectionsActive + 1 } })

/-- What a report shows at the moment. -/
def readings (s : Server) : Readings := ⟨s.counters, s.startTime, s.uptimeSeconds, s.queue⟩

/-- Runs a request as a task on the idle queue. -/
def dispatch (s : Server) (r : Request) : Response × Server :=
  let s := { s with queue := { s.queue with submitted := s.queue.submitted + 1 } }
  let (outcome, catalog) :=
    (Service.standard s.settings.lenient).execute s.readings r s.catalog
  (.ofOutcome r.id r.operation outcome,
    { s with catalog, queue := TaskQueue.count s.queue outcome })

/-- Counts a request that was answered with the given bytes. -/
def recordReply (s : Server) (ok : Bool) (sent : Bytes) : Server :=
  let c := s.counters.recordRequest ok
  { s with counters := { c with bytesSent := c.bytesSent + sent.length } }

/-- The frame that carries a response, or the failure to send even that it is too large. -/
def reply (s : Server) (r : Response) : Except Failure Bytes × Server :=
  let limit := s.settings.maxFrameLength
  match Frame.push limit (Wire.encode r) [] with
  | (.ok (), frame) => (.ok frame, s.recordReply r.failure.isNone frame)
  | (.error fault, _) =>
    let refusal := Response.ofOutcome r.id r.operation (.error fault.failure)
    match Frame.push limit (Wire.encode refusal) [] with
    | (.ok (), frame) => (.ok frame, s.recordReply false frame)
    | (.error fault, _) => (.error fault.failure, s)

/-- Answers a request that the task queue does not take. The queue counts it if it was full, and it
is not carried out. -/
def turnAway (s : Server) (r : Request) (fault : QueueFault) : Except Failure Bytes × Server :=
  let s := { s with queue := TaskQueue.countRefusal s.queue fault }
  s.reply (.ofOutcome r.id r.operation (.error fault.failure))

/-- The answer to one frame. -/
def answer (s : Server) (frame : Bytes) : Except Failure Bytes × Server :=
  match Wire.decode frame with
  | .error fault => (.error fault.failure, s)
  | .ok request =>
    let (response, s) := s.dispatch request
    s.reply response

/-- The answers to frames one after another, up to the first that ends the connection. -/
def answerAll (s : Server) : List Bytes → Bytes × Option Failure × Server
  | [] => ([], none, s)
  | frame :: frames =>
    match s.answer frame with
    | (.error f, s) => ([], some f, s)
    | (.ok sent, s) =>
      let (more, failure, s) := s.answerAll frames
      (sent ++ more, failure, s)

/-- Ends a connection. -/
def close (s : Server) (c : Connection) (ending : Ending) : Connection × Server :=
  ({ c with ending := some ending },
    { s with counters := { s.counters with
      connectionsActive := s.counters.connectionsActive - 1 } })

/-- Takes a chunk of bytes and gives the bytes to send back. -/
def receive (s : Server) (c : Connection) (chunk : Bytes) : Bytes × Connection × Server :=
  if c.ending.isSome then ([], c, s)
  else
    let s := { s with counters := { s.counters with
      bytesReceived := s.counters.bytesReceived + chunk.length } }
    let d := Frame.drain s.settings.maxFrameLength (c.inbound ++ chunk)
    let (sent, failure, s) := s.answerAll d.frames
    match failure.or (d.fault.map (·.failure)) with
    | some f => (sent, s.close ⟨d.rest, none⟩ (.failed f))
    | none => (sent, ⟨d.rest, none⟩, s)

/-- The peer sends nothing more. Bytes of a frame that will not be complete are a failure. -/
def endOfStream (s : Server) (c : Connection) : Connection × Server :=
  if c.ending.isSome then (c, s)
  else if c.inbound.isEmpty then s.close c .finished
  else
    let n := c.inbound.length
    s.close c (.failed ⟨.decode, s!"peer closed mid-frame ({n} bytes buffered)"⟩)

/-- Serves a connection to its end: the chunks that arrive, then the end of the stream. Gives the
bytes sent back. -/
def serve (s : Server) (c : Connection) : List Bytes → Bytes × Connection × Server
  | [] => ([], s.endOfStream c)
  | chunk :: chunks =>
    let (sent, c, s) := s.receive c chunk
    let (more, c, s) := s.serve c chunks
    (sent ++ more, c, s)

end Server
end KeyedRows
