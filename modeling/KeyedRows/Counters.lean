/-
# Counters

A server counts its connections, its requests and the bytes it moves; a task
queue counts what became of its tasks. A report shows both.

Counts are numbers without a bound. A report has eight bytes for each of them,
and a count kept in so many would begin again at zero after `2 ^ 64` events;
that many are out of reach.
-/

import KeyedRows.Wire.Basic

namespace KeyedRows

/-- What a server counts. -/
structure ServerCounters where
  connectionsTotal : Nat
  connectionsActive : Nat
  requestsTotal : Nat
  requestsSuccess : Nat
  requestsError : Nat
  bytesReceived : Nat
  bytesSent : Nat
deriving DecidableEq, Repr

instance : Inhabited ServerCounters := ⟨⟨0, 0, 0, 0, 0, 0, 0⟩⟩

namespace ServerCounters

/-- Counts a request that was answered, as a success or as an error. -/
def recordRequest (c : ServerCounters) (ok : Bool) : ServerCounters :=
  let c := { c with requestsTotal := c.requestsTotal + 1 }
  if ok then { c with requestsSuccess := c.requestsSuccess + 1 }
  else { c with requestsError := c.requestsError + 1 }

end ServerCounters

/-- What a task queue counts. -/
structure QueueCounters where
  submitted : Nat
  completed : Nat
  failed : Nat
  rejected : Nat
  cancelled : Nat
deriving DecidableEq, Repr

instance : Inhabited QueueCounters := ⟨⟨0, 0, 0, 0, 0⟩⟩

/-- The answer to a request for statistics. -/
structure Report where
  server : ServerCounters
  /-- When the server started, as text. -/
  startTime : String
  uptimeSeconds : Nat
  queue : QueueCounters
  databases : List String
deriving DecidableEq, Repr, Inhabited

/-- A count as a word of eight bytes. -/
private def writeCount (n : Nat) : Bytes := Bytes.ofNat 8 n

private def readCount : Wire.Reader Nat := Wire.readWord 8

instance : Wire ServerCounters where
  write c := writeCount c.connectionsTotal ++ writeCount c.connectionsActive ++
    writeCount c.requestsTotal ++ writeCount c.requestsSuccess ++ writeCount c.requestsError ++
    writeCount c.bytesReceived ++ writeCount c.bytesSent
  read := return ⟨← readCount, ← readCount, ← readCount, ← readCount, ← readCount, ← readCount,
    ← readCount⟩

instance : Wire QueueCounters where
  write c := writeCount c.submitted ++ writeCount c.completed ++ writeCount c.failed ++
    writeCount c.rejected ++ writeCount c.cancelled
  read := return ⟨← readCount, ← readCount, ← readCount, ← readCount, ← readCount⟩

instance : Wire Report where
  write r := Wire.write r.server ++ Wire.write r.startTime ++ writeCount r.uptimeSeconds ++
    Wire.write r.queue ++ Wire.write r.databases
  read := return ⟨← Wire.read, ← Wire.read, ← readCount, ← Wire.read, ← Wire.read⟩

end KeyedRows
