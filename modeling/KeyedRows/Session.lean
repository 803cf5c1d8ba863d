/-
# Sessions

A server together with the peers that are connected to it. A peer is a client,
which calls, or a bare socket, which writes bytes and reads what comes back.
Whether peers get through to the server at all is a matter of the network: where
they do not, connecting fails and nothing else happens.

Everything is taken at rest: bytes that are written are served before the next
step.
-/

import KeyedRows.Client
import KeyedRows.Server.Basic

namespace KeyedRows

/-- One end of a connection and what the server holds of it. -/
structure Peer where
  name : String
  /-- The client, if the peer is one and not a bare socket. -/
  client : Option Client
  /-- What the server sent and a bare socket has not read. -/
  unread : Bytes
  /-- The server's side; there is none if the connection was not admitted. -/
  connection : Option Connection
  /-- The server has answered on this connection. -/
  answered : Bool

/-- The server no longer serves the peer. -/
def Peer.isClosed (p : Peer) : Bool := p.connection.all (·.ending.isSome)

/-- A server and its peers. -/
structure Session where
  server : Server
  network : Network
  stopped : Bool
  peers : List Peer

/-- Why a step of a session is not possible at all. -/
inductive SessionFault where
  | noClient
  | noSocket
deriving DecidableEq, Repr

namespace Session

/-- A session without peers, with a server on an empty catalog. -/
def start (network : Network) (settings : Settings) : Except Failure Session :=
  return ⟨← Server.start network settings, network, false, []⟩

def peer? (s : Session) (name : String) : Option Peer := s.peers.find? (·.name = name)

/-- Puts a peer in place of the one with its name. -/
def setPeer (s : Session) (p : Peer) : Session :=
  { s with peers := s.peers.filter (·.name ≠ p.name) ++ [p] }

/-- Connects a client, or a bare socket. A connection beyond the server's limit comes about all the
same, but is not served. -/
def connect (s : Session) (name : String) (client : Option Client) :
    Except Failure Unit × Session :=
  if !s.network.connects || s.stopped then (.error ⟨.io, "connection refused"⟩, s)
  else
    let (connection, server) := s.server.accept
    (.ok (), { s with server }.setPeer ⟨name, client, [], connection, false⟩)

/-- The peer writes bytes, and the server serves them. -/
def deliver (s : Session) (p : Peer) (bytes : Bytes) : Peer × Session :=
  match p.connection with
  | none => (p, s)
  | some c =>
    let (sent, c, server) := s.server.receive c bytes
    let p := { p with
      unread := p.unread ++ sent
      connection := some c
      answered := p.answered || !sent.isEmpty }
    (p, { s with server }.setPeer p)

/-- The peer sends nothing more. -/
def finish (s : Session) (p : Peer) : Peer × Session :=
  match p.connection with
  | none => (p, s)
  | some c =>
    let (c, server) := s.server.endOfStream c
    let p := { p with connection := some c }
    (p, { s with server }.setPeer p)

/-- A peer goes away. -/
def close (s : Session) (name : String) : Session :=
  match s.peer? name with
  | none => s
  | some p =>
    let (_, s) := s.finish p
    { s with peers := s.peers.filter (·.name ≠ name) }

/-- A client calls and waits for the answer. -/
def call (s : Session) (name : String) (call : Call) :
    Except SessionFault (Except Failure Answer) × Session :=
  match s.peer? name with
  | none => (.error .noClient, s)
  | some p =>
    match p.client with
    | none => (.error .noClient, s)
    | some client =>
      let id := client.nextId
      match client.send call with
      | (.error f, client) => (.ok (.error f), s.setPeer { p with client := some client })
      | (.ok bytes, client) =>
        let (p, s) := s.deliver { p with client := some client } bytes
        let (result, client) := client.receive call id p.unread p.isClosed
        let s := s.setPeer { p with client := some client, unread := [] }
        (.ok (result.getD (.error ⟨.io, "no answer"⟩)), s)

/-- A bare socket writes bytes, closes its sending side if it is to, and reads what has come back:
the bytes, and whether the server has closed the connection. -/
def exchange (s : Session) (name : String) (bytes : Bytes) (last : Bool) :
    Except SessionFault (Bytes × Bool) × Session :=
  match s.peer? name with
  | none => (.error .noSocket, s)
  | some p =>
    if p.client.isSome then (.error .noSocket, s)
    else
      let (p, s) := s.deliver p bytes
      let (p, s) := if last then s.finish p else (p, s)
      (.ok (p.unread, p.isClosed), s.setPeer { p with unread := [] })

/-- Puts bytes back that a bare socket has not used. -/
def putBack (s : Session) (name : String) (bytes : Bytes) : Session :=
  match s.peer? name with
  | none => s
  | some p => s.setPeer { p with unread := bytes ++ p.unread }

/-- Ends one connection of a server that stops. -/
private def stopPeer (server : Server) (p : Peer) : Peer × Server :=
  match p.connection with
  | none => (p, server)
  | some c =>
    if c.ending.isSome then (p, server)
    else
      let (c, server) := server.close c .finished
      ({ p with connection := some c }, server)

/-- Stops the server: open connections end. A second time there is nothing left to stop. -/
def shutdown (s : Session) : Bool × Session :=
  if s.stopped then (false, s)
  else
    let (peers, server) := s.peers.foldl
      (fun (ps, server) p =>
        let (p, server) := stopPeer server p
        (ps ++ [p], server))
      ([], s.server)
    (true, { s with server, peers, stopped := true })

end Session
end KeyedRows
