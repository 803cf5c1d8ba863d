/-
# The server program

Serves one connection: what arrives on the standard input is received, and what
the server sends back goes to the standard output, until the input ends or the
connection does. Whoever listens starts the program once for each connection.
-/

import KeyedRows.CommandLine
import KeyedRows.Server.Basic

namespace KeyedRows

/-- The settings of a server that is started with a command line. -/
def CommandLine.settings (line : CommandLine) : IO (Except Failure Settings) := do
  match line.value? .config with
  | none => return .ok (.initial 1)
  | some file =>
    let content ← (IO.FS.readBinFile file).toBaseIO
    return (Settings.load 1 (content.toOption.map (·.toList))).mapError SettingsFault.failure

/-- Serves a connection to its end. -/
def Server.run (server : Server) (connection : Connection) : IO Unit := do
  let input ← IO.getStdin
  let output ← IO.getStdout
  let mut server := server
  let mut connection := connection
  while connection.ending.isNone do
    let chunk ← input.read 65536
    if chunk.isEmpty then
      (connection, server) := server.endOfStream connection
    else
      let (sent, next) := server.receive connection chunk.toList
      (connection, server) := next
      output.write ⟨sent.toArray⟩
      output.flush

/-- Serves a connection, or says why no server can be started. -/
def serveWith (line : CommandLine) (settings : Settings) : IO UInt32 := do
  match line.apply settings with
  | .error fault =>
    IO.eprintln fault.message
    return 2
  | .ok settings =>
    match Server.start .loopback settings with
    | .error failure =>
      IO.eprintln failure.text
      return 1
    | .ok server =>
      if let (some connection, server) := server.accept then
        server.run connection
      return 0

end KeyedRows

/-- Serves one connection over the standard streams. -/
def main (arguments : List String) : IO UInt32 := do
  match KeyedRows.CommandLine.ofArguments arguments with
  | .error fault =>
    IO.eprintln fault.message
    return 2
  | .ok line =>
    match ← line.settings with
    | .error failure =>
      IO.eprintln failure.text
      return 1
    | .ok settings => KeyedRows.serveWith line settings
