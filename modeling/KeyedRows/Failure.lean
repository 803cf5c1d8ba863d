/-
# Failures

What a caller is told when an operation fails: a kind, by which programs
decide, and a message for people. The parts of the library have causes of their
own (`SchemaFault`, `RowFault`, `Wire.Fault`, …); each says once, in its
`failure`, which kind it is and how it is worded.
-/

namespace KeyedRows

/-- The kinds of failure. -/
inductive FailureKind where
  /-- A row, a schema or an aggregate that is not acceptable. -/
  | validation
  /-- No such database or table. -/
  | notFound
  /-- Bytes that are not what they should be. -/
  | decode
  /-- No room in the task queue. -/
  | queueFull
  /-- A frame longer than its limit. -/
  | tooLarge
  /-- The task was given up before it ran. -/
  | cancelled
  /-- The outside world: files, sockets. -/
  | io
  | invalidConfig
  | internal
deriving DecidableEq, Repr, Inhabited

namespace FailureKind

/-- Every kind, in the order of their numbers on the wire. -/
def all : List FailureKind :=
  [validation, notFound, decode, queueFull, tooLarge, cancelled, io, invalidConfig, internal]

theorem mem_all (k : FailureKind) : k ∈ all := by cases k <;> decide

/-- The name of a kind. -/
def name : FailureKind → String
  | validation => "Validation"
  | notFound => "NotFound"
  | decode => "Decode"
  | queueFull => "QueueFull"
  | tooLarge => "TooLarge"
  | cancelled => "Cancelled"
  | io => "Io"
  | invalidConfig => "InvalidConfig"
  | internal => "Internal"

end FailureKind

/-- A failure as it is reported. -/
structure Failure where
  kind : FailureKind
  message : String
deriving DecidableEq, Repr, Inhabited

namespace Failure

/-- The kind and the message on one line. -/
def text (f : Failure) : String := f.kind.name ++ ": " ++ f.message

end Failure
end KeyedRows
