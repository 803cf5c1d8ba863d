/-
# Settings

What a server is started with. Settings are read from a document: an object
that names some of them, or an array that gives the first few in their order.
What is not given keeps its initial value. An object may hold members that are
no setting, but no setting twice.

Settings with which no server could work are refused. Of several things wrong
with them the first in the order of `check` is reported.
-/

import KeyedRows.Settings.Json
import KeyedRows.Table.Basic
import KeyedRows.Wire.Utf8

namespace KeyedRows

structure Settings where
  bindAddress : String
  /-- Connections beyond this many are closed at once. -/
  maxConnections : Nat
  workerThreads : Nat
  /-- How many tasks may wait. -/
  queueCapacity : Nat
  fullScanLimit : Nat
  parallelThreshold : Nat
  maxFrameLength : Nat
  /-- A filter that does not decode passes no row, instead of failing the request. -/
  lenient : Bool
deriving DecidableEq, Repr, Inhabited

/-- Why settings are refused. -/
inductive SettingsFault where
  /-- There is no file, or it is not text. -/
  | unreadable
  /-- The text is not a document of settings. -/
  | malformed
  | noWorkers
  | noQueue
  | noScan
  | frameLimit (limit : Nat)
deriving DecidableEq, Repr

namespace SettingsFault

def message : SettingsFault → String
  | unreadable => "settings cannot be read"
  | malformed => "config: not a document of settings"
  | noWorkers => "worker_threads must be at least 1"
  | noQueue => "queue_capacity must be at least 1"
  | noScan => "full_scan_limit must be at least 1"
  | frameLimit limit => s!"max_frame_len {limit} outside 1..=u32::MAX"

def kind : SettingsFault → FailureKind
  | unreadable => .io
  | _ => .invalidConfig

def failure (f : SettingsFault) : Failure := ⟨f.kind, f.message⟩

end SettingsFault

namespace Settings

/-- The settings of a server about which nothing is said, on a machine with the given number of
processors. -/
def initial (processors : Nat) : Settings where
  bindAddress := "127.0.0.1:7878"
  maxConnections := 1024
  workerThreads := processors
  queueCapacity := 1024
  fullScanLimit := 1000
  parallelThreshold := 4096
  maxFrameLength := 16 * 1024 * 1024
  lenient := false

/-- The scan limits of the tables of the server. -/
def scanLimits (s : Settings) : ScanLimits := ⟨s.fullScanLimit, s.parallelThreshold⟩

/-- The settings are ones with which a server can work. -/
def check (s : Settings) : Except SettingsFault Unit := do
  if s.workerThreads = 0 then throw .noWorkers
  if s.queueCapacity = 0 then throw .noQueue
  if s.fullScanLimit = 0 then throw .noScan
  if s.maxFrameLength = 0 ∨ UInt32.size ≤ s.maxFrameLength then throw (.frameLimit s.maxFrameLength)

/-- A check that has passed lets the others decide. -/
theorem check_then_eq_ok {p : Prop} [Decidable p] {fault : SettingsFault}
    {checks : Unit → Except SettingsFault Unit} :
    (if p then (throw fault >>= checks) else checks ()) = .ok () ↔ ¬ p ∧ checks () = .ok () := by
  by_cases h : p
  · rw [if_pos h]
    exact ⟨fun hfault => (nomatch hfault), fun hpass => absurd h hpass.1⟩
  · simp [h]

theorem check_last_eq_ok {p : Prop} [Decidable p] {fault : SettingsFault} :
    ((if p then throw fault else pure ()) : Except SettingsFault Unit) = .ok () ↔ ¬ p := by
  by_cases h : p
  · rw [if_pos h]
    exact ⟨fun hfault => (nomatch hfault), fun hpass => absurd h hpass⟩
  · rw [if_neg h]
    exact ⟨fun _ => h, fun _ => rfl⟩

/-- **The settings that are accepted**: there are workers, there is room for a task and for a row,
and the limit for frames is a length that a header can announce. -/
theorem check_eq_ok_iff {s : Settings} :
    s.check = .ok () ↔ s.workerThreads ≠ 0 ∧ s.queueCapacity ≠ 0 ∧ s.fullScanLimit ≠ 0 ∧
      s.maxFrameLength ≠ 0 ∧ s.maxFrameLength < UInt32.size := by
  rw [check, check_then_eq_ok, check_then_eq_ok, check_then_eq_ok, check_last_eq_ok]
  simp only [not_or, Nat.not_le, ne_eq]

/-- The names of the settings, in the order in which an array gives them. -/
def fieldNames : List String :=
  ["bind_addr", "max_connections", "worker_threads", "queue_capacity", "full_scan_limit",
    "parallel_scan_threshold", "max_frame_len", "lenient_decode"]

/-- The settings with one of them given anew, if the value is of the right kind. -/
def set (s : Settings) (field : String) (v : Json) : Option Settings :=
  match field with
  | "bind_addr" => v.asText?.map fun t => { s with bindAddress := t }
  | "max_connections" => v.asCount?.map fun n => { s with maxConnections := n }
  | "worker_threads" => v.asCount?.map fun n => { s with workerThreads := n }
  | "queue_capacity" => v.asCount?.map fun n => { s with queueCapacity := n }
  | "full_scan_limit" => v.asCount?.map fun n => { s with fullScanLimit := n }
  | "parallel_scan_threshold" => v.asCount?.map fun n => { s with parallelThreshold := n }
  | "max_frame_len" => v.asCount?.map fun n => { s with maxFrameLength := n }
  | "lenient_decode" => v.asFlag?.map fun b => { s with lenient := b }
  | _ => none

/-- Takes over the members of an object. `given` are the settings met so far. -/
def setMembers (s : Settings) (given : List String) : List (List Nat × Json) → Option Settings
  | [] => some s
  | (key, v) :: rest => do
    let field := String.ofList (← Json.characters key)
    if field ∈ fieldNames then
      if field ∈ given then none
      else setMembers (← s.set field v) (field :: given) rest
    else setMembers s given rest

/-- Takes over the items of an array, in the order of the given names. -/
def setItems (s : Settings) : List String → List Json → Option Settings
  | _, [] => some s
  | [], _ :: _ => none
  | field :: fields, v :: vs => do setItems (← s.set field v) fields vs

/-- The settings with those that a document gives. -/
def setAll (s : Settings) : Json → Option Settings
  | .object ms => s.setMembers [] ms
  | .array vs => s.setItems fieldNames vs
  | _ => none

/-- The settings of a file with the given content, if there is one. -/
def load (processors : Nat) (content : Option Bytes) : Except SettingsFault Settings :=
  match content.map Utf8.decode with
  | none | some (.error _) => .error .unreadable
  | some (.ok text) =>
    match (Json.ofText? text).bind (initial processors).setAll with
    | none => .error .malformed
    | some s => do
      s.check
      return s

end Settings
end KeyedRows
