/-
# Options of the command line

| option | effect |
| --- | --- |
| `-c`, `--config FILE` | the document of settings to start from |
| `-b`, `--bind ADDRESS` | the address, in place of the one in the document |
| `-w`, `--workers N` | the number of workers, likewise |
| `--lenient-decode` | be lenient even if the document is not |
| `--log-level LEVEL` | accepted; nothing is logged |

A long option may also be written `--option=value`. No option with a value is
given twice.

Main statement: `apply_noOptions`, without options the settings stay as they are.
-/

import KeyedRows.Digits
import KeyedRows.Settings.Basic

namespace KeyedRows

/-- Options that come with a value. -/
inductive ValuedOption where
  | config
  | bind
  | workers
  | logLevel
deriving DecidableEq, Repr

/-- The option of the given name. -/
def ValuedOption.ofName? : String → Option ValuedOption
  | "-c" | "--config" => some config
  | "-b" | "--bind" => some bind
  | "-w" | "--workers" => some workers
  | "--log-level" => some logLevel
  | _ => none

/-- What the command line asks for. -/
structure CommandLine where
  values : List (ValuedOption × String)
  lenient : Bool
deriving DecidableEq, Repr

/-- Why a command line is refused. -/
inductive UsageFault where
  | unknown (argument : String)
  | noValue (option : String)
  | repeated (option : String)
  | notCount (text : String)
deriving DecidableEq, Repr

namespace UsageFault

def message : UsageFault → String
  | unknown argument => s!"unexpected argument {argument}"
  | noValue option => s!"{option} needs a value"
  | repeated option => s!"{option} is given twice"
  | notCount text => s!"{text} is not a number of workers"

end UsageFault

namespace CommandLine

/-- The command line without arguments. -/
def noOptions : CommandLine := ⟨[], false⟩

/-- The value of an option. -/
def value? (line : CommandLine) (option : ValuedOption) : Option String :=
  (line.values.find? (·.1 = option)).map (·.2)

/-- Gives an option its value. -/
def give (line : CommandLine) (name : String) (option : ValuedOption) (value : String) :
    Except UsageFault CommandLine :=
  if (line.value? option).isSome then .error (.repeated name)
  else .ok { line with values := (option, value) :: line.values }

/-- An argument that holds a long option and its value. -/
def assignment? (argument : String) : Option (String × ValuedOption × String) :=
  let cs := argument.toList
  let name := String.ofList (cs.takeWhile (· ≠ '='))
  match cs.dropWhile (· ≠ '='), ValuedOption.ofName? name with
  | _ :: value, some option => some (name, option, String.ofList value)
  | _, _ => none

/-- Reads arguments behind those of `line`. -/
def readFrom (line : CommandLine) : List String → Except UsageFault CommandLine
  | [] => .ok line
  | argument :: rest =>
    if argument = "--lenient-decode" then { line with lenient := true }.readFrom rest
    else
      match assignment? argument, ValuedOption.ofName? argument, rest with
      | some (name, option, value), _, rest => do
        let line ← line.give name option value
        line.readFrom rest
      | none, some option, value :: rest => do
        let line ← line.give argument option value
        line.readFrom rest
      | none, some _, [] => .error (.noValue argument)
      | none, none, _ => .error (.unknown argument)
termination_by arguments => arguments.length

/-- The command line that arguments make. -/
def ofArguments (arguments : List String) : Except UsageFault CommandLine :=
  noOptions.readFrom arguments

/-- The settings with those that the command line gives. -/
def apply (line : CommandLine) (s : Settings) : Except UsageFault Settings := do
  let workers ← match line.value? .workers with
    | none => pure s.workerThreads
    | some text =>
      match Digits.read? 10 (UInt64.size - 1) text.toList with
      | some n => pure n
      | none => throw (.notCount text)
  return { s with
    bindAddress := (line.value? .bind).getD s.bindAddress
    workerThreads := workers
    lenient := s.lenient || line.lenient }

/-- Without options the settings stay as they are. -/
theorem apply_noOptions (s : Settings) : noOptions.apply s = .ok s := by
  simp only [apply, noOptions, value?, List.find?_nil, Option.map_none, Option.getD_none,
    Bool.or_false, pure_bind]
  rfl

end CommandLine
end KeyedRows
