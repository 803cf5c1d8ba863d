/-
# The task queue

Tasks wait in a bounded line. One dispatcher takes them off it, in order, and
hands each to one of a fixed number of workers. It takes a task only when it has
a free worker for it, so a busy queue fills up: a task that finds the line full is
rejected, and one that comes after shutdown is refused.

| the dispatcher is | and waits for | or goes on with |
| --- | --- | --- |
| `idle` | a free worker | |
| `ready` | a task for the worker it holds | |
| `draining` | | giving up the first task that still waits |
| `drained` | | hanging up |
| `gone` | | |

Shutdown closes the queue and tells the dispatcher to stop. A dispatcher that
waits heeds this at once; one that could also go on may do so before it heeds it.
It then gives up what still waits and hangs up. What runs goes on to its end.

Each submission has a number, accepted or not. What happens to tasks is
recorded as events in the order in which it happens: a task starts, its
callback is called with its outcome, its handle resolves to its outcome. A
callback that panics is caught and changes nothing.

The steps of the machine are `submit`, `dispatch?`, `finish`, `close` and `heed`.
The queue is at rest when the dispatcher is blocked.

Main statement: `due_dispatch?`, the dispatcher goes on for so many steps at most.
-/

import KeyedRows.Counters

namespace KeyedRows

/-- What a queue reports. -/
inductive QueueFault where
  | noRoom
  /-- The submission was rejected; this is what the submitter is told. -/
  | full (capacity : Nat)
  /-- The submission was rejected; this is what the task's callback is told. -/
  | rejected
  | shutDown
  /-- The task still waited at shutdown. -/
  | givenUp
  /-- The task was in the line when the dispatcher hung up. -/
  | dropped
  | panicked
deriving DecidableEq, Repr

namespace QueueFault

def message : QueueFault → String
  | noRoom => "task queue needs at least one worker and one slot"
  | full capacity => s!"task queue at capacity ({capacity})"
  | rejected => "task queue at capacity"
  | shutDown => "task queue is shut down"
  | givenUp => "task queue shut down"
  | dropped => "task dropped before it ran"
  | panicked => "task panicked"

def kind : QueueFault → FailureKind
  | noRoom => .invalidConfig
  | full _ | rejected => .queueFull
  | shutDown | givenUp | dropped => .cancelled
  | panicked => .internal

def failure (f : QueueFault) : Failure := ⟨f.kind, f.message⟩

end QueueFault

/-- How the work of a task ends. -/
inductive Work (α : Type) where
  | returns (outcome : Except Failure α)
  | panics

/-- The outcome of a task that has run. -/
def Work.outcome {α : Type} : Work α → Except Failure α
  | returns o => o
  | panics => .error QueueFault.panicked.failure

/-- What a callback does once it has been called. -/
inductive Callback where
  | returns
  | panics
deriving DecidableEq, Repr

/-- Work to be done, and whom to call afterwards. -/
structure Task (α : Type) where
  work : Work α
  callback : Option Callback
  /-- The work goes on until it is told to finish. -/
  held : Bool

/-- What happens to the task with a given number. -/
inductive TaskEvent (α : Type) where
  | started (number : Nat)
  | called (number : Nat) (outcome : Except Failure α)
  | resolved (number : Nat) (outcome : Except Failure α)

/-- What the dispatcher is doing. -/
inductive Dispatcher where
  /-- It waits for a free worker. -/
  | idle
  /-- It holds a free worker and waits for a task. -/
  | ready
  /-- It was told to stop and gives up what waits. -/
  | draining
  /-- It found nothing more to give up. -/
  | drained
  /-- It has hung up. -/
  | gone
deriving DecidableEq, Repr

/-- How many stages the dispatcher still has before it. -/
def Dispatcher.stage : Dispatcher → Nat
  | idle => 4
  | ready => 3
  | draining => 2
  | drained => 1
  | gone => 0

/-- A queue with its workers. -/
structure TaskQueue (α : Type) where
  workers : Nat
  capacity : Nat
  closed : Bool
  dispatcher : Dispatcher
  /-- The free workers, without the one that the dispatcher holds. -/
  freeWorkers : Nat
  /-- The number of submissions so far. -/
  submissions : Nat
  /-- Accepted tasks that have not started, in order. -/
  waiting : List (Nat × Task α)
  running : List (Nat × Task α)
  events : List (TaskEvent α)
  counters : QueueCounters

namespace TaskQueue

variable {α : Type}

/-- A queue with at least one worker and one place to wait. -/
def create (workers capacity : Nat) : Except QueueFault (TaskQueue α) :=
  if workers = 0 ∨ capacity = 0 then .error .noRoom
  else .ok ⟨workers, capacity, false, .idle, workers, 0, [], [], [], default⟩

/-! ### How tasks end -/

/-- The events by which a task ends: its callback is called, then its handle resolves. -/
def ending (number : Nat) (task : Task α) (outcome : Except Failure α) : List (TaskEvent α) :=
  match task.callback with
  | some _ => [.called number outcome, .resolved number outcome]
  | none => [.resolved number outcome]

/-- Counts the outcome of a task that has run. -/
def count (c : QueueCounters) : Except Failure α → QueueCounters
  | .ok _ => { c with completed := c.completed + 1 }
  | .error _ => { c with failed := c.failed + 1 }

/-- Counts a task that fails without having run: only a cancelled one is counted here. -/
def countFailure (c : QueueCounters) : FailureKind → QueueCounters
  | .cancelled => { c with cancelled := c.cancelled + 1 }
  | _ => c

/-- Counts a submission that is turned away: only one that finds the line full is counted. -/
def countRefusal (c : QueueCounters) : QueueFault → QueueCounters
  | .full _ => { c with rejected := c.rejected + 1 }
  | _ => c

/-- Ends a task that has not run. -/
def fail (q : TaskQueue α) (number : Nat) (task : Task α) (fault : QueueFault) : TaskQueue α :=
  { q with
    events := q.events ++ ending number task (.error fault.failure)
    counters := countFailure q.counters fault.kind }

/-- The running task with the given number ends, and its worker is free again. -/
def finish (q : TaskQueue α) (number : Nat) : TaskQueue α :=
  match q.running.find? (·.1 = number) with
  | none => q
  | some (_, task) =>
    { q with
      freeWorkers := q.freeWorkers + 1
      running := q.running.filter (·.1 ≠ number)
      events := q.events ++ ending number task task.work.outcome
      counters := count q.counters task.work.outcome }

/-! ### Submitting -/

/-- Submits a task. The callback of a rejected task is called; that of a refused one is not. -/
def submit (q : TaskQueue α) (task : Task α) : Except QueueFault Nat × TaskQueue α :=
  let number := q.submissions
  let q := { q with submissions := number + 1 }
  if q.closed then (.error .shutDown, q)
  else if q.dispatcher = .gone then (.error .shutDown, q.fail number task .shutDown)
  else if q.capacity ≤ q.waiting.length then
    let q := { q with counters := { q.counters with rejected := q.counters.rejected + 1 } }
    (.error (.full q.capacity), q.fail number task .rejected)
  else
    (.ok number, { q with
      waiting := q.waiting ++ [(number, task)]
      counters := { q.counters with submitted := q.counters.submitted + 1 } })

/-! ### Dispatching -/

/-- The dispatcher goes on, unless it is blocked. -/
def dispatch? (q : TaskQueue α) : Option (TaskQueue α) :=
  match q.dispatcher, q.waiting with
  | .idle, _ =>
    if q.freeWorkers = 0 then none
    else some { q with dispatcher := .ready, freeWorkers := q.freeWorkers - 1 }
  | .ready, [] => none
  | .ready, (number, task) :: rest =>
    some { q with
      dispatcher := .idle
      waiting := rest
      running := q.running ++ [(number, task)]
      events := q.events ++ [.started number] }
  | .draining, [] => some { q with dispatcher := .drained }
  | .draining, (number, task) :: rest => some ({ q with waiting := rest }.fail number task .givenUp)
  | .drained, waiting =>
    some (waiting.foldl (fun q e => q.fail e.1 e.2 .dropped)
      { q with dispatcher := .gone, waiting := [] })
  | .gone, _ => none

/-- No task is accepted from now on, and the dispatcher is told to stop. -/
def close (q : TaskQueue α) : TaskQueue α := { q with closed := true }

/-- The dispatcher heeds that it was told to stop. A worker that it holds stays with it. -/
def heed (q : TaskQueue α) : TaskQueue α :=
  if q.closed ∧ (q.dispatcher = .idle ∨ q.dispatcher = .ready) then
    { q with dispatcher := .draining }
  else q

/-! ### At rest -/

/-- A bound on the steps that are left without further submissions. A task that waits has three
before it: the dispatcher takes up a worker, the task starts, and it ends. -/
def due (q : TaskQueue α) : Nat :=
  3 * q.waiting.length + q.running.length + q.dispatcher.stage

theorem waiting_finish (q : TaskQueue α) (number : Nat) :
    (q.finish number).waiting = q.waiting := by
  rw [finish]
  split <;> rfl

theorem dispatcher_finish (q : TaskQueue α) (number : Nat) :
    (q.finish number).dispatcher = q.dispatcher := by
  rw [finish]
  split <;> rfl

theorem length_running_finish_le (q : TaskQueue α) (number : Nat) :
    (q.finish number).running.length ≤ q.running.length := by
  rw [finish]
  split
  · exact Nat.le_refl _
  · exact List.length_filter_le ..

theorem due_finish_le (q : TaskQueue α) (number : Nat) : (q.finish number).due ≤ q.due := by
  have := q.length_running_finish_le number
  rw [due, due, waiting_finish, dispatcher_finish]
  omega

/-- Tasks that are given up one after another change events and counters alone. -/
theorem foldl_fail (fault : QueueFault) (tasks : List (Nat × Task α)) (q : TaskQueue α) :
    ∃ events counters,
      tasks.foldl (fun q e => q.fail e.1 e.2 fault) q = { q with events, counters } := by
  induction tasks generalizing q with
  | nil => exact ⟨_, _, rfl⟩
  | cons e tasks ih => exact ih (q.fail e.1 e.2 fault)

/-- **The dispatcher does not go on for ever.** -/
theorem due_dispatch? {q q' : TaskQueue α} (h : q.dispatch? = some q') : q'.due < q.due := by
  unfold dispatch? at h
  split at h
  case h_1 hidle =>
    split at h
    · contradiction
    · obtain rfl := Option.some.inj h
      simp [due, hidle, Dispatcher.stage]
  case h_2 => contradiction
  case h_3 hready hwaiting =>
    obtain rfl := Option.some.inj h
    simp only [due, hready, hwaiting, Dispatcher.stage, List.length_cons, List.length_append,
      List.length_nil]
    omega
  case h_4 hdraining hwaiting =>
    obtain rfl := Option.some.inj h
    simp [due, hdraining, Dispatcher.stage]
  case h_5 hdraining hwaiting =>
    obtain rfl := Option.some.inj h
    simp only [due, fail, hdraining, hwaiting, List.length_cons]
    omega
  case h_6 hdrained =>
    obtain rfl := Option.some.inj h
    obtain ⟨events, counters, hfold⟩ :=
      foldl_fail .dropped q.waiting { q with dispatcher := .gone, waiting := [] }
    rw [hfold]
    simp only [due, hdrained, Dispatcher.stage, List.length_nil]
    omega
  case h_7 => contradiction

/-- Lets the dispatcher go on until it is blocked. -/
def dispatchAll (q : TaskQueue α) : TaskQueue α :=
  match h : q.dispatch? with
  | none => q
  | some q' =>
    have := due_dispatch? h
    q'.dispatchAll
termination_by q.due

/-- Closes the queue, and sees the dispatcher, which heeds it, to its end. -/
def shutdown (q : TaskQueue α) : TaskQueue α :=
  if q.closed then q else q.close.heed.dispatchAll

/-- What runs and is not held comes to its end. -/
def finishUnheld (q : TaskQueue α) : TaskQueue α :=
  (q.running.filter (!·.2.held)).foldl (fun q e => q.finish e.1) q

theorem due_finishUnheld_le (q : TaskQueue α) : q.finishUnheld.due ≤ q.due := by
  rw [finishUnheld]
  generalize q.running.filter (!·.2.held) = tasks
  induction tasks generalizing q with
  | nil => exact Nat.le_refl _
  | cons e tasks ih => exact Nat.le_trans (ih _) (q.due_finish_le e.1)

/-- Lets the dispatcher and the workers go on, until the dispatcher is blocked and every task that
runs is held. -/
def settle (q : TaskQueue α) : TaskQueue α :=
  match h : q.dispatch? with
  | none => q
  | some q' =>
    have := Nat.lt_of_le_of_lt q'.due_finishUnheld_le (due_dispatch? h)
    q'.finishUnheld.settle
termination_by q.due

/-! ### What happened -/

/-- The outcome that the handle of a task has resolved to. -/
def outcome? (q : TaskQueue α) (number : Nat) : Option (Except Failure α) :=
  q.events.findSome? fun
    | .resolved n o => if n = number then some o else none
    | _ => none

/-- The tasks that started, in order. -/
def startedIn (events : List (TaskEvent α)) : List Nat :=
  events.filterMap fun
    | .started n => some n
    | _ => none

/-- The calls of callbacks, in order. -/
def callsIn (events : List (TaskEvent α)) : List (Nat × Except Failure α) :=
  events.filterMap fun
    | .called n o => some (n, o)
    | _ => none

end TaskQueue
end KeyedRows
