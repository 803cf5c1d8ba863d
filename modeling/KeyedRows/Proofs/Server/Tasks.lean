/-
# Requests as tasks

A server hands a request to its task queue and waits for the handle before it
takes the next one. So on a server with one connection the queue is idle whenever
a request comes, and what `dispatch` makes of the request is what the queue makes
of a task with the same work: it is taken, it runs, its handle resolves to the
outcome that the response carries, and the queue is idle again, with the counts
that the server shows (`RunsOn.dispatch`). Requests one after another are tasks
run in turn; they start in their order, and each resolves to its own outcome
(`Idle.runInTurn_tasks`).

A request that the queue does not take is answered by what the submission was
told, and counted as the queue counts it (`turnAway_eq`).

Main statements: `Idle.runInTurn_tasks`, `RunsOn.dispatch` and `turnAway_eq`.
-/

import KeyedRows.Proofs.Server.Reply
import KeyedRows.Proofs.Service.Runs
import KeyedRows.Proofs.TaskQueue.Idle

namespace KeyedRows

/-! ### The work of requests -/

/-- The task that carries out a request on a catalog. Nobody is called when it has ended. -/
def Arrival.task (a : Arrival) (c : Catalog) : Task Bytes :=
  ⟨.returns (a.service.execute a.now a.request c).1, none, false⟩

namespace Catalog

/-- The tasks of requests, each on the catalog that the one before it left. -/
def tasks (c : Catalog) : List Arrival → List (Task Bytes)
  | [] => []
  | a :: as => a.task c :: (a.service.execute a.now a.request c).2.tasks as

theorem tasks_append (c : Catalog) (as bs : List Arrival) :
    c.tasks (as ++ bs) = c.tasks as ++ (c.after as).tasks bs := by
  induction as generalizing c with
  | nil => rfl
  | cons a as ih =>
    rw [List.cons_append, tasks, tasks, ih, List.cons_append]
    rfl

theorem getElem?_tasks {a : Arrival} {as : List Arrival} {k : Nat} (c : Catalog)
    (h : as[k]? = some a) : (c.tasks as)[k]? = some (a.task (c.after (as.take k))) := by
  induction as generalizing c k with
  | nil => simp at h
  | cons b as ih =>
    cases k with
    | zero =>
      obtain rfl : b = a := Option.some.inj h
      rfl
    | succ k => exact ih _ h

theorem length_tasks (c : Catalog) (as : List Arrival) : (c.tasks as).length = as.length := by
  induction as generalizing c with
  | nil => rfl
  | cons a as ih => rw [tasks, List.length_cons, ih, List.length_cons]

/-- Nobody holds these tasks up. -/
theorem held_of_mem_tasks {task : Task Bytes} {c : Catalog} {as : List Arrival}
    (h : task ∈ c.tasks as) : task.held = false := by
  induction as generalizing c with
  | nil => simp [tasks] at h
  | cons a as ih =>
    rcases List.mem_cons.1 h with rfl | h
    · rfl
    · exact ih h

end Catalog

/-- **Requests that run as tasks start in their order**, and the handle of each resolves to what the
request comes to on the catalog that the ones before it left. -/
theorem TaskQueue.Idle.runInTurn_tasks {q : TaskQueue Bytes} (h : q.Idle) (c : Catalog)
    (as : List Arrival) :
    startedIn (q.runInTurn (c.tasks as)).events =
        startedIn q.events ++ List.range' q.submissions as.length ∧
      ∀ k a, as[k]? = some a → (q.runInTurn (c.tasks as)).outcome? (q.submissions + k) =
        some (a.service.execute a.now a.request (c.after (as.take k))).1 := by
  have hends : ∀ task ∈ c.tasks as, task.held = false := fun _ => Catalog.held_of_mem_tasks
  obtain ⟨-, -, hran, hstarted⟩ := h.runInTurn hends
  rw [Catalog.length_tasks] at hstarted
  exact ⟨hstarted, fun k a ha => outcome?_of_ran (hran k _ (Catalog.getElem?_tasks c ha))⟩

namespace Server
variable {s : Server} {q : TaskQueue Bytes}

/-! ### Tasks that are taken -/

/-- The queue behind the server is idle, and its counts are those that the server shows. -/
structure RunsOn (s : Server) (q : TaskQueue Bytes) : Prop where
  idle : q.Idle
  counters : s.queue = q.counters

/-- A request that comes to the server now. -/
def arrival (s : Server) (r : Request) : Arrival := ⟨s.service, s.now, r⟩

/-- **A request runs as a task on the queue behind the server.** The task is taken, and what the
request can read of the queue are the counts with the task among them. Then its handle resolves, the
response carries what it resolved to, and the queue is again an idle one behind the server. -/
theorem RunsOn.dispatch (h : s.RunsOn q) (r : Request) :
    let task := (s.arrival r).task s.catalog
    (q.submit task).1 = .ok q.submissions ∧ s.now.queue = (q.submit task).2.counters ∧
      (∃ outcome, (q.runTask task).outcome? q.submissions = some outcome ∧
        (s.dispatch r).1 = .ofOutcome r.id r.operation outcome) ∧
      (s.dispatch r).2.RunsOn (q.runTask task) := by
  intro task
  have hsubmitted := h.idle.submit_eq task
  have hcounters : s.now.queue = { q.counters with submitted := q.counters.submitted + 1 } := by
    rw [← h.counters]
    rfl
  refine ⟨by rw [hsubmitted], by rw [hsubmitted, hcounters], ⟨_, ?_, rfl⟩, h.idle.runTask rfl, ?_⟩
  · exact TaskQueue.outcome?_of_ran (h.idle.eventsOf_runTask_self rfl)
  · rw [h.idle.runTask_eq rfl, ← hcounters]
    rfl

/-- Answering a request changes nothing in the queue. -/
theorem RunsOn.answered (h : s.RunsOn q) (r : Request) (sent : Response) :
    (s.answered r sent).RunsOn (q.runTask ((s.arrival r).task s.catalog)) := by
  obtain ⟨-, -, -, hidle, hcounters⟩ := h.dispatch r
  exact ⟨hidle, hcounters⟩

/-! ### Tasks that are turned away -/

/-- **A request that the queue does not take** is answered by the failure of the submission, and
what the server shows are the counts of the queue after it. -/
theorem turnAway_eq (hsound : q.Sound) (hcounters : s.queue = q.counters) {task : Task Bytes}
    {fault : QueueFault} (hrefused : (q.submit task).1 = .error fault) (r : Request) :
    s.turnAway r fault = reply { s with queue := (q.submit task).2.counters }
      (.ofOutcome r.id r.operation (.error fault.failure)) := by
  rw [hsound.counters_submit_of_error hrefused, ← hcounters]
  rfl

end Server
end KeyedRows
