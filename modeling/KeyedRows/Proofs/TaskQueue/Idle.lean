/-
# One task at a time

A queue that is open, at rest and without a task is idle: its dispatcher holds a
free worker and waits. A task that is submitted then is taken, starts and runs to
its end, and the queue is idle again (`Idle.runTask_eq`). So tasks of which each is
submitted when the one before it has ended all run, in their order, and the
handle of each resolves to what its work came to.

Main statement: `Idle.runInTurn`.
-/

import KeyedRows.Proofs.TaskQueue.Ledger

namespace KeyedRows
namespace TaskQueue

variable {α : Type} {q q' : TaskQueue α} {task : Task α} {tasks : List (Task α)}

/-! ### Settling -/

theorem settle_of_blocked (h : q.dispatch? = none) : q.settle = q := by
  rw [settle]
  split
  · rfl
  · rename_i hgoes
    rw [h] at hgoes
    contradiction

theorem settle_of_dispatch? (h : q.dispatch? = some q') : q.settle = q'.finishUnheld.settle := by
  rw [settle]
  split
  · rename_i hblocked
    rw [h] at hblocked
    contradiction
  · rename_i hgoes
    rw [h] at hgoes
    rw [Option.some.inj hgoes]

section Single
variable {n : Nat}

/-- The only task that runs comes to its end. -/
theorem finishUnheld_of_single (hrunning : q.running = [(n, task)]) (hends : task.held = false) :
    q.finishUnheld = { q with
      freeWorkers := q.freeWorkers + 1
      running := []
      events := q.events ++ ending n task task.work.outcome
      counters := count q.counters task.work.outcome } := by
  simp [finishUnheld, finish, hrunning, hends]

/-- The dispatcher takes up a free worker, and then there is nothing more to do. -/
theorem settle_of_none (hidle : q.dispatcher = .idle) (hfree : q.freeWorkers ≠ 0)
    (hwaiting : q.waiting = []) (hrunning : q.running = []) :
    q.settle = { q with dispatcher := .ready, freeWorkers := q.freeWorkers - 1 } := by
  have htakesUp : q.dispatch? =
      some { q with dispatcher := .ready, freeWorkers := q.freeWorkers - 1 } := by
    simp [dispatch?, hidle, hfree]
  rw [settle_of_dispatch? htakesUp]
  simp only [finishUnheld, hrunning, List.filter_nil, List.foldl_nil]
  exact settle_of_blocked (by simp [dispatch?, hwaiting])

/-- The only task that waits is started and comes to its end. -/
theorem settle_of_single (hready : q.dispatcher = .ready) (hwaiting : q.waiting = [(n, task)])
    (hrunning : q.running = []) (hends : task.held = false) :
    q.settle = { q with
      waiting := []
      events := q.events ++ ranEvents (n, task)
      counters := count q.counters task.work.outcome } := by
  have hstarts : q.dispatch? = some { q with
      dispatcher := .idle
      waiting := []
      running := [(n, task)]
      events := q.events ++ [.started n] } := by
    simp [dispatch?, hready, hwaiting, hrunning]
  rw [settle_of_dispatch? hstarts, finishUnheld_of_single rfl hends,
    settle_of_none rfl (Nat.succ_ne_zero _) rfl rfl]
  simp [ranEvents, hready, hrunning]

end Single

/-! ### Tasks that have run -/

theorem number_of_mem_ranEvents {e : Nat × Task α} {event : TaskEvent α}
    (h : event ∈ ranEvents e) : event.number = e.1 := by
  rcases List.mem_cons.1 h with rfl | h
  · rfl
  · exact number_of_mem_ending h

/-- Only what happened to a task counts for its outcome. -/
theorem outcome?_eq_findSome? (q : TaskQueue α) (n : Nat) :
    q.outcome? n = (eventsOf q.events n).findSome? fun
      | .resolved m o => if m = n then some o else none
      | _ => none := by
  rw [outcome?]
  induction q.events with
  | nil => rfl
  | cons event events ih =>
    by_cases hnumber : event.number = n
    · rw [eventsOf, List.filter_cons_of_pos (by simpa using hnumber), List.findSome?_cons,
        List.findSome?_cons, ih]
      rfl
    · rw [eventsOf, List.filter_cons_of_neg (by simpa using hnumber), List.findSome?_cons, ih]
      cases event <;> simp_all [TaskEvent.number, eventsOf]

/-- The handle of a task that has run has resolved to what its work came to. -/
theorem outcome?_of_ran {n : Nat} (h : eventsOf q.events n = ranEvents (n, task)) :
    q.outcome? n = some task.work.outcome := by
  rw [outcome?_eq_findSome?, h, ranEvents, ending]
  split <;> simp

/-! ### Idle queues -/

/-- The queue is open and at rest, and has no task. -/
structure Idle (q : TaskQueue α) : Prop where
  sound : q.Sound
  opened : q.closed = false
  blocked : q.dispatch? = none
  waiting : q.waiting = []
  running : q.running = []
  workers : 0 < q.workers
  capacity : 0 < q.capacity
  /-- Nothing has happened to a submission that is still to come. -/
  fresh : ∀ n, q.submissions ≤ n → eventsOf q.events n = []

/-- Submits a task, and lets the queue go on until it is at rest. -/
def runTask (q : TaskQueue α) (task : Task α) : TaskQueue α := (q.submit task).2.settle

/-- Runs tasks, each when the one before it has ended. -/
def runInTurn (q : TaskQueue α) : List (Task α) → TaskQueue α
  | [] => q
  | task :: tasks => (q.runTask task).runInTurn tasks

theorem runInTurn_append (q : TaskQueue α) (tasks more : List (Task α)) :
    q.runInTurn (tasks ++ more) = (q.runInTurn tasks).runInTurn more := by
  induction tasks generalizing q with
  | nil => rfl
  | cons task tasks ih => exact ih (q.runTask task)

/-- A new queue is idle once its dispatcher has taken up a worker. -/
theorem idle_of_create {workers capacity : Nat} (h : create workers capacity = .ok q) :
    q.settle.Idle ∧ q.settle.counters = default := by
  have hsound := sound_create h
  obtain ⟨⟨hworkers, hcapacity⟩, rfl⟩ := create_eq_ok_iff.1 h
  obtain ⟨as, -, has⟩ := goesTo_settle (⟨workers, capacity, false, .idle, workers, 0, [], [], [],
    default⟩ : TaskQueue α)
  have hsettled := has ▸ sound_after hsound as
  rw [settle_of_none rfl (Nat.ne_of_gt hworkers) rfl rfl] at hsettled ⊢
  exact ⟨⟨hsettled, rfl, rfl, rfl, rfl, hworkers, hcapacity, fun _ _ => rfl⟩, rfl⟩

namespace Idle

/-- The dispatcher of an idle queue holds a worker. -/
theorem ready (h : q.Idle) : q.dispatcher = .ready := by
  rcases h.sound.staged.serves h.opened with hd | hd
  · -- no task runs, so there is a free worker, and the dispatcher would go on
    have hserving := h.sound.staffed.serving (.inl hd)
    have hworkers := h.workers
    have hblocked := h.blocked
    simp only [hd, Dispatcher.held, h.running, List.length_nil] at hserving
    have hfree : q.freeWorkers ≠ 0 := by omega
    simp [dispatch?, hd, hfree] at hblocked
  · exact hd

theorem submit_eq (h : q.Idle) (task : Task α) :
    q.submit task = (.ok q.submissions, { q with
      submissions := q.submissions + 1
      waiting := [(q.submissions, task)]
      counters := { q.counters with submitted := q.counters.submitted + 1 } }) := by
  have hroom : q.waiting.length < q.capacity := by
    rw [h.waiting]
    exact h.capacity
  rw [submit_of_room task h.opened (h.sound.staged.not_gone h.opened) hroom, h.waiting,
    List.nil_append]

/-- **A task on an idle queue runs**, and afterwards the queue is as it was, but for what happened
and what is counted. -/
theorem runTask_eq (h : q.Idle) (hends : task.held = false) :
    q.runTask task = { q with
      submissions := q.submissions + 1
      events := q.events ++ ranEvents (q.submissions, task)
      counters := count { q.counters with submitted := q.counters.submitted + 1 }
        task.work.outcome } := by
  have hsubmitted := h.submit_eq task
  have hsettled : (q.submit task).2.settle = _ :=
    settle_of_single (n := q.submissions) (by rw [hsubmitted]; exact h.ready) (by rw [hsubmitted])
      (by rw [hsubmitted]; exact h.running) hends
  rw [TaskQueue.runTask, hsettled, hsubmitted]
  simp only [h.waiting]

/-- Afterwards the queue is idle again. -/
theorem runTask (h : q.Idle) (hends : task.held = false) : (q.runTask task).Idle := by
  have hsound : (q.runTask task).Sound := by
    obtain ⟨as, -, has⟩ := goesTo_settle (q.submit task).2
    rw [TaskQueue.runTask, ← has]
    exact sound_after (h.sound.step (step_submit task)) as
  rw [h.runTask_eq hends] at hsound ⊢
  refine ⟨hsound, h.opened, ?_, h.waiting, h.running, h.workers, h.capacity, fun n hn => ?_⟩
  · simp [dispatch?, h.ready, h.waiting]
  · have hlater : n ≠ q.submissions := Nat.ne_of_gt hn
    exact (eventsOf_append_ne (fun _ => number_of_mem_ranEvents) hlater).trans
      (h.fresh n (Nat.le_of_succ_le hn))

/-- What happened to earlier submissions stays as it is. -/
theorem eventsOf_runTask (h : q.Idle) (hends : task.held = false) {n : Nat}
    (hn : n < q.submissions) : eventsOf (q.runTask task).events n = eventsOf q.events n := by
  rw [h.runTask_eq hends]
  exact eventsOf_append_ne (fun _ => number_of_mem_ranEvents) (Nat.ne_of_lt hn)

/-- The task has run. -/
theorem eventsOf_runTask_self (h : q.Idle) (hends : task.held = false) :
    eventsOf (q.runTask task).events q.submissions = ranEvents (q.submissions, task) := by
  rw [h.runTask_eq hends]
  exact (eventsOf_append_self fun _ => number_of_mem_ranEvents).trans
    (by rw [h.fresh _ (Nat.le_refl _), List.nil_append])

theorem startedIn_runTask (h : q.Idle) (hends : task.held = false) :
    startedIn (q.runTask task).events = startedIn q.events ++ [q.submissions] := by
  rw [h.runTask_eq hends]
  show startedIn (q.events ++ ([.started q.submissions] ++ ending _ _ _)) = _
  rw [startedIn_append, startedIn_append, startedIn_ending]
  rfl

/-- **Tasks that are run in turn all run, in their order.** They have the numbers from the next one
on, and each has run to its end when the next is submitted. -/
theorem runInTurn (h : q.Idle) (hends : ∀ task ∈ tasks, task.held = false) :
    (q.runInTurn tasks).Idle ∧
      (∀ n < q.submissions, eventsOf (q.runInTurn tasks).events n = eventsOf q.events n) ∧
      (∀ k task, tasks[k]? = some task →
        eventsOf (q.runInTurn tasks).events (q.submissions + k) =
          ranEvents (q.submissions + k, task)) ∧
      startedIn (q.runInTurn tasks).events =
        startedIn q.events ++ List.range' q.submissions tasks.length := by
  induction tasks generalizing q with
  | nil => exact ⟨h, fun _ _ => rfl, by simp, (List.append_nil _).symm⟩
  | cons task tasks ih =>
    obtain ⟨hfirst, hrest⟩ := List.forall_mem_cons.1 hends
    have hnext : (q.runTask task).submissions = q.submissions + 1 := by rw [h.runTask_eq hfirst]
    obtain ⟨hidle, hearlier, hran, hstarted⟩ := ih (h.runTask hfirst) hrest
    rw [hnext] at hearlier hran hstarted
    refine ⟨hidle, fun n hn => ?_, fun k other hk => ?_, ?_⟩
    · exact (hearlier n (Nat.lt_succ_of_lt hn)).trans (h.eventsOf_runTask hfirst hn)
    · cases k with
      | zero =>
        obtain rfl : task = other := Option.some.inj hk
        exact (hearlier _ (Nat.lt_succ_self _)).trans (h.eventsOf_runTask_self hfirst)
      | succ k =>
        have hlater := hran k other hk
        rwa [Nat.add_right_comm, Nat.add_assoc] at hlater
    · rw [TaskQueue.runInTurn, hstarted, h.startedIn_runTask hfirst, List.append_assoc]
      rfl

end Idle
end TaskQueue
end KeyedRows
