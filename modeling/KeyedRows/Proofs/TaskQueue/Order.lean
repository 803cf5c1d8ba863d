/-
# First come, first served

The accepted tasks start in the order of their submission. With one worker they
also end in that order, since the next one starts only when the worker is free
again (`OneByOne`).

A dispatcher at rest on an open queue waits for one thing: for a worker, then all
of them run a task, or for a task, then none waits. So tasks wait at rest only
while all workers are busy, and a submission finds the line full exactly when, in
addition, the line is as long as it may be.

Main statement: `orderly_after_create`.
-/

import KeyedRows.Proofs.TaskQueue.Ledger

namespace KeyedRows
namespace TaskQueue

variable {α : Type} {q q' : TaskQueue α} {new past begun givenUp : List (Nat × Task α)}

/-! ### The order in which tasks end -/

/-- The tasks whose handles resolved, in order. -/
def resolvedIn (events : List (TaskEvent α)) : List Nat :=
  events.filterMap fun
    | .resolved n _ => some n
    | _ => none

/-- The tasks that ran to their end, in the order in which they ended. -/
def finishedIn (events : List (TaskEvent α)) : List Nat :=
  (resolvedIn events).filter (· ∈ startedIn events)

theorem resolvedIn_append (events more : List (TaskEvent α)) :
    resolvedIn (events ++ more) = resolvedIn events ++ resolvedIn more :=
  List.filterMap_append

theorem resolvedIn_ending (number : Nat) (task : Task α) (outcome : Except Failure α) :
    resolvedIn (ending number task outcome) = [number] := by
  unfold ending
  split <;> rfl

section Finished
variable {events : List (TaskEvent α)} {number : Nat}

theorem finishedIn_ending (task : Task α) (outcome : Except Failure α)
    (hstarted : number ∈ startedIn events) :
    finishedIn (events ++ ending number task outcome) = finishedIn events ++ [number] := by
  rw [finishedIn, resolvedIn_append, resolvedIn_ending, startedIn_append, startedIn_ending,
    List.append_nil, List.filter_append, List.filter_cons_of_pos (by simpa using hstarted)]
  rfl

/-- A task that ends without having run is not among those that ran. -/
theorem finishedIn_ending_of_not_started (task : Task α) (outcome : Except Failure α)
    (hnever : number ∉ startedIn events) :
    finishedIn (events ++ ending number task outcome) = finishedIn events := by
  rw [finishedIn, resolvedIn_append, resolvedIn_ending, startedIn_append, startedIn_ending,
    List.append_nil, List.filter_append, List.filter_cons_of_neg (by simpa using hnever)]
  exact List.append_nil _

theorem finishedIn_started (hnew : eventsOf events number = []) :
    finishedIn (events ++ [.started number]) = finishedIn events := by
  have hresolved : resolvedIn (events ++ [.started number]) = resolvedIn events := by
    rw [resolvedIn_append]
    exact List.append_nil _
  rw [finishedIn, finishedIn, hresolved, startedIn_append]
  refine List.filter_congr fun n hn => ?_
  obtain ⟨event, hevent, hresolves⟩ := List.mem_filterMap.1 hn
  have hne : n ≠ number := by
    rintro rfl
    have hnone := List.filter_eq_nil_iff.1 hnew event hevent
    cases event <;> simp_all [TaskEvent.number]
  have hmem : n ∈ startedIn events ++ [number] ↔ n ∈ startedIn events := by
    simp [hne]
  exact decide_eq_decide.2 hmem

end Finished

/-- What started has ended, in the same order, but for the task that runs. -/
def OneByOne (q : TaskQueue α) : Prop :=
  finishedIn q.events ++ q.running.map (·.1) = startedIn q.events

theorem OneByOne.step (h : q.OneByOne) (hsound : q.Sound) (hledger : Ledger past begun givenUp q)
    (hworkers : q.workers = 1) (hs : Step q new q') : q'.OneByOne := by
  have hstaff := hsound.staffed.staff_le
  cases hs with
  | refuse | accept | close | heed | takeUp | foundNone => exact h
  | disconnect task hopen hgone => exact absurd hgone (hsound.staged.not_gone hopen)
  | hangUp hdrained =>
    rw [hsound.staged.hangUp_eq hdrained]
    exact h
  | reject task =>
    have hnever := hledger.not_started fun e he =>
      Nat.ne_of_lt (hledger.below e (hledger.mem_past_of_begun he))
    rw [OneByOne, finishedIn_ending_of_not_started task _ hnever, startedIn_append,
      startedIn_ending, List.append_nil]
    exact h
  | giveUp hdraining hwaiting =>
    rename_i number task rest
    have hfront : (number, task) ∈ givenUp ++ q.waiting :=
      List.mem_append_right _ (hwaiting ▸ List.mem_cons_self)
    have hnever := hledger.not_started fun e he => Nat.ne_of_lt (hledger.lt_of_begun he hfront)
    rw [OneByOne, finishedIn_ending_of_not_started task _ hnever, startedIn_append,
      startedIn_ending, List.append_nil]
    exact h
  | start hready hwaiting =>
    -- the dispatcher holds the only worker, so no task runs
    have hserving := hsound.staffed.serving (.inr hready)
    simp only [hready, Dispatcher.held] at hserving
    have hidle : q.running = [] := List.eq_nil_of_length_eq_zero (by omega)
    have hnew := hledger.waits _ (hwaiting ▸ List.mem_cons_self)
    rw [OneByOne, hidle, List.map_nil, List.append_nil] at h
    rw [OneByOne, finishedIn_started hnew, startedIn_append, h, hidle]
    rfl
  | finish hrunning =>
    rename_i number task
    have hin := List.mem_of_find?_eq_some hrunning
    have hone : q.running = [(number, task)] := by
      have hpos := List.length_pos_of_mem hin
      obtain ⟨e, he⟩ := List.length_eq_one_iff.1 (show q.running.length = 1 by omega)
      rw [he] at hin ⊢
      rw [List.mem_singleton.1 hin]
    have hstarted : number ∈ startedIn q.events := by
      rw [hledger.started]
      exact List.mem_map_of_mem (hledger.running _ hin)
    rw [OneByOne, hone] at h
    rw [OneByOne, hone, finishedIn_ending task _ hstarted, startedIn_append, startedIn_ending,
      List.append_nil, ← h]
    simp

theorem oneByOne_create {workers capacity : Nat} (h : create workers capacity = .ok q) :
    q.OneByOne := by
  obtain ⟨-, rfl⟩ := create_eq_ok_iff.1 h
  rfl

theorem OneByOne.after (h : q.OneByOne) (hsound : q.Sound) (hledger : Ledger past begun givenUp q)
    (hworkers : q.workers = 1) (as : List (Action α)) : (q.after as).OneByOne := by
  have hall := hsound.after_induction
    (P := fun past q => q.OneByOne ∧ q.workers = 1 ∧ ∃ begun givenUp, Ledger past begun givenUp q)
    (fun {past new q₁ q₂} hsound h hs => ?_) ⟨h, hworkers, begun, givenUp, hledger⟩ as
  · exact hall.1
  · obtain ⟨hone, hworkers, begun, givenUp, hledger⟩ := h
    obtain ⟨begun', givenUp', hledger', -⟩ := hledger.step hsound hs
    exact ⟨hone.step hsound hledger hworkers hs, hs.limits_eq.1.trans hworkers,
      begun', givenUp', hledger'⟩

/-! ### At rest -/

/-- **A task waits at rest only while all workers are busy.** -/
theorem Sound.busy_of_waiting (h : q.Sound) (hrest : q.Resting) (hopen : q.closed = false)
    (hwaiting : q.waiting ≠ []) : q.running.length = q.workers := by
  have hserves := h.staged.serves hopen
  have hserving := h.staffed.serving hserves
  have hblocked := hrest.1
  rcases hserves with hidle | hready
  · -- it waits for a worker, so none is free
    have hfree : q.freeWorkers = 0 := by
      refine Classical.byContradiction fun hfree => ?_
      simp [dispatch?, hidle, hfree] at hblocked
    simp only [hidle, Dispatcher.held, hfree] at hserving
    omega
  · -- it waits for a task, so none waits
    obtain ⟨e, rest, hline⟩ := List.exists_cons_of_ne_nil hwaiting
    simp [dispatch?, hready, hline] at hblocked

/-- When a queue is shut down and at rest no task waits. -/
theorem Sound.waiting_of_closed (h : q.Sound) (hrest : q.Resting) (hclosed : q.closed = true) :
    q.waiting = [] := by
  have hstopped := stopped_heed hclosed
  rw [hrest.2] at hstopped
  exact h.staged.emptied (.inr (gone_of_blocked hstopped hrest.1))

/-- A submission is told that the line is full only if it is, and nothing but the count of
rejections and the callback of the task is touched. -/
theorem Sound.submit_of_queueFull (h : q.Sound) {task : Task α} {f : QueueFault}
    (herror : (q.submit task).1 = .error f) (hkind : f.kind = .queueFull) :
    q.closed = false ∧ q.waiting.length = q.capacity ∧
      q.submit task = (.error (.full q.capacity), { q with
        submissions := q.submissions + 1
        events := q.events ++ ending q.submissions task (.error QueueFault.rejected.failure)
        counters := { q.counters with rejected := q.counters.rejected + 1 } }) := by
  cases hclosed : q.closed with
  | true =>
    rw [submit_of_closed task hclosed] at herror
    cases herror
    contradiction
  | false =>
    have hthere := h.staged.not_gone hclosed
    by_cases hfull : q.capacity ≤ q.waiting.length
    · have hlength := Nat.le_antisymm h.staffed.waiting_le hfull
      exact ⟨rfl, hlength, hclosed ▸ submit_of_full task hclosed hthere hfull⟩
    · rw [submit_of_room task hclosed hthere (Nat.lt_of_not_le hfull)] at herror
      contradiction

/-! ### All runs -/

/-- Order and bounds of a queue that has accepted the tasks `past`. -/
structure Orderly (workers capacity : Nat) (past : List (Nat × Task α)) (q : TaskQueue α) :
    Prop where
  started : startedIn q.events <+: past.map (·.1)
  finished : workers = 1 → finishedIn q.events ++ q.running.map (·.1) = startedIn q.events
  running_le : q.running.length ≤ workers
  waiting_le : q.waiting.length ≤ capacity
  busy : q.Resting → q.closed = false → q.waiting ≠ [] → q.running.length = workers
  /-- An open queue takes a task as long as there is a place to wait. -/
  acceptance : q.closed = false → q.waiting.length < capacity → ∀ task,
    q.submit task = (.ok q.submissions, { q with
      submissions := q.submissions + 1
      waiting := q.waiting ++ [(q.submissions, task)]
      counters := { q.counters with submitted := q.counters.submitted + 1 } })
  full_iff : q.Resting → q.closed = false → ∀ task,
    (q.submit task).1 = .error (.full capacity) ↔
      q.running.length = workers ∧ q.waiting.length = capacity
  rejection : ∀ task f, (q.submit task).1 = .error f → f.kind = .queueFull →
    q.submit task = (.error (.full capacity), { q with
      submissions := q.submissions + 1
      events := q.events ++ ending q.submissions task (.error QueueFault.rejected.failure)
      counters := { q.counters with rejected := q.counters.rejected + 1 } })
  emptied : q.Resting → q.closed = true → q.waiting = []
  shutdown : q.closed = false → q.shutdown.Resting ∧ q.shutdown.waiting = []
  /-- Left alone, the dispatcher comes to rest. -/
  rests : q.heed.dispatchAll.Resting

theorem Sound.orderly (h : q.Sound) (hledger : Ledger past begun givenUp q)
    (hone : q.workers = 1 → q.OneByOne) (hcapacity : 0 < q.capacity) :
    Orderly q.workers q.capacity past q where
  started := by
    rw [hledger.started, hledger.placed, List.append_assoc, List.map_append]
    exact List.prefix_append ..
  finished := hone
  running_le := by
    have := h.staffed.staff_le
    omega
  waiting_le := h.staffed.waiting_le
  busy := h.busy_of_waiting
  acceptance hopen hroom task := submit_of_room task hopen (h.staged.not_gone hopen) hroom
  full_iff hrest hopen task := by
    constructor
    · intro herror
      obtain ⟨-, hlength, -⟩ := h.submit_of_queueFull herror rfl
      have hwaiting : q.waiting ≠ [] := List.ne_nil_of_length_pos (hlength ▸ hcapacity)
      exact ⟨h.busy_of_waiting hrest hopen hwaiting, hlength⟩
    · rintro ⟨-, hlength⟩
      rw [submit_of_full task hopen (h.staged.not_gone hopen) (Nat.le_of_eq hlength.symm)]
  rejection task f herror hkind := (h.submit_of_queueFull herror hkind).2.2
  emptied := h.waiting_of_closed
  shutdown := h.shutdown
  rests := h.resting

/-- **First come, first served, within the bounds**: however a queue is used, from its creation
on. -/
theorem orderly_after_create (workers capacity : Nat) (hworkers : 0 < workers)
    (hcapacity : 0 < capacity) :
    ∃ q : TaskQueue α, create workers capacity = .ok q ∧
      ∀ as : List (Action α), Orderly workers capacity (q.accepted as) (q.after as) := by
  obtain ⟨q, hcreate, rfl, rfl⟩ := exists_create (α := α) workers capacity hworkers hcapacity
  have hsound := sound_create hcreate
  refine ⟨q, hcreate, fun as => ?_⟩
  obtain ⟨begun, givenUp, hledger, -⟩ := (ledger_create hcreate).after hsound as
  obtain ⟨hsameWorkers, hsameCapacity⟩ := limits_after q as
  rw [← hsameWorkers, ← hsameCapacity]
  refine (sound_after hsound as).orderly hledger (fun hone => ?_) (hsameCapacity ▸ hcapacity)
  exact (oneByOne_create hcreate).after hsound (ledger_create hcreate) (hsameWorkers ▸ hone) as

/-- Two tasks end in the order in which they were submitted, and a third one finds the line
full. -/
theorem orderly_two_tasks :
    ∃ q : TaskQueue Nat, create 1 1 = .ok q ∧
      ∃ as : List (Action Nat), Orderly 1 1 (q.accepted as) (q.after as) ∧
        finishedIn (q.after as).events = [0, 1] ∧ (q.after as).counters.rejected = 1 := by
  obtain ⟨q, hcreate, h⟩ := orderly_after_create (α := Nat) 1 1 (by decide) (by decide)
  obtain rfl := Except.ok.inj hcreate
  exact ⟨_, rfl, [.dispatch, .submit ⟨.returns (.ok 7), none, false⟩, .dispatch,
    .submit ⟨.panics, none, false⟩, .submit ⟨.panics, none, false⟩, .finish 0, .dispatch,
    .dispatch, .finish 1], h _, rfl, rfl⟩

end TaskQueue
end KeyedRows
