/-
# What a queue can do

A run of a queue is a list of actions in any order: tasks are submitted, workers
finish them, the dispatcher goes on or heeds that it was told to stop, the queue is
closed. An action that is not due changes nothing, so every list is a run.

`Step` says once what an action can come to: which of the ways through `submit`
and through the dispatcher was taken, what was true before, and how the queue
looks after it. Everything that holds of all runs is shown for each `Step` and
carried over by `after_of_step`, or by `after_induction` if it speaks of the
tasks that were accepted on the way.

Main statements: `step_act`, and `goesTo_settle`, `goesTo_dispatchAll`,
`goesTo_shutdown`: what brings a queue to rest, or shuts it down, is a run.
-/

import KeyedRows.TaskQueue

namespace KeyedRows
namespace TaskQueue

variable {α : Type}

/-! ### Actions -/

/-- Something that is done to a queue, or that it does itself. -/
inductive Action (α : Type) where
  | submit (task : Task α)
  | close
  | heed
  | dispatch
  | finish (number : Nat)

/-- The dispatcher and the workers do this without being asked. -/
def Action.isOwn : Action α → Bool
  | heed | dispatch | finish _ => true
  | submit _ | close => false

/-- Carries out an action. -/
def act (q : TaskQueue α) : Action α → TaskQueue α
  | .submit task => (q.submit task).2
  | .close => q.close
  | .heed => q.heed
  | .dispatch => q.dispatch?.getD q
  | .finish number => q.finish number

/-- The task that an action brings into the queue, with its number. -/
def accepts (q : TaskQueue α) : Action α → List (Nat × Task α)
  | .submit task =>
    match (q.submit task).1 with
    | .ok number => [(number, task)]
    | .error _ => []
  | .close | .heed | .dispatch | .finish _ => []

/-- The queue after actions, one after another. -/
def after (q : TaskQueue α) : List (Action α) → TaskQueue α
  | [] => q
  | a :: as => (q.act a).after as

/-- The tasks that were accepted meanwhile, in the order of their submission. -/
def accepted (q : TaskQueue α) : List (Action α) → List (Nat × Task α)
  | [] => []
  | a :: as => q.accepts a ++ (q.act a).accepted as

theorem after_append (q : TaskQueue α) (as bs : List (Action α)) :
    q.after (as ++ bs) = (q.after as).after bs := by
  induction as generalizing q with
  | nil => rfl
  | cons a as ih => exact ih (q.act a)

/-- What the queue does by itself brings no task into it. -/
theorem accepted_of_own {q : TaskQueue α} {as : List (Action α)}
    (h : ∀ a ∈ as, a.isOwn = true) : q.accepted as = [] := by
  induction as generalizing q with
  | nil => rfl
  | cons a as ih =>
    obtain ⟨ha, has⟩ := List.forall_mem_cons.1 h
    have hnone : q.accepts a = [] := by
      cases a with
      | submit | close => contradiction
      | heed | dispatch | finish => rfl
    rw [accepted, hnone, ih has]
    rfl

/-! ### Steps -/

/-- What an action comes to: the task that it brings into the queue, and the queue after it. -/
inductive Step (q : TaskQueue α) : List (Nat × Task α) → TaskQueue α → Prop where
  /-- A closed queue refuses a task. -/
  | refuse (hclosed : q.closed = true) : Step q [] { q with submissions := q.submissions + 1 }
  /-- The dispatcher has hung up, so the task cannot be handed in. -/
  | disconnect (task : Task α) (hopen : q.closed = false) (hgone : q.dispatcher = .gone) :
      Step q [] ({ q with submissions := q.submissions + 1 }.fail q.submissions task .shutDown)
  /-- The line is full. -/
  | reject (task : Task α) (hopen : q.closed = false) (hfull : q.capacity ≤ q.waiting.length) :
      Step q [] { q with
        submissions := q.submissions + 1
        events := q.events ++ ending q.submissions task (.error QueueFault.rejected.failure)
        counters := { q.counters with rejected := q.counters.rejected + 1 } }
  | accept (task : Task α) (hopen : q.closed = false) (hroom : q.waiting.length < q.capacity) :
      Step q [(q.submissions, task)] { q with
        submissions := q.submissions + 1
        waiting := q.waiting ++ [(q.submissions, task)]
        counters := { q.counters with submitted := q.counters.submitted + 1 } }
  | close : Step q [] { q with closed := true }
  | heed (hclosed : q.closed = true) (hwaits : q.dispatcher = .idle ∨ q.dispatcher = .ready) :
      Step q [] { q with dispatcher := .draining }
  /-- The dispatcher takes up a free worker. -/
  | takeUp (hidle : q.dispatcher = .idle) (hfree : q.freeWorkers ≠ 0) :
      Step q [] { q with dispatcher := .ready, freeWorkers := q.freeWorkers - 1 }
  | start {number : Nat} {task : Task α} {rest : List (Nat × Task α)}
      (hready : q.dispatcher = .ready) (hwaiting : q.waiting = (number, task) :: rest) :
      Step q [] { q with
        dispatcher := .idle
        waiting := rest
        running := q.running ++ [(number, task)]
        events := q.events ++ [.started number] }
  | giveUp {number : Nat} {task : Task α} {rest : List (Nat × Task α)}
      (hdraining : q.dispatcher = .draining) (hwaiting : q.waiting = (number, task) :: rest) :
      Step q [] { q with
        waiting := rest
        events := q.events ++ ending number task (.error QueueFault.givenUp.failure)
        counters := { q.counters with cancelled := q.counters.cancelled + 1 } }
  | foundNone (hdraining : q.dispatcher = .draining) (hwaiting : q.waiting = []) :
      Step q [] { q with dispatcher := .drained }
  /-- Tasks that were still in the line are dropped. -/
  | hangUp (hdrained : q.dispatcher = .drained) :
      Step q [] (q.waiting.foldl (fun q e => q.fail e.1 e.2 .dropped)
        { q with dispatcher := .gone, waiting := [] })
  | finish {number : Nat} {task : Task α}
      (hrunning : q.running.find? (·.1 = number) = some (number, task)) :
      Step q [] { q with
        freeWorkers := q.freeWorkers + 1
        running := q.running.filter (·.1 ≠ number)
        events := q.events ++ ending number task task.work.outcome
        counters := count q.counters task.work.outcome }

/-! ### Submitting -/

section Submit
variable {q : TaskQueue α} (task : Task α)

theorem submit_of_closed (hclosed : q.closed = true) :
    q.submit task = (.error .shutDown, { q with submissions := q.submissions + 1 }) := by
  rw [submit]
  exact if_pos hclosed

theorem submit_of_gone (hopen : q.closed = false) (hgone : q.dispatcher = .gone) :
    q.submit task = (.error .shutDown,
      { q with submissions := q.submissions + 1 }.fail q.submissions task .shutDown) := by
  rw [submit]
  exact (if_neg (Bool.eq_false_iff.1 hopen)).trans (if_pos hgone)

theorem submit_of_full (hopen : q.closed = false) (hthere : q.dispatcher ≠ .gone)
    (hfull : q.capacity ≤ q.waiting.length) :
    q.submit task = (.error (.full q.capacity), { q with
      submissions := q.submissions + 1
      events := q.events ++ ending q.submissions task (.error QueueFault.rejected.failure)
      counters := { q.counters with rejected := q.counters.rejected + 1 } }) := by
  rw [submit]
  exact (if_neg (Bool.eq_false_iff.1 hopen)).trans ((if_neg hthere).trans (if_pos hfull))

theorem submit_of_room (hopen : q.closed = false) (hthere : q.dispatcher ≠ .gone)
    (hroom : q.waiting.length < q.capacity) :
    q.submit task = (.ok q.submissions, { q with
      submissions := q.submissions + 1
      waiting := q.waiting ++ [(q.submissions, task)]
      counters := { q.counters with submitted := q.counters.submitted + 1 } }) := by
  rw [submit]
  exact (if_neg (Bool.eq_false_iff.1 hopen)).trans
    ((if_neg hthere).trans (if_neg (Nat.not_le.2 hroom)))

theorem step_submit : Step q (q.accepts (.submit task)) (q.submit task).2 := by
  rw [accepts]
  cases hclosed : q.closed with
  | true =>
    rw [submit_of_closed task hclosed]
    exact .refuse hclosed
  | false =>
    by_cases hgone : q.dispatcher = .gone
    · rw [submit_of_gone task hclosed hgone]
      exact .disconnect task hclosed hgone
    by_cases hfull : q.capacity ≤ q.waiting.length
    · rw [submit_of_full task hclosed hgone hfull]
      exact .reject task hclosed hfull
    · have hroom := Nat.lt_of_not_le hfull
      rw [submit_of_room task hclosed hgone hroom]
      exact .accept task hclosed hroom

end Submit

theorem step_dispatch? {q q' : TaskQueue α} (h : q.dispatch? = some q') : Step q [] q' := by
  unfold dispatch? at h
  split at h
  case h_1 hidle =>
    split at h
    · contradiction
    · rename_i hfree
      obtain rfl := Option.some.inj h
      exact .takeUp hidle hfree
  case h_2 => contradiction
  case h_3 hready hwaiting =>
    obtain rfl := Option.some.inj h
    exact .start hready hwaiting
  case h_4 hdraining hwaiting =>
    obtain rfl := Option.some.inj h
    exact .foundNone hdraining hwaiting
  case h_5 hdraining hwaiting =>
    obtain rfl := Option.some.inj h
    exact .giveUp hdraining hwaiting
  case h_6 hdrained =>
    obtain rfl := Option.some.inj h
    exact .hangUp hdrained
  case h_7 => contradiction

/-- **Whatever is done to a queue is a step**, unless it is not due and changes nothing. -/
theorem step_act (q : TaskQueue α) (a : Action α) :
    Step q (q.accepts a) (q.act a) ∨ q.act a = q ∧ q.accepts a = [] := by
  cases a with
  | submit task => exact .inl (step_submit task)
  | close => exact .inl .close
  | heed =>
    rw [act, heed]
    split
    · rename_i hheeds
      exact .inl (.heed hheeds.1 hheeds.2)
    · exact .inr ⟨rfl, rfl⟩
  | dispatch =>
    rw [act]
    cases h : q.dispatch? with
    | none => exact .inr ⟨rfl, rfl⟩
    | some q' => exact .inl (step_dispatch? h)
  | finish number =>
    rw [act, finish]
    split
    · exact .inr ⟨rfl, rfl⟩
    · rename_i m task hfind
      have hm : m = number := by simpa using List.find?_some hfind
      subst hm
      exact .inl (.finish hfind)

/-- **What every step keeps, every run keeps.** The property may speak of the tasks that were
accepted so far. -/
theorem after_induction {P : List (Nat × Task α) → TaskQueue α → Prop}
    (hstep : ∀ {past new : List (Nat × Task α)} {q q' : TaskQueue α},
      P past q → Step q new q' → P (past ++ new) q')
    {past : List (Nat × Task α)} {q : TaskQueue α} (h : P past q) (as : List (Action α)) :
    P (past ++ q.accepted as) (q.after as) := by
  induction as generalizing past q with
  | nil => simpa [accepted, after] using h
  | cons a as ih =>
    rw [accepted, after, ← List.append_assoc]
    rcases q.step_act a with hs | ⟨hsame, hnone⟩
    · exact ih (hstep h hs)
    · rw [hsame, hnone, List.append_nil]
      exact ih h

/-- What every step keeps of the queue alone, every run keeps. -/
theorem after_of_step {P : TaskQueue α → Prop}
    (hstep : ∀ {new : List (Nat × Task α)} {q q' : TaskQueue α}, P q → Step q new q' → P q')
    {q : TaskQueue α} (h : P q) (as : List (Action α)) : P (q.after as) := by
  induction as generalizing q with
  | nil => exact h
  | cons a as ih =>
    rw [after]
    rcases q.step_act a with hs | ⟨hsame, -⟩
    · exact ih (hstep h hs)
    · exact ih (hsame.symm ▸ h)

/-! ### Rest -/

/-- A queue that comes about by what it does itself. -/
def GoesTo (q q' : TaskQueue α) : Prop :=
  ∃ as : List (Action α), (∀ a ∈ as, a.isOwn = true) ∧ q.after as = q'

namespace GoesTo
variable {q q' q'' : TaskQueue α}

theorem refl (q : TaskQueue α) : q.GoesTo q := ⟨[], by simp, rfl⟩

theorem trans (h : q.GoesTo q') (h' : q'.GoesTo q'') : q.GoesTo q'' := by
  obtain ⟨as, has, rfl⟩ := h
  obtain ⟨bs, hbs, rfl⟩ := h'
  refine ⟨as ++ bs, ?_, q.after_append as bs⟩
  intro a ha
  rcases List.mem_append.1 ha with ha | ha
  · exact has a ha
  · exact hbs a ha

theorem act (q : TaskQueue α) {a : Action α} (ha : a.isOwn = true) : q.GoesTo (q.act a) :=
  ⟨[a], by simpa using ha, rfl⟩

theorem dispatch? (h : q.dispatch? = some q') : q.GoesTo q' := by
  have hact : q.act .dispatch = q' := by rw [TaskQueue.act, h]; rfl
  exact hact ▸ act q rfl

theorem finishUnheld (q : TaskQueue α) : q.GoesTo q.finishUnheld := by
  rw [TaskQueue.finishUnheld]
  generalize q.running.filter (!·.2.held) = tasks
  induction tasks generalizing q with
  | nil => exact refl q
  | cons e tasks ih => exact (act q (a := .finish e.1) rfl).trans (ih (q.finish e.1))

end GoesTo

theorem goesTo_dispatchAll (q : TaskQueue α) : q.GoesTo q.dispatchAll := by
  fun_induction dispatchAll q with
  | case1 q hblocked => exact .refl q
  | case2 q q' hgoes _ ih => exact (GoesTo.dispatch? hgoes).trans ih

/-- **Settling is a run** in which the queue does everything by itself. -/
theorem goesTo_settle (q : TaskQueue α) : q.GoesTo q.settle := by
  fun_induction settle q with
  | case1 q hblocked => exact .refl q
  | case2 q q' hgoes _ ih =>
    exact (GoesTo.dispatch? hgoes).trans ((GoesTo.finishUnheld q').trans ih)

/-- **Shutting down is a run** that begins by closing the queue. -/
theorem goesTo_shutdown {q : TaskQueue α} (hopen : q.closed = false) :
    q.close.GoesTo q.shutdown := by
  rw [shutdown, hopen]
  exact (GoesTo.act q.close (a := .heed) rfl).trans (goesTo_dispatchAll _)

end TaskQueue
end KeyedRows
