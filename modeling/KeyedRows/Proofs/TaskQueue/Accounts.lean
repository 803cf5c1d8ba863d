/-
# What becomes of a task

An accepted task waits, runs, has run or was given up, and its events are those of
its place in the ledger. The queue does only so much by itself (`due_act`), and
when it can do no more every accepted task has ended (`Sound.ended_of_quiet`).
What waits when the queue is shut down is given up (`Ledger.events_shutdown`), and
no task is accepted after that (`accepted_of_closed`). The counters say how many
handles have resolved to a value, and how many to a failure (`Tallied`).

Main statement: `accounted_after_create`.
-/

import KeyedRows.Proofs.TaskQueue.Ledger

namespace KeyedRows

/-- A handle has resolved to a value. -/
def TaskEvent.isSuccess {α : Type} : TaskEvent α → Bool
  | resolved _ (.ok _) => true
  | resolved _ (.error _) | started _ | called _ _ => false

/-- A handle has resolved to a failure. -/
def TaskEvent.isFailure {α : Type} : TaskEvent α → Bool
  | resolved _ (.error _) => true
  | resolved _ (.ok _) | started _ | called _ _ => false

namespace TaskQueue

variable {α : Type} {q q' : TaskQueue α} {new past begun givenUp : List (Nat × Task α)}

/-! ### After closing -/

/-- A closed queue stays closed. -/
theorem Step.closed (hs : Step q new q') (hclosed : q.closed = true) : q'.closed = true := by
  cases hs with
  | hangUp =>
    obtain ⟨events, counters, hfold⟩ :=
      foldl_fail .dropped q.waiting { q with dispatcher := .gone, waiting := [] }
    rw [hfold]
    exact hclosed
  | close => rfl
  | refuse | reject | disconnect | accept => exact hclosed
  | heed | takeUp | start | giveUp | foundNone | finish => exact hclosed

/-- After shutdown no task is accepted. -/
theorem accepted_of_closed (hclosed : q.closed = true) (as : List (Action α)) :
    q.accepted as = [] := by
  have hall := after_induction (P := fun past q => q.closed = true ∧ past = [])
    (fun {past new q q'} h hs => ?_) ⟨hclosed, rfl⟩ as
  · simpa using hall.2
  · refine ⟨hs.closed h.1, ?_⟩
    -- only an open queue takes a task in
    cases hs with
    | accept task hopen => rw [h.1] at hopen; contradiction
    | refuse | reject | disconnect => simpa using h.2
    | close | heed | takeUp | start | giveUp | foundNone | hangUp | finish => simpa using h.2

/-! ### What is left to do -/

/-- **What a queue does by itself comes to an end.** -/
theorem due_act (q : TaskQueue α) {a : Action α} (hown : a.isOwn = true) :
    q.act a = q ∨ (q.act a).due < q.due := by
  cases a with
  | submit | close => contradiction
  | heed =>
    rw [act, heed]
    split
    · rename_i hheeds
      right
      rcases hheeds.2 with hd | hd <;> simp [due, hd, Dispatcher.stage]
    · exact .inl rfl
  | dispatch =>
    rw [act]
    cases h : q.dispatch? with
    | none => exact .inl rfl
    | some q' => exact .inr (due_dispatch? h)
  | finish number =>
    rw [act, finish]
    split
    · exact .inl rfl
    · rename_i m task hfind
      right
      have hm := List.find?_some hfind
      have hlt : (q.running.filter (·.1 ≠ number)).length < q.running.length := by
        refine List.length_filter_lt_length_iff_exists.2 ⟨_, List.mem_of_find?_eq_some hfind, ?_⟩
        simpa using hm
      simp only [due]
      omega

/-- **When a queue can do no more by itself, nothing waits and nothing runs.** -/
theorem Sound.ended_of_quiet (h : q.Sound) (hworkers : 0 < q.workers)
    (hquiet : ∀ a : Action α, a.isOwn = true → q.act a = q) :
    q.waiting = [] ∧ q.running = [] := by
  have hdispatch : q.dispatch? = none := by
    cases hgoes : q.dispatch? with
    | none => rfl
    | some q' =>
      have hsame := hquiet .dispatch rfl
      rw [act, hgoes] at hsame
      have hlt := due_dispatch? hgoes
      rw [show q' = q from hsame] at hlt
      exact absurd hlt (Nat.lt_irrefl _)
  have hrunning : q.running = [] := by
    cases hline : q.running with
    | nil => rfl
    | cons e rest =>
      have hsame := hquiet (.finish e.1) rfl
      have hfind : q.running.find? (·.1 = e.1) = some (e.1, e.2) := by simp [hline]
      have hlength := h.numbered.length_running_finish hfind
      have hrun : (q.finish e.1).running = q.running := congrArg TaskQueue.running hsame
      rw [finish, hfind] at hrun
      rw [show q.running.filter (·.1 ≠ e.1) = q.running from hrun] at hlength
      omega
  refine ⟨?_, hrunning⟩
  cases hd : q.dispatcher with
  | idle =>
    have hfree : q.freeWorkers ≠ 0 := by
      have hserving := h.staffed.serving (.inl hd)
      simp only [hd, hrunning, Dispatcher.held, List.length_nil] at hserving
      omega
    simp [dispatch?, hd, hfree] at hdispatch
  | ready =>
    cases hwaiting : q.waiting with
    | nil => rfl
    | cons e rest => simp [dispatch?, hd, hwaiting] at hdispatch
  | draining => cases hwaiting : q.waiting <;> simp [dispatch?, hd, hwaiting] at hdispatch
  | drained => simp [dispatch?, hd] at hdispatch
  | gone => exact h.staged.emptied (.inr hd)

/-! ### Shutting down -/

/-- **What waits at shutdown is given up.** -/
theorem Ledger.events_shutdown (h : Ledger past begun givenUp q) (hsound : q.Sound) (hopen : q.closed = false)
    {e : Nat × Task α} (he : e ∈ q.waiting) :
    eventsOf q.shutdown.events e.1 = givenUpEvents e := by
  have hclose : q.close.Sound := sound_after hsound [.close]
  have hstopped : ¬ q.close.heed.dispatcher.Serves := stopped_heed rfl
  -- the dispatcher heeds the close before anything else, so the ledger is still the same
  have hledger : Ledger past begun givenUp q.close.heed := by
    rw [heed, if_pos ⟨rfl, hsound.staged.serves hopen⟩]
    exact { h with stopped := fun _ => by simp [Dispatcher.Serves] }
  have hshutdown : q.close.heed.dispatchAll = q.shutdown := by
    rw [shutdown, hopen]
    rfl
  obtain ⟨as, hown, has⟩ := goesTo_dispatchAll q.close.heed
  obtain ⟨begun', givenUp', hledger', hsame⟩ := hledger.after hclose.heed as
  obtain rfl := hsame hstopped
  rw [has, hshutdown, accepted_of_own hown, List.append_nil] at hledger'
  have hpast := h.mem_past_of_waits he
  rw [hledger'.placed, (hsound.shutdown hopen).2, List.append_nil] at hpast
  rcases List.mem_append.1 hpast with hbegun | hgaveUp
  · exact absurd (h.lt_of_begun hbegun (List.mem_append_right _ he)) (Nat.lt_irrefl _)
  · exact hledger'.gaveUp e hgaveUp

/-! ### Outcomes and counters -/

/-- Each handle that has resolved is counted once: as completed, or as one of the three ways in which
a task can come to a failure. -/
structure Tallied (q : TaskQueue α) : Prop where
  successes : q.counters.completed = q.events.countP (·.isSuccess)
  failures : q.counters.failed + q.counters.cancelled + q.counters.rejected =
    q.events.countP (·.isFailure)

theorem countP_ending_ok (number : Nat) (task : Task α) (a : α) :
    (ending number task (.ok a)).countP (·.isSuccess) = 1 ∧
      (ending number task (.ok a)).countP (·.isFailure) = 0 := by
  unfold ending
  split <;> exact ⟨rfl, rfl⟩

theorem countP_ending_error (number : Nat) (task : Task α) (f : Failure) :
    (ending number task (.error f)).countP (·.isSuccess) = 0 ∧
      (ending number task (.error f)).countP (·.isFailure) = 1 := by
  unfold ending
  split <;> exact ⟨rfl, rfl⟩

theorem Tallied.step (h : q.Tallied) (hstaged : q.Staged) (hs : Step q new q') : q'.Tallied := by
  obtain ⟨hsuccesses, hfailures⟩ := h
  cases hs with
  | refuse | accept | close | heed | takeUp | foundNone => exact ⟨hsuccesses, hfailures⟩
  | disconnect task hopen hgone => exact absurd hgone (hstaged.not_gone hopen)
  | hangUp hdrained =>
    rw [hstaged.hangUp_eq hdrained]
    exact ⟨hsuccesses, hfailures⟩
  | start =>
    constructor
    · simpa [TaskEvent.isSuccess] using hsuccesses
    · simpa [TaskEvent.isFailure] using hfailures
  | reject task =>
    obtain ⟨hok, herror⟩ := countP_ending_error q.submissions task QueueFault.rejected.failure
    constructor <;> simp only [List.countP_append, hok, herror] <;> omega
  | @giveUp number task =>
    obtain ⟨hok, herror⟩ := countP_ending_error number task QueueFault.givenUp.failure
    constructor <;> simp only [List.countP_append, hok, herror] <;> omega
  | @finish number task =>
    cases houtcome : task.work.outcome with
    | ok a =>
      obtain ⟨hok, herror⟩ := countP_ending_ok number task a
      constructor <;> simp only [List.countP_append, count, hok, herror] <;> omega
    | error f =>
      obtain ⟨hok, herror⟩ := countP_ending_error number task f
      constructor <;> simp only [List.countP_append, count, hok, herror] <;> omega

/-! ### All runs -/

/-- What has become of an accepted task. -/
inductive Fate (q : TaskQueue α) (e : Nat × Task α) : Prop where
  | waits (hwaits : e ∈ q.waiting) (hevents : eventsOf q.events e.1 = [])
  | runs (hruns : e ∈ q.running) (hevents : eventsOf q.events e.1 = [.started e.1])
  /-- It ran, and ended with what its work came to. -/
  | ran (hgone : e ∉ q.waiting ++ q.running) (hevents : eventsOf q.events e.1 = ranEvents e)
  /-- It still waited at shutdown, and was cancelled. -/
  | gaveUp (hgone : e ∉ q.waiting ++ q.running) (hclosed : q.closed = true)
    (hevents : eventsOf q.events e.1 = givenUpEvents e)

/-- The accounts of a queue that has accepted the tasks `past`. -/
structure Accounted (past : List (Nat × Task α)) (q : TaskQueue α) : Prop where
  ascending : (past.map (·.1)).Pairwise (· < ·)
  fate : ∀ e ∈ past, Fate q e
  present : ∀ e ∈ q.waiting ++ q.running, e ∈ past
  submitted : q.counters.submitted = past.length
  balance : q.counters.submitted =
    q.counters.completed + q.counters.failed + q.counters.cancelled
      + q.waiting.length + q.running.length
  tallied : q.Tallied
  /-- What has happened is not undone. -/
  kept : ∀ as, q.events <+: (q.after as).events
  closed : q.closed = true → ∀ as, q.accepted as = []
  shutdown : q.closed = false → ∀ e ∈ q.waiting,
    eventsOf q.shutdown.events e.1 = givenUpEvents e
  /-- The queue does only so much by itself … -/
  due : ∀ a : Action α, a.isOwn = true → q.act a = q ∨ (q.act a).due < q.due
  /-- … and when it can do no more every accepted task has ended. -/
  ended : (∀ a : Action α, a.isOwn = true → q.act a = q) → q.waiting = [] ∧ q.running = []

theorem Ledger.fate (h : Ledger past begun givenUp q)
    (hsound : q.Sound) {e : Nat × Task α} (he : e ∈ past) : Fate q e := by
  by_cases hruns : e ∈ q.running
  · exact .runs hruns (h.runs e hruns)
  by_cases hwaits : e ∈ q.waiting
  · exact .waits hwaits (h.waits e hwaits)
  have hgone : e ∉ q.waiting ++ q.running := by
    intro hmem
    exact (List.mem_append.1 hmem).elim hwaits hruns
  have hplaced := he
  rw [h.placed] at hplaced
  rcases List.mem_append.1 hplaced with hleft | hwaiting
  · rcases List.mem_append.1 hleft with hbegun | hgaveUp
    · exact .ran hgone (h.ran e hbegun hruns)
    · have hstopped := h.stopped (List.ne_nil_of_mem hgaveUp)
      exact .gaveUp hgone (hsound.staged.closed hstopped) (h.gaveUp e hgaveUp)
  · exact absurd hwaiting hwaits

theorem Step.events_prefix (hs : Step q new q') (hstaged : q.Staged) : q.events <+: q'.events := by
  cases hs with
  | hangUp hdrained =>
    have hsame := congrArg TaskQueue.events (hstaged.hangUp_eq hdrained)
    exact ⟨[], (List.append_nil _).trans hsame.symm⟩
  | reject | disconnect | start | giveUp | finish => exact List.prefix_append ..
  | refuse | accept | close | heed | takeUp | foundNone => exact List.prefix_refl _

theorem events_prefix_after (h : q.Sound) (as : List (Action α)) :
    q.events <+: (q.after as).events :=
  h.after_of_step (P := fun q' => q.events <+: q'.events)
    (fun hsound hprefix hs => hprefix.trans (hs.events_prefix hsound.staged))
    (List.prefix_refl _) as

theorem tallied_create {workers capacity : Nat} (h : create workers capacity = .ok q) :
    q.Tallied := by
  obtain ⟨-, rfl⟩ := create_eq_ok_iff.1 h
  exact ⟨rfl, rfl⟩

theorem Ledger.accounted (h : Ledger past begun givenUp q) (hsound : q.Sound)
    (htallied : q.Tallied) (hworkers : 0 < q.workers) : Accounted past q where
  ascending := h.ascending
  fate e he := h.fate hsound he
  present e he := by
    rcases List.mem_append.1 he with hwaits | hruns
    · exact h.mem_past_of_waits hwaits
    · exact h.mem_past_of_begun (h.running e hruns)
  submitted := h.submitted
  balance := by
    have hfinished := h.finished
    rw [h.submitted, h.cancelled, h.placed]
    simp only [List.length_append]
    omega
  tallied := htallied
  kept := events_prefix_after hsound
  closed := accepted_of_closed
  shutdown hopen e he := h.events_shutdown hsound hopen he
  due a := due_act q
  ended := hsound.ended_of_quiet hworkers

/-- **Every accepted task gets one outcome**, and the counters add up: however a queue is used, from
its creation on. -/
theorem accounted_after_create (workers capacity : Nat) (hworkers : 0 < workers)
    (hcapacity : 0 < capacity) :
    ∃ q : TaskQueue α, create workers capacity = .ok q ∧
      ∀ as : List (Action α), Accounted (q.accepted as) (q.after as) := by
  obtain ⟨q, hcreate, rfl, rfl⟩ := exists_create (α := α) workers capacity hworkers hcapacity
  have hsound := sound_create hcreate
  refine ⟨q, hcreate, fun as => ?_⟩
  obtain ⟨begun, givenUp, hledger, -⟩ := (ledger_create hcreate).after hsound as
  have htallied := hsound.after_of_step (fun h ht hs => ht.step h.staged hs)
    (tallied_create hcreate) as
  exact hledger.accounted (sound_after hsound as) htallied ((limits_after q as).1 ▸ hworkers)

/-- One worker runs a task that panics; the task behind it is cancelled at shutdown. -/
theorem accounted_panic_shutdown :
    ∃ q : TaskQueue Nat, create 1 1 = .ok q ∧
      ∃ as : List (Action Nat), Accounted (q.accepted as) (q.after as) ∧
        (q.after as).events =
          [.started 0, .called 1 (.error QueueFault.givenUp.failure),
            .resolved 1 (.error QueueFault.givenUp.failure),
            .resolved 0 (.error QueueFault.panicked.failure)] := by
  obtain ⟨q, hcreate, h⟩ := accounted_after_create (α := Nat) 1 1 (by decide) (by decide)
  obtain rfl := Except.ok.inj hcreate
  exact ⟨_, rfl, [.dispatch, .submit ⟨.panics, none, true⟩, .dispatch,
    .submit ⟨.returns (.ok 7), some .panics, false⟩, .close, .heed, .dispatch, .finish 0], h _, rfl⟩

end TaskQueue
end KeyedRows
