/-
# The accounts of a queue

Tasks leave the line at its front: first those that are started, then, once the
dispatcher has stopped, those that are given up. So at any time the accepted tasks
are those that have begun, those given up and those that wait, one after another,
and the events of each are known from where it is: none while it waits, its start
while it runs, and its start and its ending once it has run. A task that is given
up has an ending alone. `Ledger` says this, with what the counters come to.

Main statements: `Ledger.step`, each step keeps the ledger, and after the
dispatcher has stopped no task begins; `Ledger.after`, so does every run.
-/

import KeyedRows.Proofs.TaskQueue.Workers

namespace KeyedRows

/-- The task that it happens to. -/
def TaskEvent.number {α : Type} : TaskEvent α → Nat
  | started n | called n _ | resolved n _ => n

namespace TaskQueue

variable {α : Type} {q q' : TaskQueue α} {new past : List (Nat × Task α)}

/-! ### The events of one task -/

/-- What happened to the task with a given number, in order. -/
def eventsOf (events : List (TaskEvent α)) (number : Nat) : List (TaskEvent α) :=
  events.filter (·.number = number)

/-- What happens to a task that runs to its end. -/
def ranEvents (e : Nat × Task α) : List (TaskEvent α) :=
  .started e.1 :: ending e.1 e.2 e.2.work.outcome

/-- What happens to a task that still waits when the dispatcher stops. -/
def givenUpEvents (e : Nat × Task α) : List (TaskEvent α) :=
  ending e.1 e.2 (.error QueueFault.givenUp.failure)

theorem number_of_mem_ending {number : Nat} {task : Task α} {outcome : Except Failure α}
    {event : TaskEvent α} (h : event ∈ ending number task outcome) : event.number = number := by
  unfold ending at h
  split at h
  · simp only [List.mem_cons, List.not_mem_nil, or_false] at h
    obtain rfl | rfl := h <;> rfl
  · rw [List.mem_singleton.1 h]
    rfl

theorem eventsOf_append (events more : List (TaskEvent α)) (number : Nat) :
    eventsOf (events ++ more) number = eventsOf events number ++ eventsOf more number :=
  List.filter_append ..

/-- What happens to one task leaves the events of the others as they are. -/
theorem eventsOf_append_ne {events more : List (TaskEvent α)} {number other : Nat}
    (hmore : ∀ event ∈ more, event.number = number) (hne : other ≠ number) :
    eventsOf (events ++ more) other = eventsOf events other := by
  have hnone : eventsOf more other = [] := by
    refine List.filter_eq_nil_iff.2 fun event hevent => ?_
    rw [hmore event hevent, decide_eq_true_iff]
    exact fun h => hne h.symm
  rw [eventsOf_append, hnone, List.append_nil]

theorem eventsOf_append_self {events more : List (TaskEvent α)} {number : Nat}
    (hmore : ∀ event ∈ more, event.number = number) :
    eventsOf (events ++ more) number = eventsOf events number ++ more := by
  rw [eventsOf_append]
  congr 1
  exact List.filter_eq_self.2 fun event hevent => decide_eq_true (hmore event hevent)

theorem startedIn_append (events more : List (TaskEvent α)) :
    startedIn (events ++ more) = startedIn events ++ startedIn more :=
  List.filterMap_append

/-- The end of a task is not a start. -/
theorem startedIn_ending (number : Nat) (task : Task α) (outcome : Except Failure α) :
    startedIn (ending number task outcome) = [] := by
  unfold ending
  split <;> rfl

/-- Tasks in ascending order are told apart by their numbers. -/
theorem eq_of_number_eq {tasks : List (Nat × Task α)} {e e' : Nat × Task α}
    (hascending : (tasks.map (·.1)).Pairwise (· < ·)) (he : e ∈ tasks) (he' : e' ∈ tasks)
    (hnumber : e.1 = e'.1) : e = e' := by
  induction tasks with
  | nil => contradiction
  | cons head tasks ih =>
    obtain ⟨hhead, htail⟩ := List.pairwise_cons.1 hascending
    have hlt : ∀ {e}, e ∈ tasks → head.1 < e.1 := fun he => hhead _ (List.mem_map_of_mem he)
    rcases List.mem_cons.1 he with rfl | hlater <;> rcases List.mem_cons.1 he' with rfl | hlater'
    · rfl
    · exact absurd hnumber (Nat.ne_of_lt (hlt hlater'))
    · exact absurd hnumber.symm (Nat.ne_of_lt (hlt hlater))
    · exact ih htail hlater hlater'

/-! ### The ledger -/

/-- The accounts of a queue: `past` are the accepted tasks, of which some have begun and some were
given up. -/
structure Ledger (past begun givenUp : List (Nat × Task α)) (q : TaskQueue α) : Prop where
  placed : past = begun ++ givenUp ++ q.waiting
  ascending : (past.map (·.1)).Pairwise (· < ·)
  below : ∀ e ∈ past, e.1 < q.submissions
  running : ∀ e ∈ q.running, e ∈ begun
  started : startedIn q.events = begun.map (·.1)
  fresh : ∀ n, q.submissions ≤ n → eventsOf q.events n = []
  waits : ∀ e ∈ q.waiting, eventsOf q.events e.1 = []
  runs : ∀ e ∈ q.running, eventsOf q.events e.1 = [.started e.1]
  ran : ∀ e ∈ begun, e ∉ q.running → eventsOf q.events e.1 = ranEvents e
  gaveUp : ∀ e ∈ givenUp, eventsOf q.events e.1 = givenUpEvents e
  submitted : q.counters.submitted = past.length
  finished : q.counters.completed + q.counters.failed + q.running.length = begun.length
  cancelled : q.counters.cancelled = givenUp.length
  /-- Only a dispatcher that has stopped gives tasks up. -/
  stopped : givenUp ≠ [] → ¬ q.dispatcher.Serves

namespace Ledger
variable {begun givenUp : List (Nat × Task α)}

theorem mem_past_of_waits (h : Ledger past begun givenUp q) {e : Nat × Task α}
    (he : e ∈ q.waiting) : e ∈ past := by
  rw [h.placed]
  exact List.mem_append_right _ he

theorem mem_past_of_begun (h : Ledger past begun givenUp q) {e : Nat × Task α}
    (he : e ∈ begun) : e ∈ past := by
  rw [h.placed]
  exact List.mem_append_left _ (List.mem_append_left _ he)

theorem mem_past_of_givenUp (h : Ledger past begun givenUp q) {e : Nat × Task α}
    (he : e ∈ givenUp) : e ∈ past := by
  rw [h.placed]
  exact List.mem_append_left _ (List.mem_append_right _ he)

/-- Tasks that have begun came before the others. -/
theorem lt_of_begun (h : Ledger past begun givenUp q) {e e' : Nat × Task α} (he : e ∈ begun)
    (he' : e' ∈ givenUp ++ q.waiting) : e.1 < e'.1 := by
  have hascending := h.ascending
  rw [h.placed, List.append_assoc, List.map_append, List.pairwise_append] at hascending
  exact hascending.2.2 _ (List.mem_map_of_mem he) _ (List.mem_map_of_mem he')

/-- A task that has not begun is not among those that started. -/
theorem not_started (h : Ledger past begun givenUp q) {n : Nat} (hn : ∀ e ∈ begun, e.1 ≠ n) :
    n ∉ startedIn q.events := by
  rw [h.started]
  intro hmem
  obtain ⟨e, he, hnumber⟩ := List.mem_map.1 hmem
  exact hn e he hnumber

/-- As long as tasks are taken none was given up. -/
theorem givenUp_eq_nil (h : Ledger past begun givenUp q) (hserves : q.dispatcher.Serves) :
    givenUp = [] :=
  Classical.byContradiction fun hsome => h.stopped hsome hserves

/-- What happens to a number that no accepted task has leaves their events as they are. -/
theorem eventsOf_past (h : Ledger past begun givenUp q) {more : List (TaskEvent α)}
    (hmore : ∀ event ∈ more, event.number = q.submissions) {e : Nat × Task α} (he : e ∈ past) :
    eventsOf (q.events ++ more) e.1 = eventsOf q.events e.1 :=
  eventsOf_append_ne hmore (Nat.ne_of_lt (h.below e he))

/-- What happens to one accepted task leaves the events of the others as they are. -/
theorem eventsOf_other (h : Ledger past begun givenUp q) {more : List (TaskEvent α)}
    {e e' : Nat × Task α} (hmore : ∀ event ∈ more, event.number = e.1) (he : e ∈ past)
    (he' : e' ∈ past) (hne : e' ≠ e) :
    eventsOf (q.events ++ more) e'.1 = eventsOf q.events e'.1 :=
  eventsOf_append_ne hmore fun hnumber => hne (eq_of_number_eq h.ascending he' he hnumber)

/-- What happens to an accepted task does not happen to a later submission. -/
theorem eventsOf_later (h : Ledger past begun givenUp q) {more : List (TaskEvent α)}
    {e : Nat × Task α} (hmore : ∀ event ∈ more, event.number = e.1) (he : e ∈ past) {n : Nat}
    (hn : q.submissions ≤ n) : eventsOf (q.events ++ more) n = [] :=
  (eventsOf_append_ne hmore (Nat.ne_of_gt (Nat.lt_of_lt_of_le (h.below e he) hn))).trans
    (h.fresh n hn)

theorem refuse (h : Ledger past begun givenUp q) :
    Ledger past begun givenUp { q with submissions := q.submissions + 1 } :=
  { h with
    below := fun e he => Nat.lt_succ_of_lt (h.below e he)
    fresh := fun n hn => h.fresh n (Nat.le_of_succ_le hn) }

theorem reject (h : Ledger past begun givenUp q) (task : Task α) (outcome : Except Failure α)
    (rejected : Nat) :
    Ledger past begun givenUp { q with
      submissions := q.submissions + 1
      events := q.events ++ ending q.submissions task outcome
      counters := { q.counters with rejected } } := by
  have hmore : ∀ event ∈ ending q.submissions task outcome, event.number = q.submissions :=
    fun _ => number_of_mem_ending
  have hsame : ∀ {e}, e ∈ past →
      eventsOf (q.events ++ ending q.submissions task outcome) e.1 = eventsOf q.events e.1 :=
    fun he => h.eventsOf_past hmore he
  exact { h with
    below := fun e he => Nat.lt_succ_of_lt (h.below e he)
    started := by
      show startedIn (q.events ++ _) = _
      rw [startedIn_append, startedIn_ending, List.append_nil, h.started]
    fresh := fun n hn =>
      (eventsOf_append_ne hmore (Nat.ne_of_gt hn)).trans (h.fresh n (Nat.le_of_succ_le hn))
    waits := fun e he => (hsame (h.mem_past_of_waits he)).trans (h.waits e he)
    runs := fun e he => (hsame (h.mem_past_of_begun (h.running e he))).trans (h.runs e he)
    ran := fun e he hran => (hsame (h.mem_past_of_begun he)).trans (h.ran e he hran)
    gaveUp := fun e he => (hsame (h.mem_past_of_givenUp he)).trans (h.gaveUp e he) }

theorem accept (h : Ledger past begun givenUp q) (hserves : q.dispatcher.Serves)
    (task : Task α) :
    Ledger (past ++ [(q.submissions, task)]) begun givenUp { q with
      submissions := q.submissions + 1
      waiting := q.waiting ++ [(q.submissions, task)]
      counters := { q.counters with submitted := q.counters.submitted + 1 } } where
  placed := by
    show _ = begun ++ givenUp ++ (q.waiting ++ [(q.submissions, task)])
    rw [← List.append_assoc, ← h.placed]
  ascending := ascending_concat task h.ascending h.below
  below := below_concat task h.below
  running := h.running
  started := h.started
  fresh n hn := h.fresh n (Nat.le_of_succ_le hn)
  waits e he := by
    rcases List.mem_append.1 he with hold | hnew
    · exact h.waits e hold
    · rw [List.mem_singleton.1 hnew]
      exact h.fresh _ (Nat.le_refl _)
  runs := h.runs
  ran := h.ran
  gaveUp := h.gaveUp
  submitted := by
    show q.counters.submitted + 1 = _
    rw [h.submitted, List.length_append, List.length_singleton]
  finished := h.finished
  cancelled := h.cancelled
  stopped hsome := absurd (h.givenUp_eq_nil hserves) hsome

section Leave
variable {e : Nat × Task α} {rest : List (Nat × Task α)}

/-- The task at the front of the line has not begun, and no task behind it is the same. -/
theorem front (h : Ledger past begun givenUp q) (hwaiting : q.waiting = e :: rest) :
    e ∈ past ∧ e ∉ begun ∧ e ∉ givenUp ∧ e ∉ rest := by
  have hplaced := h.placed
  have hascending := h.ascending
  rw [hwaiting] at hplaced
  rw [hplaced, List.map_append, List.pairwise_append] at hascending
  obtain ⟨-, hline, hbefore⟩ := hascending
  have hbehind : ∀ {e'}, e' ∈ begun ++ givenUp → e'.1 < e.1 := fun he' =>
    hbefore _ (List.mem_map_of_mem he') _ (List.mem_map_of_mem List.mem_cons_self)
  refine ⟨h.mem_past_of_waits (hwaiting ▸ List.mem_cons_self), fun hbegun => ?_, fun hgaveUp => ?_,
    fun hrest => ?_⟩
  · exact Nat.lt_irrefl _ (hbehind (List.mem_append_left _ hbegun))
  · exact Nat.lt_irrefl _ (hbehind (List.mem_append_right _ hgaveUp))
  · exact Nat.lt_irrefl _ ((List.pairwise_cons.1 hline).1 _ (List.mem_map_of_mem hrest))

theorem behind (h : Ledger past begun givenUp q) (hwaiting : q.waiting = e :: rest)
    {e' : Nat × Task α} (he' : e' ∈ rest) :
    e' ∈ past ∧ e' ≠ e ∧ eventsOf q.events e'.1 = [] := by
  have hline : e' ∈ q.waiting := hwaiting ▸ List.mem_cons_of_mem _ he'
  obtain ⟨-, -, -, hrest⟩ := h.front hwaiting
  exact ⟨h.mem_past_of_waits hline, fun heq => hrest (heq ▸ he'), h.waits e' hline⟩

theorem start (h : Ledger past begun givenUp q) (hserves : q.dispatcher.Serves)
    (hwaiting : q.waiting = e :: rest) :
    Ledger past (begun ++ [e]) givenUp { q with
      dispatcher := .idle
      waiting := rest
      running := q.running ++ [e]
      events := q.events ++ [.started e.1] } := by
  obtain ⟨hpast, hbegun, -, -⟩ := h.front hwaiting
  obtain rfl := h.givenUp_eq_nil hserves
  have hmore : ∀ event ∈ [(.started e.1 : TaskEvent α)], event.number = e.1 := by
    simp [TaskEvent.number]
  -- only the task at the front has a new event, so the others are where they were
  have hother : ∀ {e'}, e' ∈ past → e' ≠ e →
      eventsOf (q.events ++ [.started e.1]) e'.1 = eventsOf q.events e'.1 :=
    fun he' hne => h.eventsOf_other hmore hpast he' hne
  exact { h with
    placed := by
      rw [h.placed, hwaiting, List.append_nil, List.append_nil, List.append_assoc]
      rfl
    running := fun e' he' => by
      rcases List.mem_append.1 he' with hold | hnew
      · exact List.mem_append_left _ (h.running e' hold)
      · exact List.mem_append_right _ hnew
    started := by
      show startedIn (q.events ++ _) = _
      rw [startedIn_append, h.started, List.map_append]
      rfl
    fresh := fun n hn => h.eventsOf_later hmore hpast hn
    waits := fun e' he' => by
      obtain ⟨hin, hne, hnone⟩ := h.behind hwaiting he'
      exact (hother hin hne).trans hnone
    runs := fun e' he' => by
      rcases List.mem_append.1 he' with hold | hnew
      · have hin := h.running e' hold
        have hne : e' ≠ e := fun heq => hbegun (heq ▸ hin)
        exact (hother (h.mem_past_of_begun hin) hne).trans (h.runs e' hold)
      · rw [List.mem_singleton.1 hnew]
        show eventsOf (q.events ++ _) e.1 = _
        rw [eventsOf_append_self hmore, h.waits e (hwaiting ▸ List.mem_cons_self)]
        rfl
    ran := fun e' he' hran => by
      have hne : e' ≠ e := fun heq => hran (List.mem_append_right _ (List.mem_singleton.2 heq))
      have hold : e' ∈ begun := by
        rcases List.mem_append.1 he' with hold | hnew
        · exact hold
        · exact absurd (List.mem_singleton.1 hnew) hne
      have hended : e' ∉ q.running := fun hin => hran (List.mem_append_left _ hin)
      exact (hother (h.mem_past_of_begun hold) hne).trans (h.ran e' hold hended)
    gaveUp := nofun
    finished := by
      have := h.finished
      simp only [List.length_append, List.length_singleton]
      omega
    stopped := nofun }

theorem giveUp (h : Ledger past begun givenUp q) (hdraining : q.dispatcher = .draining)
    (hwaiting : q.waiting = e :: rest) :
    Ledger past begun (givenUp ++ [e]) { q with
      waiting := rest
      events := q.events ++ givenUpEvents e
      counters := { q.counters with cancelled := q.counters.cancelled + 1 } } := by
  obtain ⟨hpast, hbegun, hgaveUp, -⟩ := h.front hwaiting
  have hmore : ∀ event ∈ givenUpEvents e, event.number = e.1 := fun _ => number_of_mem_ending
  have hother : ∀ {e'}, e' ∈ past → e' ≠ e →
      eventsOf (q.events ++ givenUpEvents e) e'.1 = eventsOf q.events e'.1 :=
    fun he' hne => h.eventsOf_other hmore hpast he' hne
  exact { h with
    placed := by
      rw [h.placed, hwaiting]
      simp only [List.append_assoc]
      rfl
    started := by
      show startedIn (q.events ++ _) = _
      rw [startedIn_append, givenUpEvents, startedIn_ending, List.append_nil, h.started]
    fresh := fun n hn => h.eventsOf_later hmore hpast hn
    waits := fun e' he' => by
      obtain ⟨hin, hne, hnone⟩ := h.behind hwaiting he'
      exact (hother hin hne).trans hnone
    runs := fun e' he' => by
      have hin := h.running e' he'
      have hne : e' ≠ e := fun heq => hbegun (heq ▸ hin)
      exact (hother (h.mem_past_of_begun hin) hne).trans (h.runs e' he')
    ran := fun e' he' hran => by
      have hne : e' ≠ e := fun heq => hbegun (heq ▸ he')
      exact (hother (h.mem_past_of_begun he') hne).trans (h.ran e' he' hran)
    gaveUp := fun e' he' => by
      rcases List.mem_append.1 he' with hold | hnew
      · have hne : e' ≠ e := fun heq => hgaveUp (heq ▸ hold)
        exact (hother (h.mem_past_of_givenUp hold) hne).trans (h.gaveUp e' hold)
      · rw [List.mem_singleton.1 hnew]
        show eventsOf (q.events ++ _) e.1 = _
        rw [eventsOf_append_self hmore, h.waits e (hwaiting ▸ List.mem_cons_self), List.nil_append]
    cancelled := by
      show q.counters.cancelled + 1 = _
      rw [h.cancelled, List.length_append, List.length_singleton]
    stopped := fun _ => by simp [hdraining, Dispatcher.Serves] }

end Leave

theorem finish (h : Ledger past begun givenUp q) (hnumbered : q.Numbered) {number : Nat}
    {task : Task α} (hrunning : q.running.find? (·.1 = number) = some (number, task)) :
    Ledger past begun givenUp { q with
      freeWorkers := q.freeWorkers + 1
      running := q.running.filter (·.1 ≠ number)
      events := q.events ++ ending number task task.work.outcome
      counters := count q.counters task.work.outcome } := by
  have hin := List.mem_of_find?_eq_some hrunning
  have hbegun := h.running _ hin
  have hpast := h.mem_past_of_begun hbegun
  have hmore : ∀ event ∈ ending number task task.work.outcome, event.number = number :=
    fun _ => number_of_mem_ending
  have hother : ∀ {e'}, e' ∈ past → e' ≠ (number, task) →
      eventsOf (q.events ++ ending number task task.work.outcome) e'.1 = eventsOf q.events e'.1 :=
    fun he' hne => h.eventsOf_other (e := (number, task)) hmore hpast he' hne
  have hnot : ∀ {e'}, e'.1 ≠ number → e' ≠ (number, task) := fun hne heq => hne (heq ▸ rfl)
  exact { h with
    running := fun e' he' => h.running e' (List.mem_filter.1 he').1
    started := by
      show startedIn (q.events ++ _) = _
      rw [startedIn_append, startedIn_ending, List.append_nil, h.started]
    fresh := fun n hn => h.eventsOf_later (e := (number, task)) hmore hpast hn
    waits := fun e' he' => by
      have hlater := h.lt_of_begun hbegun (List.mem_append_right _ he')
      exact (hother (h.mem_past_of_waits he') (hnot (Nat.ne_of_gt hlater))).trans (h.waits e' he')
    runs := fun e' he' => by
      obtain ⟨hold, hne⟩ := List.mem_filter.1 he'
      have hpast' := h.mem_past_of_begun (h.running e' hold)
      exact (hother hpast' (hnot (of_decide_eq_true hne))).trans (h.runs e' hold)
    ran := fun e' he' hran => by
      by_cases heq : e' = (number, task)
      · rw [heq]
        show eventsOf (q.events ++ _) number = _
        rw [eventsOf_append_self hmore, h.runs _ hin]
        rfl
      · have hne : e'.1 ≠ number := fun hnumber =>
          heq (eq_of_number_eq h.ascending (h.mem_past_of_begun he') hpast hnumber)
        have hended : e' ∉ q.running := fun hold =>
          hran (List.mem_filter.2 ⟨hold, decide_eq_true hne⟩)
        exact (hother (h.mem_past_of_begun he') heq).trans (h.ran e' he' hended)
    gaveUp := fun e' he' => by
      have hlater := h.lt_of_begun hbegun (List.mem_append_left _ he')
      exact (hother (h.mem_past_of_givenUp he') (hnot (Nat.ne_of_gt hlater))).trans (h.gaveUp e' he')
    submitted := by cases task.work.outcome <;> exact h.submitted
    finished := by
      have hlength := hnumbered.length_running_finish hrunning
      have := h.finished
      cases task.work.outcome <;> simp only [count] <;> omega
    cancelled := by cases task.work.outcome <;> exact h.cancelled }

/-- **Each step keeps the ledger.** Once the dispatcher has stopped no task begins any more. -/
theorem step (h : Ledger past begun givenUp q) (hsound : q.Sound) (hs : Step q new q') :
    ∃ begun' givenUp', Ledger (past ++ new) begun' givenUp' q' ∧
      (¬ q.dispatcher.Serves → begun' = begun) := by
  have hdrains : ¬ Dispatcher.draining.Serves := by simp [Dispatcher.Serves]
  have hdrained : ¬ Dispatcher.drained.Serves := by simp [Dispatcher.Serves]
  have hgone : ¬ Dispatcher.gone.Serves := by simp [Dispatcher.Serves]
  -- apart from `accept` no step brings a task, so `past ++ []` is all there is to rewrite
  cases hs with
  | refuse => exact ⟨begun, givenUp, by simpa using h.refuse, fun _ => rfl⟩
  | disconnect task hopen hleft => exact absurd hleft (hsound.staged.not_gone hopen)
  | reject task => exact ⟨begun, givenUp, by simpa using h.reject task _ _, fun _ => rfl⟩
  | accept task hopen =>
    have hserves := hsound.staged.serves hopen
    exact ⟨begun, givenUp, h.accept hserves task, fun _ => rfl⟩
  | close => exact ⟨begun, givenUp, by simpa using { h with }, fun _ => rfl⟩
  | heed =>
    exact ⟨begun, givenUp, by simpa using { h with stopped := fun _ => hdrains }, fun _ => rfl⟩
  | takeUp hidle =>
    obtain rfl := h.givenUp_eq_nil (.inl hidle)
    exact ⟨begun, [], by simpa using { h with stopped := fun hsome => absurd rfl hsome },
      fun _ => rfl⟩
  | start hready hwaiting =>
    have hserves : q.dispatcher.Serves := .inr hready
    exact ⟨_, givenUp, by simpa using h.start hserves hwaiting,
      fun hstopped => absurd hserves hstopped⟩
  | giveUp hdraining hwaiting =>
    exact ⟨begun, _, (List.append_nil past).symm ▸ h.giveUp hdraining hwaiting, fun _ => rfl⟩
  | foundNone =>
    exact ⟨begun, givenUp, by simpa using { h with stopped := fun _ => hdrained }, fun _ => rfl⟩
  | hangUp hfound =>
    rw [hsound.staged.hangUp_eq hfound]
    exact ⟨begun, givenUp, by simpa using { h with stopped := fun _ => hgone }, fun _ => rfl⟩
  | finish hrunning =>
    exact ⟨begun, givenUp, by simpa using h.finish hsound.numbered hrunning, fun _ => rfl⟩

/-- However a queue is used, its ledger can be kept; once the dispatcher has stopped the same tasks
have begun. -/
theorem after (h : Ledger past begun givenUp q) (hsound : q.Sound) (as : List (Action α)) :
    ∃ begun' givenUp', Ledger (past ++ q.accepted as) begun' givenUp' (q.after as) ∧
      (¬ q.dispatcher.Serves → begun' = begun) := by
  have hall := hsound.after_induction
    (P := fun past q' => ∃ begun' givenUp', Ledger past begun' givenUp' q' ∧
      (¬ q.dispatcher.Serves → ¬ q'.dispatcher.Serves ∧ begun' = begun))
    (fun {past new q₁ q₂} hsound₁ h hs => ?_)
    ⟨begun, givenUp, h, fun hstopped => ⟨hstopped, rfl⟩⟩ as
  · obtain ⟨begun', givenUp', hledger, hkept⟩ := hall
    exact ⟨begun', givenUp', hledger, fun hstopped => (hkept hstopped).2⟩
  · obtain ⟨begun₁, givenUp₁, h, hkept⟩ := h
    obtain ⟨begun₂, givenUp₂, h', hsame⟩ := h.step hsound₁ hs
    refine ⟨begun₂, givenUp₂, h', fun hstopped => ?_⟩
    obtain ⟨hstopped₁, rfl⟩ := hkept hstopped
    exact ⟨hsound₁.staged.stopped_step hs hstopped₁, hsame hstopped₁⟩

end Ledger

theorem ledger_create {workers capacity : Nat} (h : create workers capacity = .ok q) :
    Ledger [] [] [] q := by
  obtain ⟨-, rfl⟩ := create_eq_ok_iff.1 h
  have hnone : ∀ {P : Nat × Task α → Prop}, ∀ e ∈ ([] : List (Nat × Task α)), P e :=
    fun _ he => absurd he List.not_mem_nil
  exact {
    placed := rfl
    ascending := .nil
    below := hnone
    running := hnone
    started := rfl
    fresh := fun _ _ => rfl
    waits := hnone
    runs := hnone
    ran := hnone
    gaveUp := hnone
    submitted := rfl
    finished := rfl
    cancelled := rfl
    stopped := fun hsome => absurd rfl hsome }

end TaskQueue
end KeyedRows
