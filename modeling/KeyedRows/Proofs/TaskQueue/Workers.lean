/-
# Workers and places

A worker is free, or the dispatcher holds it for the next task, or it runs one;
nothing that tasks or callbacks do makes one get lost. So no more tasks run than
there are workers, and when the dispatcher waits for a worker all of them run a
task. The line never holds more than its places. The dispatcher stops only after
the queue was closed, and hangs up only when the line is empty: no task is ever
dropped, and none that is handed in finds the dispatcher gone.

The invariant has three parts, `Staged`, `Numbered` and `Staffed`; each step keeps
each of them (`Sound.step`).

The dispatcher, left alone, comes to rest; after shutdown it has hung up.

Main statements: `sound_after`, `Sound.resting`, `Sound.shutdown`.
-/

import KeyedRows.Proofs.TaskQueue.Steps

namespace KeyedRows

/-- It has not been told to stop, or has not heeded it. -/
def Dispatcher.Serves (d : Dispatcher) : Prop := d = idle ∨ d = ready

/-- How many workers it holds. -/
def Dispatcher.held : Dispatcher → Nat
  | ready => 1
  | idle | draining | drained | gone => 0

namespace TaskQueue

variable {α : Type} {q q' : TaskQueue α} {new : List (Nat × Task α)}

/-! ### The dispatcher -/

/-- How far the dispatcher may have come. -/
structure Staged (q : TaskQueue α) : Prop where
  closed : ¬ q.dispatcher.Serves → q.closed = true
  /-- A dispatcher that looked for tasks to give up and found none has none. -/
  emptied : q.dispatcher = .drained ∨ q.dispatcher = .gone → q.waiting = []

namespace Staged

/-- As long as the queue is open the dispatcher takes tasks. -/
theorem serves (h : q.Staged) (hopen : q.closed = false) : q.dispatcher.Serves := by
  refine Classical.byContradiction fun hstopped => ?_
  rw [h.closed hstopped] at hopen
  contradiction

theorem not_gone (h : q.Staged) (hopen : q.closed = false) : q.dispatcher ≠ .gone := by
  intro hgone
  obtain hd | hd := h.serves hopen <;> rw [hd] at hgone <;> contradiction

/-- When the dispatcher hangs up no task is dropped. -/
theorem hangUp_eq (h : q.Staged) (hdrained : q.dispatcher = .drained) :
    q.waiting.foldl (fun q e => q.fail e.1 e.2 .dropped)
      { q with dispatcher := .gone, waiting := [] } = { q with dispatcher := .gone } := by
  have hempty := h.emptied (.inl hdrained)
  rw [hempty, List.foldl_nil, ← hempty]

theorem step (h : q.Staged) (hs : Step q new q') : q'.Staged := by
  have hserving : ∀ {d : Dispatcher}, d = .idle ∨ d = .ready → d ≠ .drained ∧ d ≠ .gone := by
    rintro _ (rfl | rfl) <;> exact ⟨nofun, nofun⟩
  cases hs with
  | refuse | reject => exact ⟨h.closed, h.emptied⟩
  | finish => exact ⟨h.closed, h.emptied⟩
  | disconnect task hopen hgone => exact absurd hgone (h.not_gone hopen)
  | accept task hopen =>
    obtain ⟨hdrained, hgone⟩ := hserving (h.serves hopen)
    exact ⟨h.closed, fun hd => (hd.elim hdrained hgone).elim⟩
  | close => exact ⟨fun _ => rfl, h.emptied⟩
  | heed hclosed => exact ⟨fun _ => hclosed, nofun⟩
  | takeUp => exact ⟨fun hstopped => absurd (.inr rfl) hstopped, nofun⟩
  | start => exact ⟨fun hstopped => absurd (.inl rfl) hstopped, nofun⟩
  | giveUp hdraining =>
    refine ⟨h.closed, fun hd => ?_⟩
    simp [hdraining] at hd
  | foundNone hdraining hempty =>
    exact ⟨fun _ => h.closed (by simp [hdraining, Dispatcher.Serves]), fun _ => hempty⟩
  | hangUp hdrained =>
    rw [h.hangUp_eq hdrained]
    exact ⟨fun _ => h.closed (by simp [hdrained, Dispatcher.Serves]),
      fun _ => h.emptied (.inl hdrained)⟩

/-- A dispatcher that has stopped does not take tasks again. -/
theorem stopped_step (h : q.Staged) (hs : Step q new q') (hstopped : ¬ q.dispatcher.Serves) :
    ¬ q'.dispatcher.Serves := by
  cases hs with
  | refuse | reject | accept | close => exact hstopped
  | giveUp | finish => exact hstopped
  | disconnect task hopen hgone => exact absurd hgone (h.not_gone hopen)
  | heed | foundNone => simp [Dispatcher.Serves]
  | takeUp hidle => exact absurd (.inl hidle) hstopped
  | start hready => exact absurd (.inr hready) hstopped
  | hangUp hdrained =>
    rw [h.hangUp_eq hdrained]
    simp [Dispatcher.Serves]

end Staged

/-! ### The order of tasks -/

section Concat
variable {tasks : List (Nat × Task α)} {n : Nat} (task : Task α)

/-- A new task comes last. -/
theorem ascending_concat (hascending : (tasks.map (·.1)).Pairwise (· < ·))
    (hbelow : ∀ e ∈ tasks, e.1 < n) : ((tasks ++ [(n, task)]).map (·.1)).Pairwise (· < ·) := by
  rw [List.map_append, List.pairwise_append]
  refine ⟨hascending, List.pairwise_singleton .., fun m hm k hk => ?_⟩
  obtain ⟨e, he, rfl⟩ := List.mem_map.1 hm
  rw [List.mem_singleton.1 hk]
  exact hbelow e he

theorem below_concat (hbelow : ∀ e ∈ tasks, e.1 < n) : ∀ e ∈ tasks ++ [(n, task)], e.1 < n + 1 := by
  intro e he
  rcases List.mem_append.1 he with hold | hnew
  · exact Nat.lt_succ_of_lt (hbelow e hold)
  · rw [List.mem_singleton.1 hnew]
    exact Nat.lt_succ_self _

end Concat

/-- Tasks are in the order of their submission, those that run before those that wait. -/
structure Numbered (q : TaskQueue α) : Prop where
  ascending : ((q.running ++ q.waiting).map (·.1)).Pairwise (· < ·)
  below : ∀ e ∈ q.running ++ q.waiting, e.1 < q.submissions

namespace Numbered

/-- Tasks that leave do not disturb the order of the others. -/
theorem of_sublist (h : q.Numbered)
    (hsub : (q'.running ++ q'.waiting).Sublist (q.running ++ q.waiting))
    (hsubmissions : q.submissions ≤ q'.submissions) : q'.Numbered where
  ascending := h.ascending.sublist (hsub.map _)
  below e he := Nat.lt_of_lt_of_le (h.below e (hsub.subset he)) hsubmissions

theorem step (h : q.Numbered) (hstaged : q.Staged) (hs : Step q new q') : q'.Numbered := by
  have hsame := List.Sublist.refl (q.running ++ q.waiting)
  cases hs with
  | refuse | reject | disconnect => exact h.of_sublist hsame (Nat.le_succ _)
  | close | heed | takeUp | foundNone => exact h.of_sublist hsame (Nat.le_refl _)
  | accept task =>
    have hlast : q.running ++ (q.waiting ++ [(q.submissions, task)]) =
        q.running ++ q.waiting ++ [(q.submissions, task)] := (List.append_assoc ..).symm
    exact ⟨hlast ▸ ascending_concat task h.ascending h.below, hlast ▸ below_concat task h.below⟩
  | start hready hwaiting =>
    refine h.of_sublist ?_ (Nat.le_refl _)
    rw [hwaiting, List.append_assoc]
    exact List.Sublist.refl _
  | giveUp hdraining hwaiting =>
    refine h.of_sublist (List.Sublist.append_left ?_ _) (Nat.le_refl _)
    rw [hwaiting]
    exact List.sublist_cons_self ..
  | hangUp hdrained =>
    rw [hstaged.hangUp_eq hdrained]
    exact h.of_sublist hsame (Nat.le_refl _)
  | finish => exact h.of_sublist (List.filter_sublist.append_right _) (Nat.le_refl _)

/-- Taking out the one entry with a number makes a list shorter by one. -/
theorem length_filter_ne {tasks : List (Nat × Task α)} {number : Nat} {e : Nat × Task α}
    (hascending : (tasks.map (·.1)).Pairwise (· < ·))
    (hfind : tasks.find? (·.1 = number) = some e) :
    (tasks.filter (·.1 ≠ number)).length + 1 = tasks.length := by
  induction tasks with
  | nil => contradiction
  | cons head tasks ih =>
    obtain ⟨hhead, htail⟩ := List.pairwise_cons.1 hascending
    by_cases hnumber : head.1 = number
    · have hothers : tasks.filter (·.1 ≠ number) = tasks := by
        refine List.filter_eq_self.2 fun e he => ?_
        have hlt : head.1 < e.1 := hhead e.1 (List.mem_map_of_mem he)
        rw [decide_eq_true_iff]
        omega
      rw [List.filter_cons_of_neg (by simp [hnumber]), hothers, List.length_cons]
    · rw [List.find?_cons_of_neg (by simpa using hnumber)] at hfind
      rw [List.filter_cons_of_pos (by simpa using hnumber), List.length_cons, ih htail hfind,
        List.length_cons]

/-- When a task ends one fewer is running. -/
theorem length_running_finish (h : q.Numbered) {number : Nat} {e : Nat × Task α}
    (hrunning : q.running.find? (·.1 = number) = some e) :
    (q.running.filter (·.1 ≠ number)).length + 1 = q.running.length := by
  have hascending := h.ascending
  rw [List.map_append, List.pairwise_append] at hascending
  exact length_filter_ne hascending.1 hrunning

end Numbered

/-! ### Workers -/

/-- Where the workers are, and how many tasks wait. -/
structure Staffed (q : TaskQueue α) : Prop where
  /-- Every worker is free, with the dispatcher, or at work. -/
  serving : q.dispatcher.Serves →
    q.freeWorkers + q.dispatcher.held + q.running.length = q.workers
  /-- A dispatcher that stops may keep a worker, but none appears from nowhere. -/
  staff_le : q.freeWorkers + q.dispatcher.held + q.running.length ≤ q.workers
  waiting_le : q.waiting.length ≤ q.capacity

theorem Staffed.step (h : q.Staffed) (hstaged : q.Staged) (hnumbered : q.Numbered)
    (hs : Step q new q') : q'.Staffed := by
  have hstaff := h.staff_le
  have hwaiting := h.waiting_le
  cases hs with
  | refuse | reject | close => exact ⟨h.serving, h.staff_le, h.waiting_le⟩
  | disconnect => exact ⟨h.serving, h.staff_le, h.waiting_le⟩
  | accept task hopen hroom =>
    refine ⟨h.serving, h.staff_le, ?_⟩
    simp only [List.length_append, List.length_singleton]
    omega
  | heed =>
    refine ⟨fun hserves => by rcases hserves with hd | hd <;> contradiction, ?_, hwaiting⟩
    simp only [Dispatcher.held]
    omega
  | takeUp hidle hfree =>
    have hserving := h.serving (.inl hidle)
    simp only [hidle, Dispatcher.held] at hserving
    refine ⟨fun _ => ?_, ?_, hwaiting⟩ <;> simp only [Dispatcher.held] <;> omega
  | start hready hline =>
    have hserving := h.serving (.inr hready)
    rw [hline, List.length_cons] at hwaiting
    simp only [hready, Dispatcher.held] at hserving
    refine ⟨fun _ => ?_, ?_, by simp only; omega⟩ <;>
      simp only [Dispatcher.held, List.length_append, List.length_singleton] <;> omega
  | giveUp hdraining hline =>
    rw [hline, List.length_cons] at hwaiting
    exact ⟨h.serving, h.staff_le, by simp only; omega⟩
  | foundNone hdraining =>
    simp only [hdraining, Dispatcher.held] at hstaff
    exact ⟨fun hserves => by rcases hserves with hd | hd <;> contradiction, hstaff, hwaiting⟩
  | hangUp hdrained =>
    rw [hstaged.hangUp_eq hdrained]
    simp only [hdrained, Dispatcher.held] at hstaff
    exact ⟨fun hserves => by rcases hserves with hd | hd <;> contradiction, hstaff, hwaiting⟩
  | finish hrunning =>
    have hlength := hnumbered.length_running_finish hrunning
    refine ⟨fun hserves => ?_, ?_, hwaiting⟩
    · have hserving := h.serving hserves
      simp only
      omega
    · simp only
      omega

/-! ### Runs -/

/-- What holds of a queue at any time. -/
structure Sound (q : TaskQueue α) : Prop where
  staged : q.Staged
  numbered : q.Numbered
  staffed : q.Staffed

theorem Sound.step (h : q.Sound) (hs : Step q new q') : q'.Sound :=
  ⟨h.staged.step hs, h.numbered.step h.staged hs, h.staffed.step h.staged h.numbered hs⟩

/-- What a queue is at first. -/
theorem create_eq_ok_iff {workers capacity : Nat} :
    create workers capacity = .ok q ↔ (0 < workers ∧ 0 < capacity) ∧
      q = ⟨workers, capacity, false, .idle, workers, 0, [], [], [], default⟩ := by
  rw [create]
  by_cases hnone : workers = 0 ∨ capacity = 0
  · rw [if_pos hnone]
    exact ⟨fun h => (nomatch h), fun h => by omega⟩
  · rw [if_neg hnone, Except.ok.injEq]
    exact ⟨fun h => ⟨by omega, h.symm⟩, fun h => h.2.symm⟩

theorem exists_create (workers capacity : Nat) (hworkers : 0 < workers)
    (hcapacity : 0 < capacity) :
    ∃ q : TaskQueue α, create workers capacity = .ok q ∧ q.workers = workers ∧
      q.capacity = capacity :=
  ⟨_, create_eq_ok_iff.2 ⟨⟨hworkers, hcapacity⟩, rfl⟩, rfl, rfl⟩

theorem sound_create {workers capacity : Nat} (h : create workers capacity = .ok q) :
    q.Sound := by
  obtain ⟨-, rfl⟩ := create_eq_ok_iff.1 h
  exact ⟨⟨fun hstopped => absurd (.inl rfl) hstopped, nofun⟩, ⟨.nil, nofun⟩,
    ⟨fun _ => rfl, Nat.le_refl _, Nat.zero_le _⟩⟩

/-- **However a queue is used, workers, places and order are kept.** -/
theorem sound_after (h : q.Sound) (as : List (Action α)) : (q.after as).Sound :=
  after_of_step (fun h hs => h.step hs) h as

/-- What every step of a sound queue keeps, every run keeps. -/
theorem Sound.after_induction {P : List (Nat × Task α) → TaskQueue α → Prop}
    (hstep : ∀ {past new : List (Nat × Task α)} {q q' : TaskQueue α},
      q.Sound → P past q → Step q new q' → P (past ++ new) q')
    (h : q.Sound) {past : List (Nat × Task α)} (hP : P past q) (as : List (Action α)) :
    P (past ++ q.accepted as) (q.after as) :=
  (TaskQueue.after_induction (P := fun past q => q.Sound ∧ P past q)
    (fun h hs => ⟨h.1.step hs, hstep h.1 h.2 hs⟩) ⟨h, hP⟩ as).2

theorem Sound.after_of_step {P : TaskQueue α → Prop}
    (hstep : ∀ {new : List (Nat × Task α)} {q q' : TaskQueue α},
      q.Sound → P q → Step q new q' → P q')
    (h : q.Sound) (hP : P q) (as : List (Action α)) : P (q.after as) :=
  (TaskQueue.after_of_step (P := fun q => q.Sound ∧ P q)
    (fun h hs => ⟨h.1.step hs, hstep h.1 h.2 hs⟩) ⟨h, hP⟩ as).2

/-- What a queue counts of a submission that it turns away. -/
theorem Sound.counters_submit_of_error (h : q.Sound) {task : Task α} {f : QueueFault}
    (herror : (q.submit task).1 = .error f) :
    (q.submit task).2.counters = countRefusal q.counters f := by
  cases hclosed : q.closed with
  | true =>
    rw [submit_of_closed task hclosed] at herror ⊢
    rw [← Except.error.inj herror]
    rfl
  | false =>
    have hthere := h.staged.not_gone hclosed
    by_cases hfull : q.capacity ≤ q.waiting.length
    · rw [submit_of_full task hclosed hthere hfull] at herror ⊢
      rw [← Except.error.inj herror]
      rfl
    · rw [submit_of_room task hclosed hthere (Nat.lt_of_not_le hfull)] at herror
      contradiction

theorem stopped_after (h : q.Sound) (hstopped : ¬ q.dispatcher.Serves) (as : List (Action α)) :
    ¬ (q.after as).dispatcher.Serves :=
  h.after_of_step (fun h hstopped hs => h.staged.stopped_step hs hstopped) hstopped as

/-- A queue keeps its size. -/
theorem Step.limits_eq (hs : Step q new q') :
    q'.workers = q.workers ∧ q'.capacity = q.capacity := by
  cases hs with
  | hangUp =>
    obtain ⟨events, counters, hfold⟩ :=
      foldl_fail .dropped q.waiting { q with dispatcher := .gone, waiting := [] }
    rw [hfold]
    exact ⟨rfl, rfl⟩
  | refuse | reject | disconnect | accept => exact ⟨rfl, rfl⟩
  | close | heed | takeUp | start | giveUp | foundNone | finish => exact ⟨rfl, rfl⟩

theorem limits_after (q : TaskQueue α) (as : List (Action α)) :
    (q.after as).workers = q.workers ∧ (q.after as).capacity = q.capacity :=
  after_of_step (P := fun q' => q'.workers = q.workers ∧ q'.capacity = q.capacity)
    (fun h hs => ⟨hs.limits_eq.1.trans h.1, hs.limits_eq.2.trans h.2⟩) ⟨rfl, rfl⟩ as

/-! ### Rest -/

/-- The dispatcher is blocked, and has heeded what it was told. -/
def Resting (q : TaskQueue α) : Prop := q.dispatch? = none ∧ q.heed = q

theorem heed_of_stopped (hstopped : ¬ q.dispatcher.Serves) : q.heed = q := by
  rw [heed]
  exact if_neg fun hheeds => hstopped hheeds.2

theorem heed_of_open (hopen : q.closed = false) : q.heed = q := by
  rw [heed]
  exact if_neg fun hheeds => by simp [hopen] at hheeds

theorem stopped_heed (hclosed : q.closed = true) : ¬ q.heed.dispatcher.Serves := by
  rw [heed]
  split
  · simp [Dispatcher.Serves]
  · rename_i hnot
    exact fun hserves => hnot ⟨hclosed, hserves⟩

/-- A dispatcher that has stopped and is blocked has hung up. -/
theorem gone_of_blocked (hstopped : ¬ q.dispatcher.Serves) (hblocked : q.dispatch? = none) :
    q.dispatcher = .gone := by
  cases hd : q.dispatcher with
  | idle => exact absurd (.inl hd) hstopped
  | ready => exact absurd (.inr hd) hstopped
  | draining => cases hwaiting : q.waiting <;> simp [dispatch?, hd, hwaiting] at hblocked
  | drained => simp [dispatch?, hd] at hblocked
  | gone => rfl

/-- The dispatcher goes on until it is blocked. -/
theorem dispatch?_dispatchAll (q : TaskQueue α) : q.dispatchAll.dispatch? = none := by
  fun_induction dispatchAll q with
  | case1 q hblocked => exact hblocked
  | case2 q q' hgoes _ ih => exact ih

theorem closed_dispatch? (h : q.dispatch? = some q') : q'.closed = q.closed := by
  unfold dispatch? at h
  split at h
  case h_1 =>
    split at h
    · contradiction
    · exact Option.some.inj h ▸ rfl
  case h_2 => contradiction
  case h_3 | h_4 | h_5 => exact Option.some.inj h ▸ rfl
  case h_6 =>
    obtain ⟨events, counters, hfold⟩ :=
      foldl_fail .dropped q.waiting { q with dispatcher := .gone, waiting := [] }
    rw [← Option.some.inj h, hfold]
  case h_7 => contradiction

/-- The dispatcher does not close the queue. -/
theorem closed_dispatchAll (q : TaskQueue α) : q.dispatchAll.closed = q.closed := by
  fun_induction dispatchAll q with
  | case1 => rfl
  | case2 q q' hgoes _ ih => rw [ih, closed_dispatch? hgoes]

theorem Sound.dispatchAll (h : q.Sound) : q.dispatchAll.Sound := by
  obtain ⟨as, -, has⟩ := q.goesTo_dispatchAll
  exact has ▸ sound_after h as

theorem Sound.heed (h : q.Sound) : q.heed.Sound := sound_after h [.heed]

/-- Once told to stop, the dispatcher comes to its end. -/
theorem Sound.gone_dispatchAll (h : q.Sound) (hclosed : q.closed = true) :
    q.heed.dispatchAll.dispatcher = .gone := by
  obtain ⟨as, -, has⟩ := q.heed.goesTo_dispatchAll
  have hstopped := stopped_after h.heed (stopped_heed hclosed) as
  rw [has] at hstopped
  exact gone_of_blocked hstopped (dispatch?_dispatchAll _)

/-- **The dispatcher comes to rest.** -/
theorem Sound.resting (h : q.Sound) : q.heed.dispatchAll.Resting := by
  refine ⟨dispatch?_dispatchAll _, ?_⟩
  cases hclosed : q.closed with
  | true =>
    refine heed_of_stopped ?_
    rw [h.gone_dispatchAll hclosed]
    simp [Dispatcher.Serves]
  | false =>
    rw [heed_of_open hclosed]
    exact heed_of_open ((closed_dispatchAll q).trans hclosed)

/-- **Shutting down empties the line**, and brings the dispatcher to its end. -/
theorem Sound.shutdown (h : q.Sound) (hopen : q.closed = false) :
    q.shutdown.Resting ∧ q.shutdown.waiting = [] := by
  have hclose : q.close.Sound := sound_after h [.close]
  rw [TaskQueue.shutdown, hopen]
  exact ⟨hclose.resting, hclose.heed.dispatchAll.staged.emptied (.inr (hclose.gone_dispatchAll rfl))⟩

end TaskQueue
end KeyedRows
