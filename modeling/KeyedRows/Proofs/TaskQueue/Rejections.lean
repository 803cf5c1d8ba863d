/-
# Tasks that are turned away

A task that finds the line full is told so: its callback is called with an error of
the kind that the submitter gets. A task that comes after shutdown is refused before
there is anybody to tell, and its callback is never called
(`refused_task_not_told`). Neither ever runs.

What happens later does not change this: later events are those of tasks that were
accepted, and of later submissions (`Ledger.eventsOf_stranger`).

Main statement: `turnsAway_after_create`.
-/

import KeyedRows.Proofs.TaskQueue.Ledger

namespace KeyedRows
namespace TaskQueue

variable {α : Type} {q q' : TaskQueue α} {new past begun givenUp : List (Nat × Task α)}

/-- A number that was given to a submission which was not accepted. -/
structure Stranger (past : List (Nat × Task α)) (q : TaskQueue α) (n : Nat) : Prop where
  earlier : n < q.submissions
  not_accepted : ∀ e ∈ past, e.1 ≠ n

/-- **No step concerns a submission that was not accepted.** -/
theorem Ledger.eventsOf_stranger (h : Ledger past begun givenUp q) (hsound : q.Sound) {n : Nat}
    (hn : Stranger past q n) (hs : Step q new q') :
    eventsOf q'.events n = eventsOf q.events n ∧ Stranger (past ++ new) q' n := by
  obtain ⟨hearlier, hnot⟩ := hn
  have hlater : n < q.submissions + 1 := Nat.lt_succ_of_lt hearlier
  have hne : n ≠ q.submissions := Nat.ne_of_lt hearlier
  cases hs with
  | disconnect task hopen hgone => exact absurd hgone (hsound.staged.not_gone hopen)
  | refuse => exact ⟨rfl, hlater, by simpa using hnot⟩
  | reject =>
    exact ⟨eventsOf_append_ne (fun _ => number_of_mem_ending) hne, hlater, by simpa using hnot⟩
  | accept task =>
    refine ⟨rfl, hlater, fun e he => ?_⟩
    rcases List.mem_append.1 he with hold | hnew
    · exact hnot e hold
    · rw [List.mem_singleton.1 hnew]
      exact hne.symm
  | close | heed | takeUp | foundNone => exact ⟨rfl, hearlier, by simpa using hnot⟩
  | start hready hwaiting =>
    have hfront := hnot _ (h.front hwaiting).1
    refine ⟨eventsOf_append_ne (fun event hevent => ?_) hfront.symm, hearlier, by simpa using hnot⟩
    rw [List.mem_singleton.1 hevent]
    rfl
  | giveUp hdraining hwaiting =>
    have hfront := hnot _ (h.front hwaiting).1
    exact ⟨eventsOf_append_ne (fun _ => number_of_mem_ending) hfront.symm, hearlier,
      by simpa using hnot⟩
  | hangUp hdrained =>
    rw [hsound.staged.hangUp_eq hdrained]
    exact ⟨rfl, hearlier, by simpa using hnot⟩
  | finish hrunning =>
    have hin := h.running _ (List.mem_of_find?_eq_some hrunning)
    have hother := hnot _ (h.mem_past_of_begun hin)
    exact ⟨eventsOf_append_ne (fun _ => number_of_mem_ending) hother.symm, hearlier,
      by simpa using hnot⟩

/-- Nothing happens later to a submission that was not accepted; above all it does not start. -/
theorem Ledger.eventsOf_stranger_after (h : Ledger past begun givenUp q) (hsound : q.Sound)
    {n : Nat} (hn : Stranger past q n) (as : List (Action α)) :
    eventsOf (q.after as).events n = eventsOf q.events n ∧ n ∉ startedIn (q.after as).events := by
  have hall := hsound.after_induction
    (P := fun past q' => eventsOf q'.events n = eventsOf q.events n ∧ Stranger past q' n ∧
      ∃ begun givenUp, Ledger past begun givenUp q')
    (fun {past new q₁ q₂} hsound h hs => ?_) ⟨rfl, hn, begun, givenUp, h⟩ as
  · obtain ⟨hsame, hn, begun, givenUp, hledger⟩ := hall
    exact ⟨hsame, hledger.not_started fun e he => hn.not_accepted e (hledger.mem_past_of_begun he)⟩
  · obtain ⟨hsame, hn, begun, givenUp, hledger⟩ := h
    obtain ⟨hsame', hn'⟩ := hledger.eventsOf_stranger hsound hn hs
    obtain ⟨begun', givenUp', hledger', -⟩ := hledger.step hsound hs
    exact ⟨hsame'.trans hsame, hn', begun', givenUp', hledger'⟩

/-- What has happened to a task that was turned away with `f`. -/
inductive TurnedAway (q : TaskQueue α) (task : Task α) (f : QueueFault) :
    List (TaskEvent α) → Prop where
  /-- It was told what the submitter is told, and its handle has resolved to that. -/
  | told (g : QueueFault) (hopen : q.closed = false) (hkind : g.kind = f.kind) :
    TurnedAway q task f (ending q.submissions task (.error g.failure))
  /-- After shutdown it was not told. -/
  | refused (hclosed : q.closed = true) (hfault : f = .shutDown) : TurnedAway q task f []

theorem Ledger.turnedAway (h : Ledger past begun givenUp q) (hsound : q.Sound) {task : Task α}
    {f : QueueFault} (herror : (q.submit task).1 = .error f) :
    TurnedAway q task f (eventsOf (q.submit task).2.events q.submissions) := by
  have hnone := h.fresh _ (Nat.le_refl _)
  cases hclosed : q.closed with
  | true =>
    rw [submit_of_closed task hclosed] at herror ⊢
    rw [hnone]
    exact .refused hclosed (Except.error.inj herror).symm
  | false =>
    have hthere := hsound.staged.not_gone hclosed
    by_cases hfull : q.capacity ≤ q.waiting.length
    · rw [submit_of_full task hclosed hthere hfull] at herror ⊢
      rw [eventsOf_append_self fun _ => number_of_mem_ending, hnone, List.nil_append]
      exact .told .rejected hclosed (by rw [← Except.error.inj herror]; rfl)
    · rw [submit_of_room task hclosed hthere (Nat.lt_of_not_le hfull)] at herror
      contradiction

theorem submissions_submit (q : TaskQueue α) (task : Task α) :
    (q.submit task).2.submissions = q.submissions + 1 := by
  rw [submit]
  split
  · rfl
  split
  · rfl
  split <;> rfl

/-- A task that the queue turns away never runs, and is told so unless the queue was shut down;
nothing that is done later changes this. -/
def TurnsAway (q : TaskQueue α) : Prop :=
  ∀ (task : Task α) (f : QueueFault) (later : List (Action α)), (q.submit task).1 = .error f →
    q.submissions ∉ startedIn ((q.submit task).2.after later).events ∧
      TurnedAway q task f (eventsOf ((q.submit task).2.after later).events q.submissions)

theorem Ledger.turnsAway (h : Ledger past begun givenUp q) (hsound : q.Sound) : q.TurnsAway := by
  intro task f later herror
  have hstep := step_submit (q := q) task
  obtain ⟨begun', givenUp', h', -⟩ := h.step hsound hstep
  have hstranger : Stranger (past ++ q.accepts (.submit task)) (q.submit task).2 q.submissions := by
    constructor
    · rw [submissions_submit]
      exact Nat.lt_succ_self _
    · rw [accepts, herror, List.append_nil]
      exact fun e he => Nat.ne_of_lt (h.below e he)
  obtain ⟨hsame, hnever⟩ := h'.eventsOf_stranger_after (hsound.step hstep) hstranger later
  exact ⟨hnever, hsame ▸ h.turnedAway hsound herror⟩

/-- **Tasks that are turned away never run, and are told so before shutdown**: however a queue is
used, from its creation on. -/
theorem turnsAway_after_create (workers capacity : Nat) (hworkers : 0 < workers)
    (hcapacity : 0 < capacity) :
    ∃ q : TaskQueue α, create workers capacity = .ok q ∧
      ∀ as : List (Action α), (q.after as).TurnsAway := by
  obtain ⟨q, hcreate, -⟩ := exists_create (α := α) workers capacity hworkers hcapacity
  have hsound := sound_create hcreate
  refine ⟨q, hcreate, fun as => ?_⟩
  obtain ⟨begun, givenUp, hledger, -⟩ := (ledger_create hcreate).after hsound as
  exact hledger.turnsAway (sound_after hsound as)

/-- The line has one place, so the second task is rejected, and its callback is called once. -/
theorem second_task_told :
    ∃ q : TaskQueue Nat, create 1 1 = .ok q ∧
      ∃ (as : List (Action Nat)) (task : Task Nat),
        ((q.after as).submit task).1 = .error (.full 1) ∧ (q.after as).TurnsAway ∧
          callsIn ((q.after as).submit task).2.events = [(1, .error QueueFault.rejected.failure)] := by
  obtain ⟨q, hcreate, h⟩ := turnsAway_after_create (α := Nat) 1 1 (by decide) (by decide)
  obtain rfl := Except.ok.inj hcreate
  exact ⟨_, rfl, [.submit ⟨.returns (.ok 7), none, false⟩], ⟨.returns (.ok 8), some .returns, false⟩,
    rfl, h _, rfl⟩

/-- A task with a callback that comes after shutdown is refused, and its callback is not called. -/
theorem refused_task_not_told :
    ∃ q : TaskQueue Nat, create 1 1 = .ok q ∧
      ∃ (as : List (Action Nat)) (task : Task Nat) (f : QueueFault),
        task.callback = some .returns ∧ ((q.after as).submit task).1 = .error f ∧
          ¬ ∃ g : QueueFault, g.kind = f.kind ∧
            callsIn (eventsOf ((q.after as).submit task).2.events (q.after as).submissions) =
              [((q.after as).submissions, .error g.failure)] := by
  refine ⟨_, rfl, [.close], ⟨.returns (.ok 7), some .returns, false⟩, .shutDown, rfl, rfl, ?_⟩
  rintro ⟨g, -, hcalls⟩
  exact List.cons_ne_nil _ _ hcalls.symm

end TaskQueue
end KeyedRows
