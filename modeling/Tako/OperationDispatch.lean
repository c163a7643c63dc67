import Tako.OperationInvariant

/-! # Operations are dispatched at most once

A record that may not be replayed is dispatched at most once, a record that has ended keeps its
status, and an accepted operation has its record until the history drops or replaces it.
-/
namespace OperationEngine

open GoPrelude DurablePrograms OperationStore Runs World

variable {s u : World}

theorem reachable_after (hs : Invariant P s) (h : (machine P).Execution s u) : Invariant P u :=
  h.invariant (fun _ _ hI he => invariant_step hI he) hs

theorem execution_ended (hs : Invariant P s) (hterminal : status.terminal)
    (hended : s.disk.Ended t status) (h : (machine P).Execution s u) : u.disk.Ended t status := by
  refine (h.invariant (I := fun v => Invariant P v ∧ v.disk.Ended t status) ?_ ⟨hs, hended⟩).2
  rintro v e ⟨hv, hended⟩ he
  exact ⟨invariant_step hv he, hended.writes hterminal (effect hv he).writes⟩

def Interrupted (s : World) (t : ℕ) : Prop :=
  (s.process = none ∧ ((∃ file, s.disk.Live t file ∧ file.status = .running) ∨
    s.disk.Ended t .ambiguous)) ∨
    s.disk.Past t .ambiguous

theorem next_process (he : Enabled P s e) (hnone : s.process = none) : (s.next P e).process = none ∨
      ∃ sweep stop, e = .start sweep stop ∧
        (recoverIncomplete P sweep).answer s.disk stop = some (.ok ()) := by
  cases e with
  | start sweep stop =>
    cases hans : (recoverIncomplete P sweep).answer s.disk stop with
    | none => exact .inl (by simp [next, hans])
    | some answer =>
      cases answer with
      | error => exact .inl (by simp [next, hans])
      | ok => exact .inr ⟨sweep, stop, rfl, hans⟩
  | enqueue => exact .inl (by simp [next, hnone])
  | crash | cancel | finish => exact absurd hnone he
  | claim => simp [Enabled, hnone] at he
  | openStream => exact absurd hnone he.1
  | beginStream | dispatch | settle | release =>
    simp [Enabled, taskAt, hnone] at he

/-- A recovery that succeeds leaves no record of the queue but those that wait. -/
theorem queued_after_start (h : (recoverIncomplete P sweep).answer s.disk stop = some (.ok ()))
    (hlive : (s.next P (.start sweep stop)).disk.Live t file) : file.status = .queued := by
  obtain ⟨id, hfound, -⟩ := hlive
  exact Holds.answer holds_recoverIncomplete h hfound

theorem Interrupted.step (hs : Invariant P s) (hspec : s.disk.accepted[t]? = some spec)
    (hsingle : NotReplaySafe P spec) (h : Interrupted s t) (he : Enabled P s e) :
    Interrupted (s.next P e) t := by
  have hw := (effect hs he).writes
  rcases h with ⟨hnone, hopen⟩ | hpast
  · -- Recovery is the only event that may touch the record, and it knows one end for it.
    have hafter : (∃ file, (s.next P e).disk.Live t file ∧ file.status = .running) ∨
        (s.next P e).disk.Ended t .ambiguous := by
      rcases hopen with hrunning | hended
      · refine hw.interrupted hrunning ?_
        rintro w file after hpre ⟨id, hfound, hticket⟩ hstatus hA
        obtain ⟨spec', hspec', -, -, hkind, hpayload⟩ := (hs.wellFormed.writes hpre).queue hfound
        rw [hticket, Writes.getElem?_accepted hpre hspec] at hspec'
        cases hspec'
        exact hA.2 hnone hstatus (hsingle.congr hkind hpayload)
      · exact .inr (hended.writes rfl hw)
    rcases next_process he hnone with hstill | ⟨sweep, stop, rfl, hans⟩
    · exact .inl ⟨hstill, hafter⟩
    · rcases hafter with ⟨file, hlive, hstatus⟩ | ⟨file, hlive, hstatus⟩ | hpast
      · rw [queued_after_start hans hlive] at hstatus
        cases hstatus
      · rw [queued_after_start hans hlive] at hstatus
        cases hstatus
      · exact .inr hpast
  · exact .inr (hpast.writes hw)

theorem execution_interrupted (hs : Invariant P s) (hspec : s.disk.accepted[t]? = some spec)
    (hsingle : NotReplaySafe P spec) (hinterrupted : Interrupted s t)
    (h : (machine P).Execution s u) : Interrupted u t := by
  refine (h.invariant (I := fun v => Invariant P v ∧ v.disk.accepted[t]? = some spec ∧
    Interrupted v t) ?_ ⟨hs, hspec, hinterrupted⟩).2.2
  rintro v e ⟨hv, hspec, hinterrupted⟩ he
  exact ⟨invariant_step hv he, (effect hv he).writes.getElem?_accepted hspec,
    hinterrupted.step hv hspec hsingle he⟩

/-- What holds of the queue in a state, and in every state that a run leads to from there. -/
structure DispatchSafety (P : Platform) (s : World) : Prop where
  once : ∀ t spec, s.disk.accepted[t]? = some spec → NotReplaySafe P spec → s.dispatches.count t ≤ 1
  interrupted : ∀ t spec file, s.disk.accepted[t]? = some spec → NotReplaySafe P spec →
    s.process = none →
    s.disk.Live t file → file.status = .running → ∀ u, (machine P).Execution s u →
      (∀ after, u.disk.Live t after → after.status = .running ∨ after.status = .ambiguous) ∧
        (u.process ≠ none → u.disk.Past t .ambiguous)
  ended : ∀ t file, s.disk.Live t file ∨ s.disk.Archived t file → file.status.terminal →
    ∀ u, (machine P).Execution s u → u.disk.Ended t file.status ∧
      ∀ after, u.disk.Live t after ∨ u.disk.Archived t after → after.status = file.status
  present : ∀ t < s.disk.accepted.length, (∃ file, s.disk.Live t file) ∨
    (∃ file, s.disk.Archived t file ∧ file.status.terminal) ∨ t ∈ s.disk.dropped

theorem operations_dispatched_at_most_once (hs : (machine P).Reachable Fresh s) :
    DispatchSafety P s := by
  have hinv := reachable_invariant hs
  constructor
  case once => exact fun t spec hspec hsingle => (hinv.once t spec hspec hsingle).1
  case interrupted =>
    intro t spec file hspec hsingle hnone hlive hrunning u hrun
    have hu := reachable_after hinv hrun
    have hafter := execution_interrupted hinv hspec hsingle
      (.inl ⟨hnone, .inl ⟨file, hlive, hrunning⟩⟩) hrun
    constructor
    · intro after hlive
      rcases hafter with ⟨-, ⟨other, hother, hstatus⟩ | hended⟩ | hpast
      · rw [hu.wellFormed.live_unique hlive hother]
        exact .inl hstatus
      · exact .inr (hended.status_eq hu.wellFormed (.inl hlive))
      · exact absurd hlive (hpast.not_live hu.wellFormed)
    · intro hprocess
      rcases hafter with ⟨hnone, -⟩ | hpast
      · exact absurd hnone hprocess
      · exact hpast
  case ended =>
    intro t file hfile hterminal u hrun
    have hended : s.disk.Ended t file.status := by
      rcases hfile with hlive | harchived
      · exact .inl ⟨file, hlive, rfl⟩
      · exact .inr (.inl ⟨file, harchived, rfl⟩)
    have hafter := execution_ended hinv hterminal hended hrun
    exact ⟨hafter, fun after hfound => hafter.status_eq (reachable_after hinv hrun).wellFormed
      hfound⟩
  case present =>
    intro t ht
    rcases hinv.wellFormed.present t ht with hlive | ⟨file, id, hfound, hticket⟩ | hdropped
    · exact .inl hlive
    · exact .inr (.inl ⟨file, ⟨id, hfound, hticket⟩, hinv.wellFormed.ended hfound⟩)
    · exact .inr (.inr hdropped)

def oneWorker : Platform where
  encodedSize _ := 512
  plan _ _ := .ok {}
  maxOps := 1

def operation (id : String) : OperationSpec where
  id := id
  kind := "agent.request"
  createdAt := 1

def clockAt (now : Time) : Conditions := { now := now, fileTime := now }

def dispatching (id : String) : List Event :=
  [.start {} .returns, .enqueue (clockAt 1) (operation id) .returns,
    .claim { on := fun _ => clockAt 2 } .returns, .dispatch 0]

/-- The process stops while the executor has the operation. -/
theorem interrupted_restart_safe :
    ((machine oneWorker).runTrace {} (dispatching "restart-web" ++ [.crash])).dispatches = [0] ∧
      DispatchSafety oneWorker ((machine oneWorker).runTrace {}
        (dispatching "restart-web" ++ [.crash])) :=
  ⟨by decide +kernel, operations_dispatched_at_most_once (.of_trace (by rfl) _ (by decide +kernel))⟩

def pruning : List Event :=
  dispatching "restart-web" ++ [.settle (clockAt 3) 0 {} .returns, .release 0,
    .enqueue (clockAt (8 * 24 * hour)) (operation "restart-db") .returns]

/-- A process that stops between the two writes of `complete` leaves the ended record in the queue,
and a record that is pruned is in neither directory. -/
theorem accepted_operation_not_kept :
    (∃ s file, (machine oneWorker).Reachable Fresh s ∧ s.disk.Live 0 file ∧
      file.status = .succeeded) ∧
      ∃ s, (machine oneWorker).Reachable Fresh s ∧ 0 < s.disk.accepted.length ∧
        ∀ file, ¬ s.disk.Live 0 file ∧ ¬ s.disk.Archived 0 file := by
  constructor
  · obtain ⟨file, hfound, hticket, hsucceeded⟩ :=
      exists_of_any (o := ((machine oneWorker).runTrace {}
        (dispatching "restart-web" ++ [.settle (clockAt 3) 0 {} (.crashes 1)])).disk.queue.lookup
          "restart-web")
      (P := fun file => file.ticket = 0 ∧ file.status = .succeeded) (by decide +kernel)
    exact ⟨_, file, .of_trace (by rfl) _ (by decide +kernel), ⟨_, hfound, hticket⟩, hsucceeded⟩
  · have hs : (machine oneWorker).Reachable Fresh ((machine oneWorker).runTrace {} pruning) :=
      .of_trace (by rfl) pruning (by decide +kernel)
    have hdropped : 0 ∈ ((machine oneWorker).runTrace {} pruning).disk.dropped := by decide +kernel
    have hwell := (reachable_invariant hs).wellFormed
    refine ⟨_, hs, by decide +kernel, ?_⟩
    exact fun file => ⟨hwell.dropped_queue 0 hdropped file, hwell.dropped_history 0 hdropped file⟩

end OperationEngine
