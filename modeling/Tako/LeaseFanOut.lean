import Mathlib.Algebra.BigOperators.Fin
import Mathlib.Algebra.Order.BigOperators.Group.Finset
import Mathlib.Data.List.ReduceOption
import Tako.Runs

/-! # Leases on several nodes

One worker per target acquires a lease and reports through a channel that has room for every
report. The caller collects the reports, or gives up when the context ends and leaves the rest to a
cleanup. Releasing is best effort: a lease is released when the call has been made.
-/
namespace LeaseFanOut

open Runs Function Finset
open List hiding set

/-- An error with what `errors.Is` and `errors.As` find in it: an ended context, the holder of a
`LockedError`, the server of a `ConnectivityError`. -/
structure AcquireError where
  text : String
  context : Bool
  (locked connectivity : Option String)
  deriving DecidableEq

def contextError (cause : String) : AcquireError := ⟨cause, true, none, none⟩

def plainError (text : String) : AcquireError := ⟨text, false, none, none⟩

structure Call where
  (servers serverNames : List String)
  operation : String
  acquire : Bool
  deriving DecidableEq

def Call.size (c : Call) : ℕ := c.serverNames.length

def Call.check (c : Call) (ctxErr : Option String) : Except AcquireError Unit :=
  match ctxErr with
  | some cause => .error (contextError cause)
  | none =>
    if c.acquire = false then
      .error (plainError s!"lease acquire function is required for {c.operation}")
    else match c.serverNames.find? (fun name => decide (name ∉ c.servers)) with
      | some name => .error (plainError s!"server {name} not found in configuration")
      | none => .ok ()

section Fan

variable {n : ℕ} {Lease : Type}

inductive Worker (Lease : Type) where
  | starting
  | acquiring
  | holding (lease : Lease)
  | reporting (outcome : Except AcquireError Lease)
  | sent
  | finished

structure Result (n : ℕ) (Lease : Type) where
  index : Fin n
  outcome : Except AcquireError Lease

/-- Where the caller is. `releasing` is `set.Release` with the leases still to be released;
`cleanup` says whether the cleanup is started after it. -/
inductive Caller (n : ℕ) (Lease : Type) where
  | entering
  | collecting (remaining : ℕ) (ordered : Fin n → Option Lease) (failures : List String)
      (firstErr : Option AcquireError)
  | releasing (todo : List Lease) (cause : AcquireError) (cleanup : Bool)
  | returned (answer : Except AcquireError (List Lease))

/-- `draining` is the cleanup after it has seen that every worker is finished. -/
inductive Cleaner where
  | idle
  | selecting
  | draining
  | stopped
  deriving DecidableEq

/-- `acquired` and `released` record what happened and are read by no step. -/
structure State (n : ℕ) (Lease : Type) where
  ctxErr : Option String
  spawned : Bool
  workers : Fin n → Worker Lease
  channel : List (Result n Lease)
  caller : Caller n Lease
  cleaner : Cleaner
  acquired : Fin n → Option Lease
  released : List Lease

inductive Event (n : ℕ) (Lease : Type) where
  | cancel (cause : String)
  | enter
  | start (i : Fin n)
  | acquire (i : Fin n) (outcome : Except AcquireError Lease)
  | recheck (i : Fin n)
  | send (i : Fin n)
  | finish (i : Fin n)
  | receive
  | abandon
  | conclude
  | release
  | answer
  | clean
  | observe
  | stop

def appendAcquiredLeases (leases : List Lease) (ordered : Fin n → Option Lease) : List Lease :=
  leases ++ (ofFn ordered).reduceOption

def failurePrefix (operation : String) : String := s!"failed to acquire remote {operation} leases: "

def contextFailure (operation cause : String) : AcquireError :=
  contextError (failurePrefix operation ++ cause)

def failureError (operation : String) (failures : List String) (firstErr : Option AcquireError) :
    AcquireError :=
  let combined := failurePrefix operation ++ "; ".intercalate failures
  match firstErr with
  | none => plainError combined
  | some first =>
    if first.context then { first with text := combined ++ ": " ++ first.text }
    else match first.locked, first.connectivity with
      | some holder, _ => ⟨combined, false, some holder, none⟩
      | none, some server => ⟨combined, false, none, some server⟩
      | none, none => plainError combined

/-- Leases are released in reverse order. -/
def concludeCollecting (operation : String) (ordered : Fin n → Option Lease)
    (failures : List String) (firstErr : Option AcquireError) : Caller n Lease :=
  let leases := appendAcquiredLeases [] ordered
  if failures ≠ [] then .releasing leases.reverse (failureError operation failures firstErr) false
  else .returned (.ok leases)

def collect (caller : Caller n Lease) (r : Result n Lease) : Caller n Lease :=
  match caller, r.outcome with
  | .collecting remaining ordered failures firstErr, .error err =>
    .collecting (remaining - 1) ordered (failures ++ [err.text]) (firstErr.or (some err))
  | .collecting remaining ordered failures firstErr, .ok lease =>
    .collecting (remaining - 1) (update ordered r.index (some lease)) failures firstErr
  | _, _ => caller

def releaseResult (released : List Lease) (r : Result n Lease) : List Lease :=
  match r.outcome with
  | .ok lease => released ++ [lease]
  | .error _ => released

def State.setWorker (s : State n Lease) (i : Fin n) (w : Worker Lease) : State n Lease :=
  { s with workers := update s.workers i w }

def Worker.isStarting : Worker Lease → Bool
  | .starting => true
  | _ => false

def Worker.isFinished : Worker Lease → Bool
  | .finished => true
  | _ => false

def Enabled (s : State n Lease) : Event n Lease → Prop
  | .cancel _ => s.ctxErr = none
  | .enter => (s.caller matches .entering)
  | .start i => s.spawned ∧ (s.workers i).isStarting
  | .acquire i _ => (s.workers i matches .acquiring)
  | .recheck i => (s.workers i matches .holding _)
  | .send i => (s.workers i matches .reporting _)
  | .finish i => (s.workers i matches .sent)
  | .receive => s.channel.isEmpty = false ∧ (s.caller matches .collecting (_ + 1) _ _ _)
  | .abandon => s.ctxErr.isSome ∧ (s.caller matches .collecting (_ + 1) _ _ _)
  | .conclude => (s.caller matches .collecting 0 _ _ _)
  | .release => (s.caller matches .releasing (_ :: _) _ _)
  | .answer => (s.caller matches .releasing [] _ _)
  | .clean => s.channel.isEmpty = false ∧ (s.cleaner = .selecting ∨ s.cleaner = .draining)
  | .observe => s.cleaner = .selecting ∧ ∀ i, (s.workers i).isFinished
  | .stop => s.cleaner = .draining ∧ s.channel.isEmpty

instance (s : State n Lease) (e : Event n Lease) : Decidable (Enabled s e) := by
  cases e <;> simp only [Enabled] <;> infer_instance

def next (c : Call) (s : State n Lease) : Event n Lease → State n Lease
  | .cancel cause => { s with ctxErr := some cause }
  | .enter =>
    match c.check s.ctxErr with
    | .error err => { s with caller := .returned (.error err) }
    | .ok _ => { s with spawned := true, caller := .collecting n (fun _ => none) [] none }
  | .start i =>
    match s.ctxErr with
    | some cause => s.setWorker i (.reporting (.error (contextError cause)))
    | none => s.setWorker i .acquiring
  | .acquire i (.ok lease) =>
    { s.setWorker i (.holding lease) with acquired := update s.acquired i (some lease) }
  | .acquire i (.error err) => s.setWorker i (.reporting (.error err))
  | .recheck i =>
    match s.workers i, s.ctxErr with
    | .holding lease, some cause =>
      { s.setWorker i (.reporting (.error (contextError cause))) with
        released := s.released ++ [lease] }
    | .holding lease, none => s.setWorker i (.reporting (.ok lease))
    | _, _ => s
  | .send i =>
    match s.workers i with
    | .reporting outcome => { s.setWorker i .sent with channel := s.channel ++ [⟨i, outcome⟩] }
    | _ => s
  | .finish i => s.setWorker i .finished
  | .receive =>
    match s.channel with
    | [] => s
    | r :: rest => { s with channel := rest, caller := collect s.caller r }
  | .abandon =>
    match s.caller, s.ctxErr with
    | .collecting _ ordered _ _, some cause =>
      let leases := appendAcquiredLeases [] ordered
      { s with caller := .releasing leases.reverse (contextFailure c.operation cause) true }
    | _, _ => s
  | .conclude =>
    match s.caller with
    | .collecting _ ordered failures firstErr =>
      { s with caller := concludeCollecting c.operation ordered failures firstErr }
    | _ => s
  | .release =>
    match s.caller with
    | .releasing (lease :: todo) cause cleanup =>
      { s with caller := .releasing todo cause cleanup, released := s.released ++ [lease] }
    | _ => s
  | .answer =>
    match s.caller with
    | .releasing _ cause cleanup =>
      { s with
        caller := .returned (.error cause)
        cleaner := if cleanup then .selecting else s.cleaner }
    | _ => s
  | .clean =>
    match s.channel with
    | [] => s
    | r :: rest => { s with channel := rest, released := releaseResult s.released r }
  | .observe => { s with cleaner := .draining }
  | .stop => { s with cleaner := .stopped }

def machine (n : ℕ) (Lease : Type) (c : Call) : Machine (State n Lease) (Event n Lease) :=
  ⟨Enabled, next c⟩

instance (c : Call) (s : State n Lease) (e : Event n Lease) :
    Decidable ((machine n Lease c).Enabled s e) :=
  inferInstanceAs (Decidable (Enabled s e))

def initial (n : ℕ) (Lease : Type) : State n Lease where
  ctxErr := none
  spawned := false
  workers := fun _ => .starting
  channel := []
  caller := .entering
  cleaner := .idle
  acquired := fun _ => none
  released := []

/-- Nothing is left to do for the program; only the context may still end. -/
def Quiescent (s : State n Lease) : Prop := ∀ e, Enabled s e → ∃ cause, e = .cancel cause

def Worker.unsent : Worker Lease → Bool
  | .sent | .finished => false
  | _ => true

def Worker.early : Worker Lease → Bool
  | .starting | .acquiring => true
  | _ => false

def Worker.holds : Worker Lease → Option Lease
  | .holding lease => some lease
  | .reporting outcome => outcome.toOption
  | _ => none

section

variable (s : State n Lease)

def Pending (i : Fin n) : Prop := (s.workers i).unsent ∨ i ∈ s.channel.map Result.index

def State.unsentCount : ℕ := ∑ i, (s.workers i).unsent.toNat

def Collected : Prop := s.channel = [] ∧ ∀ i, (s.workers i).unsent = false

def CallerKnows : Caller n Lease → Prop
  | .entering => s.spawned = false ∧ s.cleaner = .idle
  | .collecting remaining ordered failures _ =>
    s.spawned ∧ s.cleaner = .idle ∧ remaining = s.unsentCount + s.channel.length ∧
      (∀ i, Pending s i → ordered i = none) ∧
      ∀ i, ¬ Pending s i → failures ≠ [] ∨ ∃ lease, ordered i = some lease ∧
        s.acquired i = some lease
  | .releasing _ _ cleanup => s.spawned ∧ s.cleaner = .idle ∧ (cleanup = false → Collected s)
  | .returned (.ok set) =>
    s.spawned ∧ s.cleaner = .idle ∧ Collected s ∧
      ∃ leases : Fin n → Lease, set = ofFn leases ∧ ∀ i, s.acquired i = some (leases i)
  | .returned (.error _) => s.cleaner = .idle → s.spawned → Collected s

def CleanerKnows : Cleaner → Prop
  | .idle => True
  | .selecting => (s.caller matches .returned (.error _))
  | .draining => (s.caller matches .returned (.error _)) ∧ ∀ i, (s.workers i).isFinished
  | .stopped =>
    (s.caller matches .returned (.error _)) ∧ s.channel = [] ∧ ∀ i, (s.workers i).isFinished

/-- A worker moves on; a lease it acquires or releases on the way is recorded. -/
def State.move (i : Fin n) (w : Worker Lease) (acquired : Option Lease)
    (released : List Lease) : State n Lease :=
  { s with
    workers := update s.workers i w
    acquired := update s.acquired i acquired
    released := released }

open State

theorem setWorker_eq_move (i : Fin n) (w : Worker Lease) :
    s.setWorker i w = s.move i w (s.acquired i) s.released := by
  unfold setWorker move
  rw [update_eq_self]

end

variable {s : State n Lease} {w : Worker Lease}

theorem move_unsent (hunsent : w.unsent = (s.workers i).unsent) (j : Fin n) :
    ((s.move i w acquired released).workers j).unsent = (s.workers j).unsent := by
  by_cases hj : j = i
  · subst hj
    simp only [State.move, update_self]
    exact hunsent
  · simp only [State.move, update_of_ne hj]

theorem move_pending (hunsent : w.unsent = (s.workers i).unsent) :
    Pending (s.move i w acquired released) j ↔ Pending s j := by
  unfold Pending
  rw [move_unsent hunsent]
  rfl

theorem move_collected (hunsent : w.unsent = (s.workers i).unsent) (h : Collected s) :
    Collected (s.move i w acquired released) := by
  refine ⟨h.1, ?_⟩
  intro j
  rw [move_unsent hunsent]
  exact h.2 j

theorem move_acquired (hmono : ∀ lease, s.acquired i = some lease → acquired = some lease)
    (h : s.acquired j = some lease) : (s.move i w acquired released).acquired j = some lease := by
  by_cases hj : j = i
  · subst hj
    simp only [State.move, update_self]
    exact hmono lease h
  · simp only [State.move, update_of_ne hj]
    exact h

theorem move_caller (hunsent : w.unsent = (s.workers i).unsent)
    (hmono : ∀ lease, s.acquired i = some lease → acquired = some lease)
    (h : CallerKnows s caller) : CallerKnows (s.move i w acquired released) caller := by
  cases caller with
  | entering => exact h
  | collecting =>
    obtain ⟨hspawned, hidle, hrest, hempty, hfilled⟩ := h
    refine ⟨hspawned, hidle, ?_, ?_, ?_⟩
    · rw [hrest]
      unfold State.unsentCount
      simp only [move_unsent hunsent]
      rfl
    · intro j hj
      exact hempty j ((move_pending hunsent).mp hj)
    · intro j hj
      rcases hfilled j (fun hp => hj ((move_pending hunsent).mpr hp)) with
        hfailed | ⟨lease, hslot, hacq⟩
      · exact .inl hfailed
      · exact .inr ⟨lease, hslot, move_acquired hmono hacq⟩
  | releasing =>
    obtain ⟨hspawned, hidle, hcoll⟩ := h
    exact ⟨hspawned, hidle, fun hc => move_collected hunsent (hcoll hc)⟩
  | returned answer =>
    cases answer with
    | error => exact fun hidle hspawned => move_collected hunsent (h hidle hspawned)
    | ok =>
      obtain ⟨hspawned, hidle, hcoll, leases, hset, hleases⟩ := h
      exact ⟨hspawned, hidle, move_collected hunsent hcoll, leases, hset,
        fun j => move_acquired hmono (hleases j)⟩

/-- The cleanup has seen every worker finished, so none of them moves any more. -/
theorem move_cleaner (hactive : ¬ (s.workers i).isFinished) (h : CleanerKnows s cleaner) :
    CleanerKnows (s.move i w acquired released) cleaner := by
  cases cleaner with
  | idle => trivial
  | selecting => exact h
  | draining => exact absurd (h.2 i) hactive
  | stopped => exact absurd (h.2.2 i) hactive

theorem unsent_not_collected (hi : (s.workers i).unsent) : ¬ Collected s := by
  intro h
  rw [h.2 i] at hi
  cases hi

theorem cleaning_returned (h : CleanerKnows s s.cleaner) (hc : s.cleaner ≠ .idle) :
    ∃ cause, s.caller = .returned (.error cause) := by
  have herror : (s.caller matches .returned (.error _)) := by
    cases hcleaner : s.cleaner with
    | idle => exact absurd hcleaner hc
    | selecting => rw [hcleaner] at h; exact h
    | draining | stopped => rw [hcleaner] at h; exact h.1
  cases hcaller : s.caller with
  | returned answer =>
    cases answer with
    | error cause => exact ⟨cause, rfl⟩
    | ok => simp [hcaller] at herror
  | _ => simp [hcaller] at herror

theorem appendAcquiredLeases_full (h : ∀ i, ordered i = some (leases i)) :
    appendAcquiredLeases [] ordered = ofFn leases := by
  have hordered := funext h
  unfold appendAcquiredLeases reduceOption
  rw [hordered, show (fun i => some (leases i)) = some ∘ leases from rfl, ← map_ofFn, filterMap_map]
  exact filterMap_some

theorem sum_update {α : Type} (f : α → ℕ) (g : Fin n → α) (i : Fin n) (a : α) :
    ∑ j, f (update g i a j) + f (g i) = ∑ j, f (g j) + f a := by
  have hnew : ∑ j, f (update g i a j) = f a + ∑ j ∈ univ.erase i, f (g j) := by
    rw [← add_sum_erase _ _ (mem_univ i), update_self]
    refine congrArg (f a + ·) (sum_congr rfl ?_)
    intro j hj
    rw [update_of_ne (ne_of_mem_erase hj)]
  have hold := add_sum_erase univ (fun j => f (g j)) (mem_univ i)
  omega

open Worker

/-- The program has no step left: every worker it started is finished and the call has returned. -/
theorem quiescent_finished (hq : Quiescent s) (hspawned : s.spawned) (i : Fin n) :
    (s.workers i).isFinished := by
  cases hw : s.workers i with
  | starting =>
    obtain ⟨cause, hc⟩ := hq (.start i) (by simp [Enabled, hspawned, hw, isStarting]); cases hc
  | acquiring =>
    obtain ⟨cause, hc⟩ := hq (.acquire i (.error (plainError ""))) (by simp [Enabled, hw])
    cases hc
  | holding => obtain ⟨cause, hc⟩ := hq (.recheck i) (by simp [Enabled, hw]); cases hc
  | reporting => obtain ⟨cause, hc⟩ := hq (.send i) (by simp [Enabled, hw]); cases hc
  | sent => obtain ⟨cause, hc⟩ := hq (.finish i) (by simp [Enabled, hw]); cases hc
  | finished => rfl

theorem finished_sent (h : w.isFinished) : w.unsent = false ∧ w.holds = none := by
  cases w with
  | finished => exact ⟨rfl, rfl⟩
  | _ => simp [isFinished] at h

theorem quiescent_of_rest (hworkers : ∀ i, (s.workers i).isFinished)
    (hc : s.caller = .returned answer) (hcleaner : s.cleaner = .idle ∨ s.cleaner = .stopped) :
    Quiescent s := by
  intro e he
  have hworker : ∀ i, s.workers i = .finished := by
    intro i
    have hi := hworkers i
    cases hw : s.workers i with
    | finished => rfl
    | _ => simp [hw, isFinished] at hi
  cases e with
  | cancel cause => exact ⟨cause, rfl⟩
  | start => simp [Enabled, hworker, isStarting] at he
  | clean | observe | stop =>
    rcases hcleaner with hcl | hcl <;> simp [Enabled, hcl] at he
  | _ => simp [Enabled, hworker, hc] at he

def Worker.rank : Worker Lease → ℕ
  | .starting => 6
  | .acquiring => 5
  | .holding _ => 4
  | .reporting _ => 3
  | .sent => 1
  | .finished => 0

def Caller.rank : Caller n Lease → ℕ
  | .entering => n + 5
  | .collecting _ _ _ _ => n + 4
  | .releasing todo _ _ => todo.length + 3
  | .returned _ => 0

def Cleaner.rank : Cleaner → ℕ
  | .idle => 3
  | .selecting => 2
  | .draining => 1
  | .stopped => 0

def State.rank (s : State n Lease) : ℕ :=
  ∑ i, (s.workers i).rank + s.channel.length + s.caller.rank + s.cleaner.rank +
    s.ctxErr.isNone.toNat

theorem setWorker_rank (s : State n Lease) (i : Fin n) (w : Worker Lease) :
    (s.setWorker i w).rank + (s.workers i).rank = s.rank + w.rank := by
  have hsum := sum_update rank s.workers i w
  unfold State.rank State.setWorker
  dsimp only
  omega

theorem appendAcquiredLeases_length (ordered : Fin n → Option Lease) :
    (appendAcquiredLeases [] ordered).length ≤ n := by
  calc (filterMap id (ofFn ordered)).length ≤ (ofFn ordered).length := length_filterMap_le _ _
    _ = n := length_ofFn

theorem setWorker_rank_lt (hw : s.workers i = before) (h : w.rank < before.rank) :
    (s.setWorker i w).rank < s.rank := by
  have hrank := setWorker_rank s i w
  rw [hw] at hrank
  omega

section

variable (c : Call)

theorem start_rank (he : Enabled s (.start i)) : (next c s (.start i)).rank < s.rank := by
  cases hw : s.workers i with
  | starting =>
    simp only [next]
    cases s.ctxErr with
    | none | some => exact setWorker_rank_lt hw (by simp [rank])
  | _ => simp [Enabled, hw, isStarting] at he

theorem acquire_rank (he : Enabled s (.acquire i outcome)) :
    (next c s (.acquire i outcome)).rank < s.rank := by
  cases hw : s.workers i with
  | acquiring =>
    cases outcome with
    | ok =>
      exact setWorker_rank_lt hw (by simp [rank])
    | error => exact setWorker_rank_lt hw (by simp [rank])
  | _ => simp [Enabled, hw] at he

theorem recheck_rank (he : Enabled s (.recheck i)) : (next c s (.recheck i)).rank < s.rank := by
  cases hw : s.workers i with
  | holding =>
    cases hctx : s.ctxErr with
    | none | some =>
      simp only [next, hw, hctx]
      exact setWorker_rank_lt hw (by simp [rank])
  | _ => simp [Enabled, hw] at he

/-- A report is worth less in the channel than in the hands of its worker. -/
theorem send_rank (he : Enabled s (.send i)) : (next c s (.send i)).rank < s.rank := by
  cases hw : s.workers i with
  | reporting =>
    have hrank := setWorker_rank s i .sent
    simp only [hw, rank] at hrank
    have hchan : (next c s (.send i)).rank = (s.setWorker i .sent).rank + 1 := by
      simp only [next, hw, State.rank, State.setWorker, length_append, length_singleton]
      omega
    omega
  | _ => simp [Enabled, hw] at he

theorem finish_rank (he : Enabled s (.finish i)) : (next c s (.finish i)).rank < s.rank := by
  cases hw : s.workers i with
  | sent => exact setWorker_rank_lt hw (by simp [rank])
  | _ => simp [Enabled, hw] at he

end

theorem collect_rank : (collect caller r).rank = caller.rank := by
  unfold collect
  split <;> rfl

section

variable (c : Call)

include c

theorem enter_rank (he : Enabled s .enter) : (next c s .enter).rank < s.rank := by
  cases hc : s.caller with
  | entering =>
    simp only [next]
    split <;> simp [State.rank, hc, Caller.rank]
  | _ => simp [Enabled, hc] at he

theorem abandon_rank (he : Enabled s .abandon) : (next c s .abandon).rank < s.rank := by
  obtain ⟨hended, hcollecting⟩ := he
  cases hctx : s.ctxErr with
  | none => simp [hctx] at hended
  | some =>
    cases hc : s.caller with
    | collecting remaining ordered =>
      have hlen := appendAcquiredLeases_length ordered
      simp only [next, hc, hctx, State.rank, Caller.rank, length_reverse]
      omega
    | _ => simp [hc] at hcollecting

theorem conclude_rank (he : Enabled s .conclude) : (next c s .conclude).rank < s.rank := by
  cases hc : s.caller with
  | collecting remaining ordered =>
    have hlen := appendAcquiredLeases_length ordered
    simp only [next, hc, State.rank, concludeCollecting]
    split_ifs
    · simp only [Caller.rank, length_reverse]
      omega
    · simp only [Caller.rank]
      omega
  | _ => simp [Enabled, hc] at he

theorem release_rank (he : Enabled s .release) : (next c s .release).rank < s.rank := by
  cases hc : s.caller with
  | releasing todo =>
    cases todo with
    | nil => simp [Enabled, hc] at he
    | cons =>
      simp only [next, hc, State.rank, Caller.rank, length_cons]
      omega
  | _ => simp [Enabled, hc] at he

theorem answer_rank (he : Enabled s .answer) : (next c s .answer).rank < s.rank := by
  cases hc : s.caller with
  | releasing todo cause cleanup =>
    have hcleaner :
        (if cleanup then Cleaner.selecting else s.cleaner).rank ≤ s.cleaner.rank + 2 := by
      cases cleanup with
      | true => exact Nat.le_add_left 2 _
      | false => exact Nat.le_add_right _ 2
    simp only [next, hc, State.rank, Caller.rank]
    omega
  | _ => simp [Enabled, hc] at he

/-- Taking a report out of the channel is progress, whoever takes it. -/
theorem receive_rank (he : Enabled s .receive) : (next c s .receive).rank < s.rank := by
  cases hchan : s.channel with
  | nil => simp [Enabled, hchan] at he
  | cons =>
    simp only [next, hchan, State.rank, collect_rank, length_cons]
    omega

theorem clean_rank (he : Enabled s .clean) : (next c s .clean).rank < s.rank := by
  cases hchan : s.channel with
  | nil => simp [Enabled, hchan] at he
  | cons =>
    simp only [next, hchan, State.rank, length_cons]
    omega

theorem step_rank (s : State n Lease) (e : Event n Lease) (he : Enabled s e) :
    (next c s e).rank < s.rank := by
  cases e with
  | cancel =>
    simp only [Enabled] at he
    simp [next, State.rank, he]
  | enter => exact enter_rank c he
  | start => exact start_rank c he
  | acquire => exact acquire_rank c he
  | recheck => exact recheck_rank c he
  | send => exact send_rank c he
  | finish => exact finish_rank c he
  | receive => exact receive_rank c he
  | abandon => exact abandon_rank c he
  | conclude => exact conclude_rank c he
  | release => exact release_rank c he
  | answer => exact answer_rank c he
  | clean => exact clean_rank c he
  | observe | stop =>
    simp [next, State.rank, he.1, Cleaner.rank]

end

theorem initial_rank : (initial n Lease).rank = 7 * n + 9 := by
  simp only [State.rank, initial, rank, Caller.rank, Cleaner.rank, sum_const, card_univ,
    Fintype.card_fin, smul_eq_mul, length_nil, Option.isNone_none, Bool.toNat_true]
  omega

/-- No run of the call, its workers and its cleanup goes on for ever. -/
theorem trace_length (c : Call) (h : (machine n Lease c).ValidTrace (initial n Lease) trace) :
    trace.length ≤ 7 * n + 9 := by
  have hbound := h.length_le (step_rank c)
  rwa [initial_rank] at hbound

end Fan

end LeaseFanOut
