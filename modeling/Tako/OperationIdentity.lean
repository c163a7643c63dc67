import Tako.OperationDispatch

/-! # Operation IDs

`Enqueue` looks for a record with the same ID in the queue directory and nowhere else: an ID that is
enqueued after its record has left the queue runs again.
-/
namespace OperationEngine

open GoPrelude GoMaps DurablePrograms OperationStore Runs
open List hiding removeAll

variable {id : String}

/-- Nothing but a record with the same ID can keep the request from being accepted. -/
structure Unhindered (P : Platform) (c : Conditions) (request : OperationSpec) (d : Disk) :
    Prop where
  valid : ∃ spec, validateOperationSpec c.now request = .ok spec ∧
    totalBytes P d.queue.entries + P.encodedSize (queuedState spec c.now) ≤ maxOperationQueueBytes
  room : d.queue.entries.length < maxPendingOperations
  encode : c.encode = none
  list : c.list = none
  temporary : c.temporary = none
  history : c.prune.list = none ∧ c.prune.sync = none
  files : ∀ name, c.prune.info name = none ∧ c.prune.remove name = none

variable {E : String → Disk → Prop}

theorem fails_attempt (h : fault = none) : Fails (attempt fault) d E := by
  subst h
  exact fails_check fun cause hc => by cases hc

theorem fails_removeFile (h : faults.remove name = none) : Fails (removeFile faults name) d E :=
  fails_write fun cause hc => by
    rw [h] at hc
    cases hc

theorem fails_removeExpired (h : ∀ name, faults.info name = none ∧ faults.remove name = none) :
    Fails (removeExpired faults now entries) d E := by
  induction entries generalizing d with
  | nil => exact fails_ok
  | cons entry rest ih =>
    refine fails_bind (I := fun _ => True) (fails_attempt (h entry.1).1) (holds_attempt ?_)
    by_cases hexp : expired now entry.2
    · rw [if_pos hexp]
      exact fails_bind (I := fun _ => True) (fails_removeFile (h entry.1).2)
        (holds_write trivial ih)
    · rw [if_neg hexp]
      exact fails_bind (I := fun _ => True) fails_ok (holds_ok ih)

theorem fails_removeAll (h : ∀ name, faults.info name = none ∧ faults.remove name = none) :
    Fails (removeAll faults names) d E := by
  induction names generalizing d with
  | nil => exact fails_ok
  | cons name rest ih =>
    exact fails_bind (I := fun _ => True) (fails_removeFile (h name).2) (holds_write trivial ih)

theorem fails_pruneHistory (h : Unhindered P c request w) : Fails (pruneHistoryLocked P c) d E := by
  refine fails_bind (I := fun _ => True) (fails_attempt h.history.1) (holds_attempt ?_)
  refine fails_bind_check (fun cause hc => by cases hc) ?_
  intro entries _
  refine fails_bind (fails_removeExpired h.files)
    ((holds_removeExpired _ _ _ (Tidied.refl d)).post fun _ w hw => ?_)
  refine fails_bind (fails_removeAll h.files) ((holds_removeAll _ _ hw).post fun _ w hw => ?_)
  exact fails_attempt h.history.2

theorem fails_enqueue (h : Unhindered P c request d) (hpend : (d.queue.lookup request.id).isSome) :
    Fails (enqueue P c request) d fun cause _ => cause = errOperationExists := by
  obtain ⟨spec, hvalid, hbytes⟩ := h.valid
  refine fails_bind_check (fun cause hc => by rw [hvalid] at hc; cases hc) ?_
  intro spec' hspec'
  cases hvalid.symm.trans hspec'
  refine fails_bind (I := fun _ => True) (fails_attempt h.encode) (holds_attempt ?_)
  refine fails_bind (fails_pruneHistory h) ((holds_pruneHistory (Tidied.refl d)).post ?_)
  intro _ w hw
  refine fails_bind (I := fun _ => True) (fails_attempt h.list) (holds_attempt ?_)
  refine fails_bind_check ?_ ?_
  · intro cause hc
    rw [hw.queue, require, if_pos h.room] at hc
    cases hc
  · intro _ _
    refine fails_bind_check ?_ ?_
    · intro cause hc
      rw [hw.queue, require, if_pos hbytes] at hc
      cases hc
    · intro _ _
      refine fails_bind (I := fun _ => True) (fails_attempt h.temporary) (holds_attempt ?_)
      have hid := (validateOperationSpec_eq_ok hvalid).1
      have hfound : ¬ w.queue.lookup spec.id = none := by
        rw [hw.queue, hid]
        intro hnone
        rw [hnone] at hpend
        cases hpend
      refine fails_bind_check ?_ ?_
      · intro cause hc
        rw [require, if_neg hfound] at hc
        cases hc
        rfl
      · intro _ hok
        rw [require_eq_ok] at hok
        exact absurd hok hfound

theorem enqueue_pending_accepted (hpend : (d.queue.lookup request.id).isSome) :
    ((enqueue P c request).disk d stop).accepted = d.accepted := by
  have hw : Writes (Links d request) NoReplacements d ((enqueue P c request).disk d stop) :=
    (holds_enqueue request).disk .refl stop
  have hnone : ∀ spec, Links d request spec → NoLinks spec := by
    rintro spec ⟨-, hnone⟩
    rw [hnone] at hpend
    cases hpend
  exact (hw.mono hnone fun _ _ hA => hA).accepted_eq

theorem enqueue_pending_refused (hpend : (d.queue.lookup request.id).isSome) :
    (enqueue P c request).answer d stop ≠ some (.ok v) := by
  intro hans
  have haccepts := (holds_enqueue (A := NoReplacements) request).answer hans
  obtain ⟨spec, hacc, -⟩ := haccepts.accepted
  rw [enqueue_pending_accepted hpend] at hacc
  have hlen := congrArg length hacc
  simp at hlen

def PendingOrNew (s : World) : Event → Prop
  | .enqueue _ request _ | .openStream _ _ request _ =>
    (s.disk.queue.lookup request.id).isSome ∨ request.id ∉ s.disk.accepted.map fun spec => spec.id
  | _ => True

instance (s : World) : (e : Event) → Decidable (PendingOrNew s e)
  | .enqueue _ request _ | .openStream _ _ request _ =>
    inferInstanceAs (Decidable ((s.disk.queue.lookup request.id).isSome ∨
      request.id ∉ s.disk.accepted.map fun spec => spec.id))
  | .start .. | .crash | .cancel | .finish | .claim .. | .beginStream .. | .dispatch _
  | .settle .. | .release _ => .isTrue trivial

theorem next_accepted (hs : Invariant P s) (he : Enabled P s e) (hnew : PendingOrNew s e) :
    (s.next P e).disk.accepted = s.disk.accepted ∨ ∃ spec,
      (s.next P e).disk.accepted = s.disk.accepted ++ [spec] ∧
      spec.id ∉ s.disk.accepted.map fun spec => spec.id := by
  have hlinked : ∀ {request w}, Writes (Links s.disk request) NoReplacements s.disk w →
      ((s.disk.queue.lookup request.id).isSome ∨
        request.id ∉ s.disk.accepted.map fun spec => spec.id) →
      w.accepted = s.disk.accepted ∨ ∃ spec, w.accepted = s.disk.accepted ++ [spec] ∧
        spec.id ∉ s.disk.accepted.map fun spec => spec.id := by
    intro request w hw hnew
    refine (Links.accepted hw).imp_right ?_
    rintro ⟨spec, hacc, ⟨hid, hnone⟩, -⟩
    refine ⟨spec, hacc, ?_⟩
    rcases hnew with hpend | hnew
    · rw [hnone] at hpend
      cases hpend
    · rw [hid]
      exact hnew
  cases e with
  | enqueue c request stop => exact hlinked ((holds_enqueue request).disk .refl stop) hnew
  | openStream c role request stop =>
    obtain ⟨p, hp⟩ := Option.ne_none_iff_exists'.mp he.1
    have hdisk : (s.next P (.openStream c role request stop)).disk =
        (openExternal P c request).disk s.disk stop := by
      simp only [World.next, hp]
    rw [hdisk]
    exact hlinked ((holds_openExternal request).disk .refl stop) hnew
  | start | crash | cancel | finish | claim | beginStream | dispatch | settle | release =>
    exact .inl (Writes.accepted_eq (effect hs he).writes)

def Distinct (s : World) : Prop := (s.disk.accepted.map fun spec => spec.id).Nodup

theorem distinct_step (hs : Invariant P s) (he : Enabled P s e) (hnew : PendingOrNew s e)
    (h : Distinct s) : Distinct (s.next P e) := by
  unfold Distinct
  rcases next_accepted hs he hnew with hsame | ⟨spec, hacc, hfresh⟩
  · rw [hsame]
    exact h
  · rw [hacc, map_append, nodup_append]
    refine ⟨h, nodup_singleton _, ?_⟩
    intro a ha b hb hab
    rw [map_singleton, mem_singleton] at hb
    exact hfresh (hb ▸ hab ▸ ha)

theorem restricted_reachable (hs : ((machine P).restrict PendingOrNew).Reachable Fresh s) :
    Invariant P s ∧ Distinct s := by
  refine hs.invariant (I := fun v => Invariant P v ∧ Distinct v) ?_ ?_
  · rintro v rfl
    exact ⟨invariant_fresh rfl, nodup_nil⟩
  · rintro v e ⟨hv, hdist⟩ ⟨he, hnew⟩
    exact ⟨invariant_step hv he, distinct_step hv he hnew hdist⟩

theorem archived_not_pending (hs : Invariant P s) (h : Distinct s)
    (harch : s.disk.history.lookup id = some file) : s.disk.queue.lookup id = none := by
  cases hlive : s.disk.queue.lookup id with
  | none => rfl
  | some =>
    exfalso
    obtain ⟨spec, hspec, hid, -⟩ := hs.wellFormed.history harch
    obtain ⟨spec', hspec', hid', -⟩ := hs.wellFormed.queue hlive
    apply hs.wellFormed.apart hlive harch
    have hlt := (List.getElem?_eq_some_iff.mp hspec').1
    refine (getElem?_inj (by simpa using hlt) h).mp ?_
    simp [hspec, hspec', hid, hid']

theorem next_count (hs : Invariant P s) (he : Enabled P s e)
    (hspec : s.disk.accepted[t]? = some spec) (hnone : s.disk.queue.lookup spec.id = none) :
    (s.next P e).dispatches.count t = s.dispatches.count t := by
  by_cases hdispatch : ∃ index, e = .dispatch index
  · obtain ⟨index, rfl⟩ := hdispatch
    obtain ⟨p, task, hp, htask, hat, hready⟩ := taskAt_any he
    have hstage := of_decide_eq_true (Bool.and_eq_true_iff.mp hready).1
    have htracks := hs.tracks p hp task (mem_of_getElem? htask)
    have hne : task.ticket ≠ t := by
      rintro rfl
      obtain ⟨known, hknown, hid, -⟩ := htracks.known
      obtain ⟨file, hfound, -⟩ := htracks.held (by rw [hstage]; decide)
      cases hspec.symm.trans hknown
      rw [← hid, hnone] at hfound
      cases hfound
    have hlog : (s.next P (.dispatch index)).dispatches = task.ticket :: s.dispatches := by
      simp only [World.next, hp, hat]
    rw [hlog, count_cons_of_ne hne]
  · rw [next_dispatches fun index heq => hdispatch ⟨index, heq⟩]

structure Retired (id : String) (file : RecordFile) (v : World) : Prop where
  used : id ∈ v.disk.accepted.map fun spec => spec.id
  queue : v.disk.queue.lookup id = none
  history : v.disk.history.lookup id = some file ∨ v.disk.history.lookup id = none

theorem Retired.step (h : Retired id file s) (hs : Invariant P s) (he : Enabled P s e)
    (hnew : PendingOrNew s e) : Retired id file (s.next P e) := by
  have hw := (effect hs he).writes
  have hL : ∀ spec, Linked s e spec → spec.id ≠ id := by
    -- An ID that is not pending is linked only if it is new.
    have hlinks : ∀ {request}, ((s.disk.queue.lookup request.id).isSome ∨
        request.id ∉ s.disk.accepted.map fun spec => spec.id) → ∀ spec, Links s.disk request spec →
          spec.id ≠ id := by
      rintro request hnew spec ⟨hid, hnone⟩ rfl
      rcases hnew with hpend | hnew
      · rw [hnone] at hpend
        cases hpend
      · exact hnew (hid ▸ h.used)
    cases e with
    | enqueue | openStream => exact hlinks hnew
    | start | crash | cancel | finish | claim | beginStream | dispatch | settle | release =>
      exact fun _ hl => hl.elim
  obtain ⟨hqueue, hhistory⟩ := Writes.absent hw hL h.queue
  refine ⟨?_, hqueue, ?_⟩
  · obtain ⟨more, hmore⟩ := hw.accepted_grows
    rw [hmore, map_append]
    exact mem_append_left _ h.used
  · rcases hhistory with hsame | hgone
    · rw [hsame]
      exact h.history
    · exact .inr hgone

theorem restricted_retired (hs : Invariant P s) (h : Distinct s)
    (harch : s.disk.history.lookup id = some file)
    (hrun : ((machine P).restrict PendingOrNew).Execution s u) :
    Retired id file u ∧ ∀ t spec, s.disk.accepted[t]? = some spec → spec.id = id →
      u.dispatches.count t = s.dispatches.count t := by
  have hstart : Retired id file s := by
    refine ⟨?_, archived_not_pending hs h harch, .inl harch⟩
    obtain ⟨spec, hspec, hid, -⟩ := hs.wellFormed.history harch
    exact mem_map.mpr ⟨spec, mem_of_getElem? hspec, hid⟩
  have hall := hrun.invariant (I := fun v => Invariant P v ∧ Retired id file v ∧
    ∀ t spec, s.disk.accepted[t]? = some spec → spec.id = id →
      v.disk.accepted[t]? = some spec ∧ v.dispatches.count t = s.dispatches.count t) ?_
      ⟨hs, hstart, fun t spec hspec _ => ⟨hspec, rfl⟩⟩
  · exact ⟨hall.2.1, fun t spec hspec hid => (hall.2.2 t spec hspec hid).2⟩
  · rintro v e ⟨hv, hretired, hcount⟩ ⟨he, hnew⟩
    refine ⟨invariant_step hv he, hretired.step hv he hnew, ?_⟩
    intro t spec hspec hid
    obtain ⟨hacc, hsame⟩ := hcount t spec hspec hid
    refine ⟨(effect hv he).writes.getElem?_accepted hacc, ?_⟩
    exact (next_count hv he hacc (hid ▸ hretired.queue)).trans hsame

/-- Every later `Enqueue` of an accepted ID is refused; a completed operation is not dispatched
again, and its record is not replaced. -/
structure IdentitySafety (P : Platform) (s : World) : Prop where
  refused : ∀ c request stop, PendingOrNew s (.enqueue c request stop) →
    (request.id ∈ s.disk.accepted.map fun spec => spec.id) →
      (∀ v, (enqueue P c request).answer s.disk stop ≠ some (.ok v)) ∧
        ((enqueue P c request).disk s.disk stop).accepted = s.disk.accepted ∧
        (Unhindered P c request s.disk →
          (enqueue P c request).answer s.disk .returns = some (.error errOperationExists))
  distinct : (s.disk.accepted.map fun spec => spec.id).Nodup
  completed : ∀ id file, s.disk.history.lookup id = some file →
    ∀ u, ((machine P).restrict PendingOrNew).Execution s u →
      (u.disk.history.lookup id = some file ∨ u.disk.history.lookup id = none) ∧
        ∀ t spec, s.disk.accepted[t]? = some spec → spec.id = id →
          u.dispatches.count t = s.dispatches.count t

/-- In every run in which no ID is enqueued again after its record has left the queue. -/
theorem operation_ids_never_reused (hs : ((machine P).restrict PendingOrNew).Reachable Fresh s) :
    IdentitySafety P s := by
  obtain ⟨hinv, hdistinct⟩ := restricted_reachable hs
  constructor
  case refused =>
    intro c request stop hnew hused
    have hpending := hnew.resolve_right (not_not.mpr hused)
    refine ⟨fun v => enqueue_pending_refused hpending, enqueue_pending_accepted hpending, ?_⟩
    intro hunhindered
    cases hanswer : (enqueue P c request).answer s.disk .returns with
    | none => cases hanswer
    | some answer =>
      cases answer with
      | ok => exact absurd hanswer (enqueue_pending_refused hpending)
      | error => rw [(fails_enqueue hunhindered hpending).answer hanswer]
  case distinct => exact hdistinct
  case completed =>
    intro id file harchived u hrun
    obtain ⟨hretired, hcount⟩ := restricted_retired hinv hdistinct harchived hrun
    exact ⟨hretired.history, hcount⟩

def enqueuingTwice : List Event :=
  [.enqueue (clockAt 1) (operation "restart-web") .returns,
    .enqueue (clockAt 2) (operation "restart-web") .returns]

theorem pending_operation_refused :
    (((machine oneWorker).restrict PendingOrNew).runTrace {} enqueuingTwice).disk.accepted.length =
      1 ∧
      IdentitySafety oneWorker (((machine oneWorker).restrict PendingOrNew).runTrace
        {} enqueuingTwice) := by
  exact ⟨by decide +kernel, operation_ids_never_reused
    (.of_trace (by rfl) enqueuingTwice (by decide +kernel))⟩

def running : List Event :=
  dispatching "restart-web" ++ [.settle (clockAt 3) 0 {} .returns, .release 0]

def runningTwice : List Event :=
  running ++ [.enqueue (clockAt 4) (operation "restart-web") .returns,
    .claim { on := fun _ => clockAt 5 } .returns,
    .dispatch 0, .settle (clockAt 6) 0 {} .returns, .release 0]

/-- An ID whose record is in the history is accepted again; the operation is dispatched a second
time and its record replaces the first one. -/
theorem completed_operation_accepted_again :
    (((machine oneWorker).runTrace {} running).disk.history.lookup "restart-web").map
      (fun file => file.ticket) = some 0 ∧
      (enqueue oneWorker (clockAt 4) (operation "restart-web")).answer
        ((machine oneWorker).runTrace {} running).disk .returns = some (.ok ()) ∧
      (machine oneWorker).Reachable Fresh ((machine oneWorker).runTrace {} runningTwice) ∧
      ((machine oneWorker).runTrace {} runningTwice).dispatches = [1, 0] ∧
      (((machine oneWorker).runTrace {} runningTwice).disk.history.lookup "restart-web").map
        (fun file => file.ticket) = some 1 := by
  refine ⟨by decide +kernel, by decide +kernel, ?_, by decide +kernel, by decide +kernel⟩
  exact .of_trace (by rfl) runningTwice (by decide +kernel)

end OperationEngine
