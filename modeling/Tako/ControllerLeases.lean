import Tako.ControllerGrantUniqueness

/-! # The backing lease of a controller operation

Whatever call is stopped between its writes, the lease of the active operation must not outlive its
fence, and the holder must be able to go on from there.
-/
namespace ControllerLeases

open GoPrelude NodeIdentity OperationLeases WorkerFences ControllerOperations Function
open ControllerGrantUniqueness DurablePrograms Runs

def backingScope (a : ControlOperationRecord) : Scope := (a.fence.project, a.fence.environment)

def Backs (d : Disk) (a : ControlOperationRecord) (lease : LeaseInfo) : Prop :=
  d.leases (backingScope a) = .held lease ∧ lease.id = a.fence.operationID

def Bounded (d : Disk) : Prop :=
  ∀ a lease, d.stored.active = some a → Backs d a lease → lease.expiresAt ≤ a.fence.expiresAt

/-- Only the controller's calls touch the lease files, and a drawn operation ID is not the
one the journal still lists as active. -/
def ByCalls (s : State) : Event → Prop
  | .leases _ => False
  | .acquire _ draw _ _ _ _ _ _ _ =>
    ∀ a ∈ s.disk.stored.active, ∀ id ∈ draw.operationID.toOption, a.fence.operationID ≠ id
  | _ => True

instance (s : State) : (e : Event) → Decidable (ByCalls s e)
  | .leases _ => .isFalse id
  | .acquire _ draw _ _ _ _ _ _ _ => inferInstanceAs (Decidable
    (∀ a ∈ s.disk.stored.active, ∀ id ∈ draw.operationID.toOption, a.fence.operationID ≠ id))
  | .tick _ | .release .. | .status .. | .phase .. => .isTrue trivial

def Disk.setLease (d : Disk) (scope : Scope) (file : LeaseFile) : Disk :=
  { d with leases := update d.leases scope file }

/-- A lease call keeps the bound when it leaves the file, or leaves no lease of the active
operation that outlives the fence. -/
theorem Bounded.setLease (h : Bounded d)
    (hfile : file = d.leases scope ∨ ∀ a lease, d.stored.active = some a → file = .held lease →
      lease.id = a.fence.operationID → lease.expiresAt ≤ a.fence.expiresAt) :
    Bounded (Disk.setLease d scope file) := by
  rintro a lease ha ⟨hheld, hid⟩
  by_cases hscope : backingScope a = scope
  · simp only [Disk.setLease, hscope, update_self] at hheld
    rcases hfile with hsame | hnew
    · exact h a lease ha ⟨by rw [hscope, ← hsame, hheld], hid⟩
    · exact hnew a lease ha hheld hid
  · simp only [Disk.setLease, update_of_ne hscope] at hheld
    exact h a lease ha ⟨hheld, hid⟩

theorem bounded_idle (h : d.stored.active = none) : Bounded d := by
  intro a lease ha
  rw [h] at ha
  cases ha

/-- Every write of a call keeps the bound, if the operation ID it draws is not the active one. -/
theorem Bounded.write
    (hfresh : ∀ a ∈ before, ∀ id ∈ draw.operationID.toOption, a.fence.operationID ≠ id) (d w : Disk)
    (h : Bounded d) (hw : Write S draw before clock d w) : Bounded w := by
  cases hw with
  | lease hfile =>
    refine h.setLease (hfile.imp_right fun hnew a lease ha hheld hid => ?_)
    rcases hnew lease hheld with ⟨hdraw, hbefore⟩ | ⟨b, hb, hexp⟩
    · rw [hbefore] at ha
      exact absurd hid.symm (hfresh a ha lease.id (by rw [hdraw]; rfl))
    · cases ha.symm.trans hb
      exact hexp.le
  | bind => exact h
  | grant _ _ _ _ hlease hexp hactive =>
    rintro b current hb ⟨hheld, _⟩
    cases hactive.symm.trans hb
    cases hlease.symm.trans hheld
    exact hexp.le
  | rewrite ha _ _ hsame hexp hactive =>
    rintro b lease hb ⟨hheld, hid⟩
    cases hactive.symm.trans hb
    refine (h _ lease ha ⟨?_, hid.trans hsame.operationID.symm⟩).trans hexp
    rw [backingScope, hsame.project, hsame.environment]
    exact hheld
  | expire _ hactive => exact bounded_idle hactive

theorem Bounded.write_undrawn (clock : Time) (d w : Disk) (h : Bounded d)
    (hw : Write S ⟨.error "", .error ""⟩ none clock d w) : Bounded w := by
  refine Bounded.write ?_ d w h hw
  intro a ha
  cases ha

theorem release_bounded (hctrl : S.controller = some installation) (hb : Bounded d) :
    Holds (releaseControllerOperationLease S faults inventoryFile req now) d Bounded
      (fun _ _ => True) := by
  refine (release_holds hctrl ⟨.error "", .error ""⟩ none now).weaken ?_ fun _ _ _ => trivial
  rintro w (⟨hwrite, _⟩ | ⟨a, leases, kept, _, rfl⟩)
  · exact hb.write_undrawn now d w hwrite
  · exact bounded_idle (retireControlOperation_active d.stored "completed" now)

theorem step_preserves_bounded (hctrl : S.controller = some installation) (hb : Bounded s.disk)
    (he : ByCalls s e) : Bounded (next S s e).disk := by
  cases e with
  | tick => exact hb
  | leases => exact he.elim
  | acquire req draw inventoryFile checkedFile faults now leaseAt returnAt stop =>
    exact (acquireCall_holds (Bounded.write he) hb hctrl rfl le_rfl).disk hb stop
  | release req inventoryFile faults now stop => exact (release_bounded hctrl hb).disk hb stop
  | status faults checkedAt retiredAt stop =>
    exact (reconcileExpired_holds (Bounded.write_undrawn checkedAt) hb le_rfl).disk hb stop
  | phase fence holderToken phase inventoryFile faults verifyAt now stop =>
    exact (updateControllerFencePhase_holds (Bounded.write_undrawn now) hb).disk hb stop

theorem reachable_bounded (hctrl : S.controller = some installation)
    (hr : ((machine S).restrict ByCalls).Reachable Initial s) : Bounded s.disk := by
  refine hr.invariant (I := fun s => Bounded s.disk) ?_ ?_
  · rintro s ⟨hjournal, _⟩
    refine bounded_idle ?_
    simp [Disk.stored, hjournal, emptyControlOperationState]
  · rintro s e hs ⟨_, he⟩
    exact step_preserves_bounded hctrl hs he

def Renewed (d : Disk) (response : LeaseResponse) : Prop :=
  ∃ a lease, d.stored.active = some a ∧ Backs d a lease ∧ lease.expiresAt = a.fence.expiresAt ∧
    response.acquired ∧ response.lease = some { lease with fence := some a.fence }

def RenewedOrSame (d : Disk) (result : Except String LeaseResponse × Disk) : Prop :=
  result.2 = d ∨ ∃ response, result.1 = .ok response ∧ Renewed result.2 response

theorem RenewedOrSame.check {α : Type} {x : Disk → Except String α}
    {f : α → Durable Disk LeaseResponse}
    (h : ∀ value, x d = .ok value → RenewedOrSame d ((f value).run d)) :
    RenewedOrSame d ((.check x >>= f).run d) :=
  run_check_bind (fun _ => .inl rfl) h

theorem renewLeaseTo_held (hpre : leasePreflight dataDir noFaults req false = .ok ())
    (hid : lease.id = req.id) : renewLeaseTo dataDir noFaults req expiresAt (.held lease) =
      (.ok (granted { lease with expiresAt := expiresAt } "lease renewed"),
        .held { lease with expiresAt := expiresAt }) := by
  unfold renewLeaseTo
  rw [hpre]
  simp [readLeaseFile, noFaults, noAttemptFaults, hid, rewriteLeaseFile]

theorem setLease_self : Disk.setLease d scope (d.leases scope) = d := by
  unfold Disk.setLease
  rw [update_eq_self]

/-- The last steps of both renewals: the lease is set to the expiry the journal has. -/
def renewBacking (S : ControlServer) (req : LeaseRequest) (a : ControlOperationRecord)
    (failure : String) : Durable Disk LeaseResponse := do
  let response ← leaseCall req.scope (renewLeaseTo S.dataDir noFaults req a.fence.expiresAt)
  .check fun _ => require (response.acquired ∧ response.lease.isSome) failure
  pure (withFence response a.fence a.holderToken)

theorem renewBacking_renews (failure : String)
    (hpre : leasePreflight S.dataDir noFaults req false = .ok ()) (ha : d.stored.active = some a)
    (hbacks : Backs d a lease) (hid : a.fence.operationID = req.id)
    (hscope : backingScope a = req.scope) :
    ∃ response, ((renewBacking S req a failure).run d).1 = .ok response ∧
      Renewed ((renewBacking S req a failure).run d).2 response := by
  obtain ⟨hheld, hlease⟩ := hbacks
  rw [hscope] at hheld
  have hcall : (leaseCall req.scope (renewLeaseTo S.dataDir noFaults req a.fence.expiresAt)).run d =
      (.ok (granted { lease with expiresAt := a.fence.expiresAt } "lease renewed"),
        Disk.setLease d req.scope (.held { lease with expiresAt := a.fence.expiresAt })) := by
    unfold leaseCall
    rw [run_call, hheld, renewLeaseTo_held hpre (hlease.trans hid)]
    rfl
  unfold renewBacking
  rw [run_bind_ok hcall]
  refine ⟨_, rfl, a, { lease with expiresAt := a.fence.expiresAt }, ha, ⟨?_, hlease⟩, rfl, rfl, rfl⟩
  rw [hscope]
  exact update_self ..

theorem renewBacking_rejected (failure : String)
    (hpre : leasePreflight S.dataDir noFaults req false = .error cause) :
    ((renewBacking S req a failure).run d).2 = d := by
  have hcall : (leaseCall req.scope (renewLeaseTo S.dataDir noFaults req a.fence.expiresAt)).run d =
      (.error cause, d) := by
    unfold leaseCall renewLeaseTo
    rw [hpre]
    exact Prod.ext rfl setLease_self
  unfold renewBacking
  rw [run_bind_error hcall]

open RenewedOrSame

theorem reconcileRenewal_run (hfaults : faults.lease = noFaults) (ha : d.stored.active = some a)
    (hbacks : Backs d a lease) (hid : a.fence.operationID = req.id)
    (hscope : backingScope a = req.scope) :
    RenewedOrSame d ((reconcileRenewal S faults inventoryFile req presented a).run d) := by
  unfold reconcileRenewal
  rw [hfaults]
  refine check fun _ _ => ?_
  refine check fun _ _ => ?_
  cases hpre : leasePreflight S.dataDir noFaults req false with
  | error => exact .inl (renewBacking_rejected _ hpre)
  | ok _ => exact .inr (renewBacking_renews _ hpre ha hbacks hid hscope)

theorem validateLeaseRequest_scope (h : validateLeaseRequest req true = .ok ()) :
    validateLeaseRequest req false = .ok () := by
  simp only [validateLeaseRequest, bind_eq_ok, require_eq_ok, whenever_eq_ok] at h ⊢
  obtain ⟨u, hproj, v, henv, _⟩ := h
  exact ⟨u, hproj, v, henv, fun hfalse => by cases hfalse⟩

/-- The journal is written before anything else; it is refused or it has the new active record. -/
theorem writeControlOperationState_run :
    (∃ cause, (writeControlOperationState S fault state).run d = (.error cause, d)) ∨
      ∃ kept, (writeControlOperationState S fault state).run d =
        (.ok (), { d with journal := some { state with history := kept } }) := by
  unfold writeControlOperationState
  cases hpruned : pruneHistory S state state.history with
  | error cause => exact .inl ⟨cause, run_bind_error (run_check _)⟩
  | ok =>
    obtain ⟨kept, rfl⟩ := pruneHistory_eq hpruned
    cases fault with
    | some cause => exact .inl ⟨cause, rfl⟩
    | none => exact .inr ⟨kept, rfl⟩

theorem renewActive_run {inventory : ClusterInventory} (hdata : S.dataDir ≠ "")
    (hfaults : faults.lease = noFaults) (hbacks : Backs d a lease)
    (hid : a.fence.operationID = req.id) (hscope : backingScope a = req.scope) : RenewedOrSame d
      ((renewActive S installation faults inventory inventoryFile req presented state a verifyAt
        now).run d) := by
  unfold renewActive
  rw [hfaults]
  refine check fun _ _ => ?_
  refine check fun _ _ => ?_
  refine check fun _ hvalid => ?_
  refine check fun _ _ => ?_
  refine check fun fence hsigned => ?_
  have hfence := signOperationFence_eq _ hsigned
  rcases writeControlOperationState_run with ⟨cause, hfailed⟩ | ⟨kept, hwritten⟩
  · rw [run_bind_error hfailed]
    exact .inl rfl
  rw [run_bind_ok hwritten]
  have hexp : fence.expiresAt = now + req.ttl := by rw [hfence]
  have hsame : fence.operationID = a.fence.operationID ∧ fence.project = a.fence.project ∧
      fence.environment = a.fence.environment := by
    rw [hfence]
    exact ⟨rfl, rfl, rfl⟩
  obtain ⟨hop, hproj, henv⟩ := hsame
  have hpre : leasePreflight S.dataDir noFaults req false = .ok () := by
    simp only [leasePreflight, bind_eq_ok]
    exact ⟨(), validateLeaseRequest_scope hvalid, by simpa [leaseOpen, noFaults] using hdata⟩
  rw [← hexp]
  have hbacking : backingScope { a with
      previousFence := some a.fence, fence := fence, updatedAt := now } = backingScope a := by
    unfold backingScope
    rw [hproj, henv]
  refine .inr (renewBacking_renews (a := { a with
    previousFence := some a.fence, fence := fence, updatedAt := now }) _ hpre rfl
      (show Backs _ _ lease from ⟨?_, ?_⟩) ?_ ?_)
  · rw [hbacking]
    exact hbacks.1
  · exact hbacks.2.trans hop.symm
  · exact hop.trans hid
  · exact hbacking.trans hscope

theorem checkHolder_scope (h : checkHolder req a = .ok u) : backingScope a = req.scope := by
  simp only [checkHolder, bind_eq_ok, require_eq_ok] at h
  obtain ⟨_, ⟨hproj, henv⟩, _⟩ := h
  unfold backingScope LeaseRequest.scope
  rw [hproj, henv]

theorem renewControllerOperationLease_run {inventory : ClusterInventory}
    (hfaults : faults.lease = noFaults) (ha : d.stored.active = some a) (hbacks : Backs d a lease) :
    RenewedOrSame d
      ((renewControllerOperationLease S installation faults inventory inventoryFile req
      verifyAt now).run d) := by
  refine check fun _ hdata => ?_
  rw [require_eq_ok] at hdata
  refine check fun state hread => ?_
  have hstate := readControlOperationState_stored hread
  subst state
  rw [ha]
  dsimp only
  split_ifs with hid
  · exact .inl rfl
  refine check fun _ hholder => ?_
  have hscope := checkHolder_scope hholder
  cases req.fence with
  | none => exact .inl rfl
  | some =>
    dsimp only
    split_ifs
    · exact reconcileRenewal_run hfaults ha hbacks (not_not.mp hid) hscope
    · exact renewActive_run hdata hfaults hbacks (not_not.mp hid) hscope

/-- In every state the controller's calls can reach, stopped anywhere and failing anywhere,
the backing lease ends no later than the active fence. While the lease is there, a renewal
whose lease calls do not fail succeeds or changes nothing, whatever fence it carries. -/
theorem lease_never_outlives_fence {installation : Installation}
    (hcontroller : S.controller = some installation) {s : State}
    (hr : ((machine S).restrict ByCalls).Reachable Initial s) {a : ControlOperationRecord}
    {lease : LeaseInfo} (ha : s.disk.stored.active = some a) (hbacks : Backs s.disk a lease) :
    lease.expiresAt ≤ a.fence.expiresAt ∧
    ∀ (req : LeaseRequest) (draw : Draw) (inventoryFile checkedFile : Option ClusterInventory)
      (faults : CallFaults) (now leaseAt : Time), req.renew → faults.lease = noFaults →
      RenewedOrSame s.disk
        ((acquireCall S req draw inventoryFile checkedFile faults now leaseAt).run s.disk) := by
  refine ⟨reachable_bounded hcontroller hr a lease ha hbacks, ?_⟩
  intro req draw inventoryFile checkedFile faults now leaseAt hrenew hfaults
  unfold acquireCall acquireControllerOperationLease
  rw [hcontroller]
  refine check fun inventory _ => ?_
  rw [if_pos hrenew]
  exact renewControllerOperationLease_run hfaults ha hbacks

/-! A renewal that stops after its journal write, and the holder's next one. -/

def renewFirst (fence : OperationFence) (now : Time) (stop : Stop) : Event :=
  .acquire { demoAsk "request-1" with
      id := "op-1", holderToken := "holder-1", ttlSeconds := 120, renew := true,
      fence := some fence }
    ⟨.error "unused", .error "unused"⟩ (some demoInventory) (some demoInventory) noCallFaults now
      now now stop

def halfRenewed : State :=
  ((machine demoControl).restrict ByCalls).runTrace emptyController
    [askFirst, renewFirst firstFence 2 (.crashes 1)]

/-- The lease is a minute behind the fence, and the renewal with the fence the holder has
brings them together. -/
theorem lease_never_outlives_fence_half_renewed :
    ∃ a lease, halfRenewed.disk.stored.active = some a ∧ Backs halfRenewed.disk a lease ∧
      a.fence.expiresAt = 2 + 2 * minute ∧ lease.expiresAt = 1 + minute ∧
      lease.expiresAt ≤ a.fence.expiresAt ∧
      ∀ draw, RenewedOrSame halfRenewed.disk ((acquireCall demoControl { demoAsk "request-1" with
          id := "op-1", holderToken := "holder-1", ttlSeconds := 120, renew := true,
          fence := some firstFence }
        draw (some demoInventory) (some demoInventory) noCallFaults 3 3).run halfRenewed.disk) := by
  have hreach : ((machine demoControl).restrict ByCalls).Reachable Initial halfRenewed :=
    .of_trace ⟨rfl, fun _ => rfl, rfl⟩ [askFirst, renewFirst firstFence 2 (.crashes 1)]
      (by decide +kernel)
  obtain ⟨a, ha, hexpires, hscope, hid⟩ := exists_of_any (o := halfRenewed.disk.stored.active)
    (P := fun a => a.fence.expiresAt = 2 + 2 * minute ∧ backingScope a = ("demo", "production") ∧
      a.fence.operationID = "op-1") (by decide +kernel)
  have hlease : halfRenewed.disk.leases ("demo", "production") =
      .held (newLease { demoAsk "request-1" with id := "op-1" } 1) := by decide +kernel
  have hbacks : Backs halfRenewed.disk a (newLease { demoAsk "request-1" with id := "op-1" } 1) :=
    ⟨by rw [hscope, hlease], hid.symm⟩
  obtain ⟨hbound, hnext⟩ := lease_never_outlives_fence rfl hreach ha hbacks
  exact ⟨a, _, ha, hbacks, hexpires, by decide, hbound, fun draw => hnext _ draw _ _ _ 3 3 rfl rfl⟩

/-- The holder's release of the active operation passes every check that is not about the
lease file. -/
structure ValidRelease (S : ControlServer) (inventoryFile : Option ClusterInventory)
    (req : LeaseRequest) (now : Time) (d : Disk) : Prop where
  dataDir : S.dataDir ≠ ""
  readable : readControlOperationState S none d.journal = .ok d.stored
  holder : ∃ a presented fence, d.stored.active = some a ∧ req.fence = some presented ∧
    a.fence.operationID = req.id ∧ checkHolder req a = .ok () ∧
    verifyReleased S inventoryFile presented a = .ok fence
  request : releasePreflight S.dataDir noFaults req = .ok ()
  fits : ∃ pruned, pruneHistory S (retireControlOperation d.stored "completed" now)
    (retireControlOperation d.stored "completed" now).history = .ok pruned

def Retires (S : ControlServer) (inventoryFile : Option ClusterInventory) (req : LeaseRequest)
    (now : Time) (d : Disk) : Prop :=
  ∃ response, ((releaseControllerOperationLease S noCallFaults inventoryFile req now).run d).1 =
    .ok response ∧
    ((releaseControllerOperationLease S noCallFaults inventoryFile req now).run d).2.stored.active =
      none

/-- From the lease call on, a valid release is decided by the file alone. -/
def finishRelease (S : ControlServer) (req : LeaseRequest) (now : Time)
    (state : ControlOperationState) : Durable Disk LeaseResponse := do
  let response ← leaseCall req.scope (releaseLease S.dataDir noFaults req)
  .check fun _ => require (response.lease.any (fun lease => decide (lease.id = req.id)))
    "controller operation lease was not removed; global authority remains active"
  writeControlOperationState S none (retireControlOperation state "completed" now)
  pure response

theorem ValidRelease.run (hctrl : S.controller = some installation)
    (h : ValidRelease S inventoryFile req now d) :
    (releaseControllerOperationLease S noCallFaults inventoryFile req now).run d =
      (finishRelease S req now d.stored).run d := by
  obtain ⟨a, presented, fence, ha, hpres, hid, hholder, hverified⟩ := h.holder
  unfold releaseControllerOperationLease
  rw [hctrl]
  rw [run_bind_ok (w := d) (a := ()) (by simp [h.dataDir, require])]
  rw [run_bind_ok (by rw [run_check]; exact congrArg (·, d) h.readable)]
  rw [ha, hpres]
  rw [run_bind_ok (w := d) (a := ()) (by simp [hid, require])]
  rw [run_bind_ok (by rw [run_check, hholder])]
  rw [run_bind_ok (by rw [run_check, hverified])]
  rfl

theorem releaseLease_held (hpre : releasePreflight dataDir noFaults req = .ok ())
    (hid : lease.id = req.id) :
    releaseLease dataDir noFaults req (.held lease) =
      (.ok (refused false (some lease) ""), .absent) := by
  unfold releaseLease
  rw [hpre]
  simp [readLeaseFile, noFaults, noAttemptFaults, hid]

theorem finishRelease_retires (hpre : releasePreflight S.dataDir noFaults req = .ok ())
    (hheld : d.leases req.scope = .held lease) (hid : lease.id = req.id)
    (hpruned : pruneHistory S (retireControlOperation state "completed" now)
      (retireControlOperation state "completed" now).history = .ok pruned) :
    (finishRelease S req now state).run d = (.ok (refused false (some lease) ""),
      { Disk.setLease d req.scope .absent with journal := some pruned }) := by
  have hcall : (leaseCall req.scope (releaseLease S.dataDir noFaults req)).run d =
      (.ok (refused false (some lease) ""), Disk.setLease d req.scope .absent) := by
    unfold leaseCall
    rw [run_call, hheld, releaseLease_held hpre hid]
    rfl
  have hwrite : ∀ w,
      (writeControlOperationState S none (retireControlOperation state "completed" now)).run w =
      (.ok (), { w with journal := some pruned }) := by
    intro w
    unfold writeControlOperationState
    rw [run_bind_ok (by rw [run_check, hpruned])]
    rfl
  unfold finishRelease
  rw [run_bind_ok hcall]
  rw [run_bind_ok (w := Disk.setLease d req.scope .absent) (a := ())
    (by simp [refused, hid, require])]
  rw [run_bind_ok (hwrite _)]
  rfl

theorem finishRelease_found (h : ((finishRelease S req now state).run d).1 = .ok response) :
    ∃ lease, d.leases req.scope = .held lease ∧ lease.id = req.id := by
  rcases release_outcome S.dataDir noFaults req (d.leases req.scope) with
    ⟨_, hnone⟩ | ⟨lease, hheld, hid, _⟩
  · unfold finishRelease at h
    cases hres : releaseLease S.dataDir noFaults req (d.leases req.scope) with
    | mk answer file =>
      have hcall : (leaseCall req.scope (releaseLease S.dataDir noFaults req)).run d =
          (answer, Disk.setLease d req.scope file) := by
        unfold leaseCall
        rw [run_call, hres]
        rfl
      rw [hres] at hnone
      cases answer with
      | error =>
        rw [run_bind_error hcall] at h
        cases h
      | ok released =>
        rw [run_bind_ok hcall] at h
        rw [run_bind_error (by rw [hnone released rfl]; rfl)] at h
        cases h
  · exact ⟨lease, hheld, hid⟩

theorem ValidRelease.of_journal (h : ValidRelease S inventoryFile req now d)
    (hjournal : w.journal = d.journal) : ValidRelease S inventoryFile req now w := by
  have hstored : w.stored = d.stored := by
    unfold Disk.stored
    rw [hjournal]
  exact ⟨h.dataDir, by rw [hjournal, hstored]; exact h.readable, by rw [hstored]; exact h.holder,
    h.request, by rw [hstored]; exact h.fits⟩

/-- Wherever a release stops, the journal is the old one or lists no active operation. -/
theorem release_journal (hctrl : S.controller = some installation) :
    Holds (releaseControllerOperationLease S faults inventoryFile req now) d
      (fun w => w.journal = d.journal ∨ w.stored.active = none) (fun _ _ => True) := by
  refine (release_holds hctrl ⟨.error "", .error ""⟩ none now).weaken ?_ fun _ _ _ => trivial
  rintro w (⟨_, hjournal⟩ | ⟨a, leases, kept, _, rfl⟩)
  · exact .inl hjournal
  · exact .inr (retireControlOperation_active d.stored "completed" now)

/-- A release that fails or stops anywhere has retired the operation, or else the holder's
retry retires it exactly when the lease is still in its file. -/
theorem release_retry_retires_iff {installation : Installation}
    (hcontroller : S.controller = some installation) {req : LeaseRequest}
    {inventoryFile : Option ClusterInventory} {now : Time}
    (hvalid : ValidRelease S inventoryFile req now d) (firstFile : Option ClusterInventory)
    (faults : CallFaults) (first : Time) (stop : Stop) :
    let w := (releaseControllerOperationLease S faults firstFile req first).disk d stop
    w.stored.active = none ∨
      (Retires S inventoryFile req now w ↔ ∃ lease, w.leases req.scope = .held lease ∧
        lease.id = req.id) := by
  intro w
  rcases (release_journal hcontroller).disk (.inl rfl) stop with hjournal | hretired
  · right
    have hretry := hvalid.of_journal hjournal
    unfold Retires
    rw [hretry.run hcontroller]
    constructor
    · rintro ⟨response, hresponse, _⟩
      exact finishRelease_found hresponse
    · rintro ⟨lease, hheld, hid⟩
      obtain ⟨pruned, hpruned⟩ := hretry.fits
      obtain ⟨kept, hkept⟩ := pruneHistory_eq hpruned
      rw [finishRelease_retires hvalid.request hheld hid hpruned]
      refine ⟨_, rfl, ?_⟩
      rw [hkept]
      exact retireControlOperation_active _ _ _
  · exact .inl hretired

/-! A release whose lease cannot be read is retried with success; one that stops after the
lease is gone is not. -/

def releaseRequest : LeaseRequest :=
  { demoAsk "request-1" with id := "op-1", holderToken := "holder-1", fence := some firstFence }

def afterGrant : State := (machine demoControl).runTrace emptyController [askFirst]

theorem afterGrant_valid :
    ValidRelease demoControl (some demoInventory) releaseRequest now afterGrant.disk := by
  have hholder : (afterGrant.disk.stored.active.any fun a =>
      decide (a.fence.operationID = "op-1" ∧ checkHolder releaseRequest a = .ok ()) &&
        (verifyReleased demoControl (some demoInventory) firstFence a).toOption.isSome) := by
    decide +kernel
  obtain ⟨a, ha, hfacts⟩ := (Option.any_eq_true _ _).mp hholder
  rw [Bool.and_eq_true, decide_eq_true_eq] at hfacts
  obtain ⟨⟨hid, hcheck⟩, hverified⟩ := hfacts
  constructor
  · decide
  · decide +kernel
  · cases hfence : verifyReleased demoControl (some demoInventory) firstFence a with
    | error =>
      rw [hfence] at hverified
      cases hverified
    | ok fence => exact ⟨a, firstFence, fence, ha, rfl, hid, hcheck, hfence⟩
  · decide +kernel
  · have hlen : ∀ state, demoControl.encodedLen state + 1 ≤ maxFenceStateBytes := fun _ =>
      (by decide : 1 + 1 ≤ maxFenceStateBytes)
    cases (retireControlOperation afterGrant.disk.stored "completed" now).history with
    | nil | cons => exact ⟨_, if_pos (hlen _)⟩

def unreadable : CallFaults :=
  { noCallFaults with
    lease := { noFaults with first := { noAttemptFaults with read := some "i/o error" } } }

def unreadRelease : Disk :=
  (releaseControllerOperationLease demoControl unreadable
    (some demoInventory) releaseRequest 2).disk afterGrant.disk .returns

theorem release_retry_retires_iff_unreadable : unreadRelease.stored.active ≠ none ∧
    Retires demoControl (some demoInventory) releaseRequest 3 unreadRelease := by
  have hactive : unreadRelease.stored.active ≠ none := by decide +kernel
  have hheld : unreadRelease.leases releaseRequest.scope =
      .held (newLease { demoAsk "request-1" with id := "op-1" } 1) := by decide +kernel
  refine ⟨hactive, ?_⟩
  rcases release_retry_retires_iff rfl afterGrant_valid (some demoInventory) unreadable 2
    .returns with hretired | hiff
  · exact absurd hretired hactive
  · exact hiff.mpr ⟨_, hheld, rfl⟩

def halfReleased : State :=
  (machine demoControl).runTrace emptyController
    [askFirst, .release releaseRequest (some demoInventory) noCallFaults 2 (.crashes 1)]

/-- The lease is removed, the journal write is not reached: the retry is refused, the
operation stays active and blocks the next one. -/
theorem removed_lease_blocks_retry : (machine demoControl).Reachable Initial halfReleased ∧
    ValidRelease demoControl (some demoInventory) releaseRequest 3 afterGrant.disk ∧
    halfReleased.disk.leases releaseRequest.scope = .absent ∧
    ¬ Retires demoControl (some demoInventory) releaseRequest 3 halfReleased.disk ∧
    ((releaseControllerOperationLease demoControl noCallFaults
      (some demoInventory) releaseRequest 3).run halfReleased.disk).1 =
        .error "controller operation lease was not removed; global authority remains active" ∧
    (((machine demoControl).next halfReleased askSecond).disk.stored.active.map
      fun a => a.fence.operationID) = some "op-1" ∧
    fenceOf demoControl halfReleased askSecond = none := by
  refine ⟨.of_trace ⟨rfl, fun _ => rfl, rfl⟩ _ (by decide +kernel), afterGrant_valid, ?_, ?_, ?_,
    ?_, ?_⟩
  · decide +kernel
  · rintro ⟨response, hresponse, _⟩
    cases hresponse
  · decide +kernel
  · decide +kernel
  · decide +kernel

end ControllerLeases
